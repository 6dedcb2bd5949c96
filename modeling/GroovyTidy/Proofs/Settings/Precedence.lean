import GroovyTidy.Proofs.Settings.Overlay
import GroovyTidy.Settings.Layers
import Mathlib.Data.List.Basic
import Mathlib.Data.List.Induction

set_option autoImplicit false

/-!
Precedence of layers. Whatever the order of files and single values is, a setting is what the last
single value for it says. Without one it is what the last file says that has the setting, and
without such a file it is built in.
-/
namespace GroovyTidy.Settings

open Value (keyed overlayFields)

/-! ## Files -/

/-- The keys in a table of settings. -/
def keysIn (table : String) : List String :=
  if table = "format" then ["print_width", "indent_width"] else ["extensions"]

theorem foldKey_of_mem_keysIn {table key : String} (known : key ∈ keysIn table) :
    Value.foldKey key = key := by
  unfold keysIn at known
  split at known
  · rcases List.mem_pair.mp known with rfl | rfl
    · rfl
    · rfl
  · cases List.mem_singleton.mp known
    rfl

/-- Tables with some of the settings, as a file may have them. -/
def wellFormed (fields : List (String × Value)) : Bool :=
  keyed ["format", "files"] fields &&
    fields.all (fun field => field.2.fields?.any (keyed (keysIn field.1))) &&
    [Entry.printWidth, .indentWidth, .extensions].all fun entry =>
      ((Value.table none fields).at? entry).all entry.accepts

section

variable {fields : List (String × Value)} (formed : wellFormed fields = true)
include formed

theorem keyed_of_wellFormed : keyed ["format", "files"] fields = true :=
  (Bool.and_eq_true_iff.mp (Bool.and_eq_true_iff.mp formed).1).1

theorem table_of_wellFormed {name : String} {value : Value}
    (found : fields.lookup name = some value) :
    ∃ origin inner, value = .table origin inner ∧ keyed (keysIn name) inner = true := by
  obtain ⟨front, back, rfl, -⟩ := List.lookup_eq_some_iff.mp found
  have all := (Bool.and_eq_true_iff.mp (Bool.and_eq_true_iff.mp formed).1).2
  have here :=
    List.all_eq_true.mp all (name, value) (List.mem_append_right front List.mem_cons_self)
  cases value with
  | scalar origin scalar => cases here
  | array origin items => cases here
  | table origin inner => exact ⟨origin, inner, rfl, here⟩

theorem accepts_of_wellFormed {entry : Entry} {value : Value}
    (given : (Value.table none fields).at? entry = some value) : entry.accepts value = true := by
  have all := List.all_eq_true.mp (Bool.and_eq_true_iff.mp formed).2 entry (by cases entry <;> simp)
  rw [given] at all
  exact all

end

/-- The fields of a file, if there is one that can be read. -/
def fileFields? (tree : FileTree) (path : String) : Option (List (String × Value)) :=
  (findFile tree path).bind fun found =>
    (Toml.parse? (Text.ofBytesLossy (Text.dropByteOrderMark found.2)).toList).map
      (Value.fieldsOfToml (some found.1))

theorem path?_of_table {name : String} (known : name ∈ ["format", "files"]) :
    path? name = some [.key name] ∧ Value.foldKey name = name := by
  rcases List.mem_pair.mp known with rfl | rfl
  · exact ⟨by decide +kernel, rfl⟩
  · exact ⟨by decide +kernel, rfl⟩

/-- The name of a table is a path of one step, so a file is put on top as a table is. -/
theorem foldl_putField {fields : List (String × Value)}
    (listed : keyed ["format", "files"] fields = true) (below : Value) :
    fields.foldl putField below = overlayFields fields below := by
  induction fields generalizing below with
  | nil => rfl
  | cons field fields ih =>
    obtain ⟨key, value⟩ := field
    obtain ⟨known, -, rest⟩ := Value.keyed_cons.mp listed
    have put : putField below (key, value) = Value.changeKey key (Value.overlay value) below := by
      rw [putField, (path?_of_table known).1, Option.getD_some, Value.set]
    rw [List.foldl_cons, put, ih rest, overlayFields]

/-- What a file says about a setting is put on top, and what it does not say stays. -/
theorem at?_overlayFields {fields : List (String × Value)} (formed : wellFormed fields = true)
    (below : Value) (entry : Entry) :
    (overlayFields fields below).at? entry =
      ((Value.table none fields).at? entry).or (below.at? entry) := by
  have folded : ∀ key ∈ ["format", "files"], Value.foldKey key = key :=
    fun _ known => (path?_of_table known).2
  have accepted : ∀ value, (Value.table none fields).at? entry = some value →
      entry.accepts value = true :=
    fun value => accepts_of_wellFormed formed
  simp only [Value.at?, Value.field?_table] at accepted ⊢
  rw [Value.field?_overlayFields folded (keyed_of_wellFormed formed)]
  cases found : fields.lookup entry.table with
  | none => rfl
  | some value =>
    obtain ⟨origin, inner, rfl, listed⟩ := table_of_wellFormed formed found
    rw [found, Option.bind_some, Value.field?_table] at accepted
    rw [Option.map_some, Option.some_or, Option.bind_some, Option.bind_some, Value.field?_table,
      Value.overlay, Value.field?_overlayFields (fun _ => foldKey_of_mem_keysIn) listed,
      Value.field?_getD rfl]
    cases given : inner.lookup entry.key with
    | none => rfl
    | some value =>
      have plain := Entry.isTable_eq_false_of_accepts (accepted value given)
      rw [Option.map_some, Value.overlay_of_isTable_eq_false plain]

/-! ## Layers -/

/-- What is built in for a setting. -/
def Entry.builtIn : Entry → Value
  | printWidth => .scalar none (.integer 80)
  | indentWidth => .scalar none (.integer 4)
  | extensions =>
    .array none (["groovy", "gradle", "gvy", "gy", "gsh"].map fun extension =>
      .scalar none (.text extension))

theorem at?_builtIn (entry : Entry) : builtIn.at? entry = some entry.builtIn := by
  cases entry <;> rfl

theorem Entry.accepts_builtIn (entry : Entry) : entry.accepts entry.builtIn = true := by
  cases entry <;> rfl

/-- What is put at a path, if the path leads to a setting. -/
def Entry.given? (entry : Entry) (change : List Step × Value) : Option Value :=
  if entry.Addressed change.1 then some change.2 else none

namespace Layer

/-- What a layer says about a setting, if it is a file. -/
def fromFile? (tree : FileTree) (entry : Entry) : Layer → Option Value
  | file path | optionalFile path =>
    (fileFields? tree path).bind fun fields => (Value.table none fields).at? entry
  | override _ _ => none

/-- The path and the value of a layer, if it is a single value. -/
def change? : Layer → Option (List Step × Value)
  | override text value => (path? text).map fun path => (path, value)
  | file _ | optionalFile _ => none

/-- What a layer says about a setting, if it is a single value. -/
def fromOverride? (entry : Entry) (layer : Layer) : Option Value :=
  layer.change?.bind entry.given?

/-- A single value is meant for one setting, and is no table, or for no setting. -/
def Meant : Layer → Prop
  | override text value => ∃ path, path? text = some path ∧
    ∀ entry : Entry, entry.Missed path ∨ entry.Addressed path ∧ value.isTable = false
  | file _ | optionalFile _ => True

/-- Files have tables with some of the settings. Only a file that need not be there may be
missing. -/
def Proper (tree : FileTree) : Layer → Prop
  | file path => (fileFields? tree path).any wellFormed = true
  | optionalFile path => findFile tree path = none ∨ (fileFields? tree path).any wellFormed = true
  | override text value => (override text value).Meant

theorem Proper.meant {tree : FileTree} {layer : Layer} (proper : layer.Proper tree) :
    layer.Meant := by
  cases layer with
  | file path => trivial
  | optionalFile path => trivial
  | override text value => exact proper

end Layer

/-- The value that prevails for a setting: that of the last single value for it, else that of the
last file that has it, else the one that is built in. -/
def prevailing (tree : FileTree) (layers : List Layer) (entry : Entry) : Value :=
  ((layers.filterMap (Layer.fromOverride? entry)).getLast?.or
    (layers.filterMap (Layer.fromFile? tree entry)).getLast?).getD entry.builtIn

/-- Of what is put on top one after another, the last prevails. -/
theorem foldlM_prevails {α : Type} {put : Value → α → Except Error Value}
    {given : Entry → α → Option Value} {items : List α}
    (step : ∀ item ∈ items, ∀ below, ∃ after, put below item = .ok after ∧
      ∀ entry, after.at? entry = (given entry item).or (below.at? entry)) (below : Value) :
    ∃ after, items.foldlM put below = .ok after ∧
      ∀ entry, after.at? entry = (items.filterMap (given entry)).getLast?.or (below.at? entry) := by
  induction items generalizing below with
  | nil => exact ⟨below, rfl, fun entry => rfl⟩
  | cons item items ih =>
    obtain ⟨middle, done, first⟩ := step item List.mem_cons_self below
    obtain ⟨after, success, rest⟩ :=
      ih (fun other member => step other (List.mem_cons_of_mem _ member)) middle
    refine ⟨after, ?_, fun entry => ?_⟩
    · rw [List.foldlM_cons, done]
      exact success
    · rw [rest, first, List.filterMap_cons]
      cases given entry item with
      | none => rfl
      | some value =>
        dsimp only
        rw [List.getLast?_cons]
        cases (items.filterMap (given entry)).getLast? with
        | none => rfl
        | some last => rfl

/-- A file is found and put on top. -/
theorem putFile_at {tree : FileTree} {path : String}
    (present : (fileFields? tree path).any wellFormed = true) (below : Value) :
    ∃ origin bytes after, findFile tree path = some (origin, bytes) ∧
      putFile below origin bytes = .ok after ∧
      ∀ entry, after.at? entry =
        ((fileFields? tree path).bind fun fields => (Value.table none fields).at? entry).or
          (below.at? entry) := by
  obtain ⟨fields, read, formed⟩ := (Option.any_eq_true _ _).mp present
  obtain ⟨⟨origin, bytes⟩, found, parsed⟩ := Option.bind_eq_some_iff.mp read
  obtain ⟨given, parses, rfl⟩ := Option.map_eq_some_iff.mp parsed
  refine ⟨origin, bytes, overlayFields (Value.fieldsOfToml (some origin) given) below, found, ?_,
    fun entry => ?_⟩
  · dsimp only at parses
    rw [putFile, parses]
    exact congrArg Except.ok (foldl_putField (keyed_of_wellFormed formed) below)
  · rw [read, Option.bind_some, at?_overlayFields formed]

/-- A layer that is a file is put on top. -/
theorem putLayer_at {tree : FileTree} {layer : Layer} (proper : layer.Proper tree) (below : Value) :
    ∃ after, putLayer tree below layer = .ok after ∧
      ∀ entry, after.at? entry = (layer.fromFile? tree entry).or (below.at? entry) := by
  cases layer with
  | file path =>
    obtain ⟨origin, bytes, after, found, put, now⟩ := putFile_at proper below
    refine ⟨after, ?_, now⟩
    rw [putLayer, found]
    exact put
  | optionalFile path =>
    rcases proper with missing | present
    · refine ⟨below, ?_, fun entry => ?_⟩
      · rw [putLayer, missing]
      · rw [Layer.fromFile?, fileFields?, missing, Option.bind_none, Option.bind_none,
          Option.none_or]
    · obtain ⟨origin, bytes, after, found, put, now⟩ := putFile_at present below
      refine ⟨after, ?_, now⟩
      rw [putLayer, found]
      exact put
  | override text value => exact ⟨below, rfl, fun entry => rfl⟩

theorem Layer.Proper.accepts_fromFile {tree : FileTree} {layer : Layer} (proper : layer.Proper tree)
    {entry : Entry} {value : Value} (here : layer.fromFile? tree entry = some value) :
    entry.accepts value = true := by
  have given {path : String} (present : (fileFields? tree path).any wellFormed = true)
      (here : ((fileFields? tree path).bind fun fields => (Value.table none fields).at? entry) =
        some value) :
      entry.accepts value = true := by
    obtain ⟨fields, read, formed⟩ := (Option.any_eq_true _ _).mp present
    rw [read, Option.bind_some] at here
    exact accepts_of_wellFormed formed here
  cases layer with
  | file path => exact given proper here
  | optionalFile path =>
    rcases proper with missing | present
    · rw [Layer.fromFile?, fileFields?, missing] at here
      cases here
    · exact given present here
  | override text value => cases here

/-! ## Single values -/

/-- Single values are found in their order. -/
theorem overrides_eq {layers : List Layer} (meant : ∀ layer ∈ layers, layer.Meant) :
    overrides layers = .ok (layers.filterMap Layer.change?) := by
  induction layers using List.reverseRecOn with
  | nil => rfl
  | append_singleton layers layer ih =>
    have before := ih fun layer member => meant layer (List.mem_append_left _ member)
    unfold overrides at before ⊢
    rw [List.foldlM_append, before, List.filterMap_append]
    cases layer with
    | file path => exact congrArg Except.ok (List.append_nil _).symm
    | optionalFile path => exact congrArg Except.ok (List.append_nil _).symm
    | override text value =>
      obtain ⟨path, read, -⟩ := meant _ (List.mem_append_right _ List.mem_cons_self)
      have change : (Layer.override text value).change? = some (path, value) := by
        rw [Layer.change?, read, Option.map_some]
      rw [List.filterMap_cons_some change]
      simp only [List.foldlM_cons, read]
      rfl

/-- A single value is put on top of the setting it is meant for. -/
theorem change_at {layer : Layer} (meant : layer.Meant) {change : List Step × Value}
    (here : layer.change? = some change) (below : Value) (entry : Entry) :
    (change.2.set change.1 below).at? entry = (entry.given? change).or (below.at? entry) := by
  cases layer with
  | file path => cases here
  | optionalFile path => cases here
  | override text value =>
    obtain ⟨path, read, each⟩ := meant
    rw [Layer.change?, read, Option.map_some] at here
    cases here
    rcases each entry with missed | ⟨own, plain⟩
    · have other : ¬ entry.Addressed path := missed.not_addressed
      rw [Entry.given?, if_neg other, Option.none_or, Value.at?_set_of_missed missed]
    · rw [Entry.given?, if_pos own, Option.some_or, Value.at?_set own,
        Value.overlay_of_isTable_eq_false plain]

/-- Puts a single value on top, which is always possible. -/
def putChange (below : Value) (change : List Step × Value) : Except Error Value :=
  .ok (change.2.set change.1 below)

theorem foldl_changes_at {layers : List Layer} (meant : ∀ layer ∈ layers, layer.Meant)
    (below : Value) (entry : Entry) :
    ((layers.filterMap Layer.change?).foldl (fun below change => change.2.set change.1 below)
      below).at? entry =
      (layers.filterMap (Layer.fromOverride? entry)).getLast?.or (below.at? entry) := by
  have step : ∀ change ∈ layers.filterMap Layer.change?, ∀ below, ∃ after,
      putChange below change = .ok after ∧
      ∀ entry : Entry, after.at? entry = (entry.given? change).or (below.at? entry) := by
    intro change member below
    obtain ⟨layer, inside, here⟩ := List.mem_filterMap.mp member
    exact ⟨_, rfl, change_at (meant layer inside) here below⟩
  obtain ⟨after, success, now⟩ := foldlM_prevails step below
  have folded : (layers.filterMap Layer.change?).foldlM putChange below = .ok
      ((layers.filterMap Layer.change?).foldl
        (fun below change => change.2.set change.1 below) below) :=
    List.foldlM_pure
  cases folded.symm.trans success
  rw [now, List.filterMap_filterMap]
  rfl

/-- Settings are decoded from the values that prevail. -/
theorem load_eq_settingsOf {tree : FileTree} {layers : List Layer}
    (proper : ∀ layer ∈ layers, layer.Proper tree) :
    load tree layers = settingsOf (prevailing tree layers) := by
  have meant : ∀ layer ∈ layers, layer.Meant := fun layer member => (proper layer member).meant
  obtain ⟨files, success, filed⟩ :=
    foldlM_prevails (fun layer member below => putLayer_at (proper layer member) below) builtIn
  rw [load, overrides_eq meant]
  simp only [bind, Except.bind, success]
  apply decode_eq_settingsOf
  intro entry
  rw [foldl_changes_at meant, filed, at?_builtIn, prevailing]
  cases (layers.filterMap (Layer.fromOverride? entry)).getLast? with
  | some value => rfl
  | none =>
    rw [Option.none_or, Option.none_or]
    cases (layers.filterMap (Layer.fromFile? tree entry)).getLast? with
    | some value => rfl
    | none => rfl

/-- Whatever the files are, settings come from a value that has the single values. -/
theorem load_eq_ok {tree : FileTree} {layers : List Layer} {settings : Settings}
    (meant : ∀ layer ∈ layers, layer.Meant) (success : load tree layers = .ok settings) :
    ∃ value, decode value = .ok settings ∧ ∀ entry found,
      (layers.filterMap (Layer.fromOverride? entry)).getLast? = some found →
      value.at? entry = some found := by
  simp only [load, bind_eq_ok] at success
  obtain ⟨changes, found, files, -, decoded⟩ := success
  rw [overrides_eq meant] at found
  cases found
  refine ⟨_, decoded, fun entry found last => ?_⟩
  rw [foldl_changes_at meant, last, Option.some_or]

/-- What prevails can be what a setting is set to, if the last single value for the setting can. -/
theorem accepts_prevailing {tree : FileTree} {layers : List Layer}
    (proper : ∀ layer ∈ layers, layer.Proper tree) {entry : Entry}
    (accepted : ∀ value, (layers.filterMap (Layer.fromOverride? entry)).getLast? = some value →
      entry.accepts value = true) : entry.accepts (prevailing tree layers entry) = true := by
  unfold prevailing
  cases last : (layers.filterMap (Layer.fromOverride? entry)).getLast? with
  | some value => exact accepted value last
  | none =>
    rw [Option.none_or]
    cases filed : (layers.filterMap (Layer.fromFile? tree entry)).getLast? with
    | none => exact entry.accepts_builtIn
    | some value =>
      obtain ⟨layer, member, here⟩ := List.mem_filterMap.mp (List.mem_of_getLast? filed)
      exact (proper layer member).accepts_fromFile here

end GroovyTidy.Settings
