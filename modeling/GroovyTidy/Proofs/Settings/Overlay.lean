import GroovyTidy.Proofs.FileTree
import GroovyTidy.Settings.Basic
import Mathlib.Logic.Basic

set_option autoImplicit false

/-!
What values hold after other values are put on top of them. A value is looked at where its settings
stand: in a table of a table. Putting something there changes this one place, and putting something
elsewhere does not change it.
-/
namespace GroovyTidy.Settings

/-- The settings there are. -/
inductive Entry where
  | printWidth
  | indentWidth
  | extensions
  deriving DecidableEq, Repr

namespace Entry

/-- The table in which a setting stands. -/
def table : Entry → String
  | printWidth | indentWidth => "format"
  | extensions => "files"

/-- The key of a setting in its table. -/
def key : Entry → String
  | printWidth => "print_width"
  | indentWidth => "indent_width"
  | extensions => "extensions"

def steps (entry : Entry) : List Step :=
  [.key entry.table, .key entry.key]

theorem ext_steps {entry other : Entry} (same : other.table = entry.table)
    (also : other.key = entry.key) : other = entry := by
  cases entry <;> cases other <;> first | rfl | exact absurd also (by decide)

end Entry

namespace Value

/-! ## Fields of tables -/

/-- The fields of a table. -/
def fields? : Value → Option (List (String × Value))
  | table _ fields => some fields
  | _ => none

/-- The value at a key, if the value is a table that has one. -/
def field? (name : String) : Value → Option Value
  | table _ fields => fields.lookup name
  | _ => none

/-- The value at the place of a setting. -/
def at? (entry : Entry) (value : Value) : Option Value :=
  (value.field? entry.table).bind (field? entry.key)

def isTable : Value → Bool
  | table _ _ => true
  | _ => false

theorem overlay_of_isTable_eq_false {value : Value} (plain : value.isTable = false)
    (below : Option Value) : overlay value below = value := by
  cases value with
  | scalar origin scalar => rw [overlay]; simp
  | array origin items => rw [overlay]; simp
  | table origin fields => cases plain

theorem lookup_changeField (key name : String) (change : Option Value → Value)
    (fields : List (String × Value)) :
    (changeField key change fields).lookup name =
      if name = key then some (change (fields.lookup key)) else fields.lookup name := by
  induction fields with
  | nil => rw [changeField, lookup_cons_eq_ite, List.lookup_nil, List.lookup_nil]
  | cons field fields ih =>
    obtain ⟨other, value⟩ := field
    rw [changeField, lookup_cons_eq_ite other key, lookup_cons_eq_ite other name]
    by_cases here : other = key
    · subst here
      rw [if_pos rfl, if_pos rfl, lookup_cons_eq_ite]
      by_cases same : name = other
      · rw [if_pos same, if_pos same]
      · rw [if_neg same, if_neg same, if_neg same]
    · rw [if_neg here, if_neg (Ne.symm here), lookup_cons_eq_ite, ih]
      by_cases same : name = other
      · rw [if_pos same, if_neg (same.trans_ne here), if_pos same]
      · rw [if_neg same, if_neg same]

/-- Changing a key changes the field of this key only. -/
theorem field?_changeKey (key name : String) (change : Option Value → Value) (value : Value) :
    (changeKey key change value).field? name =
      if name = foldKey key then some (change (value.field? (foldKey key)))
      else value.field? name := by
  cases value with
  | table origin fields => exact lookup_changeField _ _ _ _
  | scalar origin scalar => exact lookup_changeField (foldKey key) name change []
  | array origin items => exact lookup_changeField (foldKey key) name change []

@[simp] theorem field?_table (name : String) (origin : Option String)
    (fields : List (String × Value)) :
    (table origin fields).field? name = fields.lookup name := rfl

theorem field?_getD {name : String} {other : Value} (empty : other.field? name = none)
    (found : Option Value) : (found.getD other).field? name = found.bind (field? name) := by
  cases found with
  | none => exact empty
  | some value => rfl

/-! ## Single values -/

theorem set_key_cons (value : Value) (name : String) (step : Step) (path : List Step)
    (below : Value) :
    set value (.key name :: step :: path) below =
      changeKey name (fun inner => set value (step :: path) (inner.getD absent)) below := by
  rw [set]
  simp

/-- Whatever the rest of a path is, its first key is changed. -/
theorem set_key (value : Value) (name : String) (path : List Step) :
    ∃ change, ∀ below, set value (.key name :: path) below = changeKey name change below := by
  cases path with
  | nil => exact ⟨overlay value, fun below => by rw [set]⟩
  | cons step path => exact ⟨_, set_key_cons value name step path⟩

end Value

/-- A step as it is compared. -/
def Step.folded : Step → Step
  | .key name => .key (Value.foldKey name)
  | .index position => .index position

namespace Entry

/-- A path leads to a setting. -/
def Addressed (entry : Entry) (path : List Step) : Prop :=
  path.map Step.folded = entry.steps

instance (entry : Entry) (path : List Step) : Decidable (entry.Addressed path) :=
  inferInstanceAs (Decidable (path.map Step.folded = entry.steps))

/-- A path leads elsewhere than to a setting, and neither to its table nor into it. -/
def Missed (entry : Entry) : List Step → Prop
  | .key first :: rest =>
    Value.foldKey first = entry.table → ∃ second more, rest = .key second :: more ∧
      Value.foldKey second ≠ entry.key
  | _ => False

theorem Addressed.eq {entry : Entry} {path : List Step} (own : entry.Addressed path) :
    ∃ first second, path = [.key first, .key second] ∧ Value.foldKey first = entry.table ∧
      Value.foldKey second = entry.key := by
  obtain ⟨first, rest, rfl, same, tail⟩ := List.map_eq_cons_iff.mp own
  obtain ⟨second, more, rfl, also, none⟩ := List.map_eq_cons_iff.mp tail
  cases List.map_eq_nil_iff.mp none
  cases first with
  | index position => cases same
  | key first =>
    cases second with
    | index position => cases also
    | key second => exact ⟨first, second, rfl, Step.key.inj same, Step.key.inj also⟩

theorem Addressed.missed {entry other : Entry} {path : List Step} (own : entry.Addressed path)
    (differs : other ≠ entry) : other.Missed path := by
  obtain ⟨first, second, rfl, same, also⟩ := own.eq
  intro here
  refine ⟨second, [], rfl, fun there => differs ?_⟩
  exact ext_steps (here.symm.trans same) (there.symm.trans also)

theorem Missed.not_addressed {entry : Entry} {path : List Step} (missed : entry.Missed path) :
    ¬ entry.Addressed path := by
  intro own
  obtain ⟨first, second, rfl, same, also⟩ := own.eq
  obtain ⟨other, more, here, differs⟩ := missed same
  cases here
  exact differs also

end Entry

namespace Value

/-- A single value is put where its path leads. -/
theorem at?_set {entry : Entry} {path : List Step} (own : entry.Addressed path)
    (value below : Value) :
    (set value path below).at? entry = some (overlay value (below.at? entry)) := by
  obtain ⟨first, second, rfl, same, also⟩ := own.eq
  rw [at?, set_key_cons, field?_changeKey, if_pos same.symm, Option.bind_some, set,
    field?_changeKey, if_pos also.symm, field?_getD rfl, same, also, at?]

/-- And nothing changes elsewhere. -/
theorem at?_set_of_missed {entry : Entry} {path : List Step} (missed : entry.Missed path)
    (value below : Value) : (set value path below).at? entry = below.at? entry := by
  cases path with
  | nil => exact missed.elim
  | cons step rest =>
    cases step with
    | index position => exact missed.elim
    | key first =>
      by_cases same : foldKey first = entry.table
      · -- In the table of the setting another key is changed.
        obtain ⟨second, more, rfl, differs⟩ := missed same
        obtain ⟨change, changed⟩ := set_key value second more
        rw [at?, set_key_cons, field?_changeKey, if_pos same.symm, Option.bind_some, changed,
          field?_changeKey, if_neg differs.symm, field?_getD rfl, same, at?]
      · obtain ⟨change, changed⟩ := set_key value first rest
        rw [at?, changed, field?_changeKey, if_neg (Ne.symm same), at?]

/-! ## Tables -/

/-- Fields with some of these keys, each at most once. -/
def keyed (keys : List String) : List (String × Value) → Bool
  | [] => true
  | (key, _) :: fields => keys.contains key && (fields.lookup key).isNone && keyed keys fields

theorem keyed_cons {keys : List String} {key : String} {value : Value}
    {fields : List (String × Value)} :
    keyed keys ((key, value) :: fields) = true ↔ key ∈ keys ∧ fields.lookup key = none ∧
    keyed keys fields = true := by
  rw [keyed, Bool.and_eq_true, Bool.and_eq_true, List.contains_iff_mem,
    Option.isNone_iff_eq_none, and_assoc]

/-- Tables are merged field by field. -/
theorem field?_overlayFields {keys : List String} (folded : ∀ key ∈ keys, foldKey key = key)
    {fields : List (String × Value)} (listed : keyed keys fields = true) (below : Value)
    (name : String) :
    (overlayFields fields below).field? name =
      ((fields.lookup name).map fun value => overlay value (below.field? name)).or
        (below.field? name) := by
  induction fields generalizing below with
  | nil => rw [overlayFields, List.lookup_nil, Option.map_none, Option.none_or]
  | cons field fields ih =>
    obtain ⟨key, value⟩ := field
    obtain ⟨known, once, rest⟩ := keyed_cons.mp listed
    rw [overlayFields, ih rest, field?_changeKey, folded key known, lookup_cons_eq_ite]
    by_cases here : name = key
    · subst here
      rw [if_pos rfl, if_pos rfl, once, Option.map_none, Option.none_or, Option.map_some,
        Option.some_or]
    · rw [if_neg here, if_neg here]

end Value

/-! ## What values mean -/

/-- What a setting is set to. -/
inductive Content where
  | width (number : Nat)
  | texts (texts : List String)
  deriving DecidableEq, Repr

/-- What a setting is set to in settings. -/
def Entry.content (settings : Settings) : Entry → Content
  | printWidth => .width settings.layout.printWidth
  | indentWidth => .width settings.layout.indentWidth
  | extensions => .texts settings.extensions

/-- A text by itself. -/
def Value.text? : Value → Option String
  | scalar _ (.text text) => some text
  | _ => none

/-- What a value means: a number itself, and a list the texts in it. -/
def Value.content? : Value → Option Content
  | scalar _ (.integer number) => if number < 0 then none else some (.width number.toNat)
  | array _ items => (items.mapM text?).map .texts
  | _ => none

/-- A setting can be set to a width or to texts. -/
def Entry.admits : Entry → Content → Bool
  | printWidth, .width _ | indentWidth, .width _ | extensions, .texts _ => true
  | _, _ => false

/-- A setting can be set to what a value means. -/
def Entry.accepts (entry : Entry) (value : Value) : Bool :=
  value.content?.any entry.admits

theorem Entry.accepts_iff {entry : Entry} {value : Value} :
    entry.accepts value = true ↔ ∃ settings, value.content? = some (entry.content settings) := by
  rw [Entry.accepts, Option.any_eq_true]
  constructor
  · rintro ⟨content, means, admitted⟩
    cases content with
    | width n =>
      refine ⟨⟨⟨n, n⟩, []⟩, means.trans ?_⟩
      cases entry with
      | printWidth => rfl
      | indentWidth => rfl
      | extensions => cases admitted
    | texts texts =>
      refine ⟨⟨⟨0, 0⟩, texts⟩, means.trans ?_⟩
      cases entry with
      | printWidth => cases admitted
      | indentWidth => cases admitted
      | extensions => rfl
  · rintro ⟨settings, means⟩
    refine ⟨_, means, ?_⟩
    cases entry <;> rfl

theorem Entry.isTable_eq_false_of_accepts {entry : Entry} {value : Value}
    (accepted : entry.accepts value = true) : value.isTable = false := by
  cases value with
  | scalar origin scalar => rfl
  | array origin items => rfl
  | table origin fields => cases accepted

/-- The settings with these values, if they are what settings can be set to. -/
def settingsOf (current : Entry → Value) : Except Error Settings := do
  let printWidth ← decodeNatural Entry.printWidth.steps (current .printWidth)
  let indentWidth ← decodeNatural Entry.indentWidth.steps (current .indentWidth)
  let extensions ← decodeTexts Entry.extensions.steps (current .extensions)
  return { layout := { printWidth, indentWidth }, extensions }

theorem decodeNatural_of_content {value : Value} {number : Nat}
    (means : value.content? = some (.width number)) (path : List Step) :
    decodeNatural path value = .ok number := by
  cases value with
  | table origin fields => cases means
  | array origin items =>
    obtain ⟨texts, -, other⟩ := Option.map_eq_some_iff.mp means
    cases other
  | scalar origin scalar =>
    cases scalar with
    | integer given =>
      rw [Value.content?] at means
      split at means
      · cases means
      · rename_i natural
        cases means
        simp only [decodeNatural, if_neg natural]
    | none => cases means
    | boolean flag => cases means
    | float given => cases means
    | text given => cases means

theorem decodeText_of_text {value : Value} {text : String} (means : value.text? = some text)
    {path : List Step} : decodeText path value = .ok text := by
  cases value with
  | table origin fields => cases means
  | array origin items => cases means
  | scalar origin scalar =>
    cases scalar with
    | text given =>
      cases means
      rfl
    | none => cases means
    | boolean flag => cases means
    | integer given => cases means
    | float given => cases means

theorem decodeTextsFrom_of_mapM {items : List Value} {texts : List String}
    (means : items.mapM Value.text? = some texts) (path : List Step) (position : Nat) :
    decodeTextsFrom path position items = .ok texts := by
  induction items generalizing texts position with
  | nil =>
    cases means
    rfl
  | cons item items ih =>
    rw [List.mapM_cons] at means
    obtain ⟨text, first, rest⟩ := Option.bind_eq_some_iff.mp means
    obtain ⟨others, listed, done⟩ := Option.bind_eq_some_iff.mp rest
    cases done
    rw [decodeTextsFrom, decodeText_of_text first, ih listed]
    rfl

theorem decodeTexts_of_content {value : Value} {texts : List String}
    (means : value.content? = some (.texts texts)) (path : List Step) :
    decodeTexts path value = .ok texts := by
  cases value with
  | table origin fields => cases means
  | array origin items =>
    obtain ⟨given, listed, same⟩ := Option.map_eq_some_iff.mp means
    cases same
    exact decodeTextsFrom_of_mapM listed path 0
  | scalar origin scalar =>
    cases scalar with
    | integer given =>
      rw [Value.content?] at means
      split at means <;> cases means
    | none => cases means
    | boolean flag => cases means
    | float given => cases means
    | text given => cases means

theorem settingsOf_of_accepts {current : Entry → Value}
    (accepted : ∀ entry : Entry, entry.accepts (current entry) = true) :
    ∃ settings, settingsOf current = .ok settings ∧
      ∀ entry : Entry, (current entry).content? = some (entry.content settings) := by
  obtain ⟨first, printWidth⟩ := Entry.accepts_iff.mp (accepted .printWidth)
  obtain ⟨second, indentWidth⟩ := Entry.accepts_iff.mp (accepted .indentWidth)
  obtain ⟨third, extensions⟩ := Entry.accepts_iff.mp (accepted .extensions)
  refine ⟨⟨⟨first.layout.printWidth, second.layout.indentWidth⟩, third.extensions⟩, ?_, ?_⟩
  · rw [settingsOf, decodeNatural_of_content printWidth, decodeNatural_of_content indentWidth,
      decodeTexts_of_content extensions]
    rfl
  · intro entry
    cases entry with
    | printWidth => exact printWidth
    | indentWidth => exact indentWidth
    | extensions => exact extensions

/-! ## Settings of a value -/

theorem Value.at?_eq_some {entry : Entry} {value found : Value}
    (here : value.at? entry = some found) :
    ∃ origin fields inner entries, value = .table origin fields ∧
      fields.lookup entry.table = some (.table inner entries) ∧
      entries.lookup entry.key = some found := by
  obtain ⟨middle, first, second⟩ := Option.bind_eq_some_iff.mp here
  cases value with
  | scalar origin scalar => cases first
  | array origin items => cases first
  | table origin fields =>
    cases middle with
    | scalar origin scalar => cases second
    | array origin items => cases second
    | table inner entries => exact ⟨origin, fields, inner, entries, rfl, first, second⟩

theorem decodeLayout_table {origin : Option String} {fields : List (String × Value)}
    {printWidth indentWidth : Value} (first : fields.lookup Entry.printWidth.key = some printWidth)
    (second : fields.lookup Entry.indentWidth.key = some indentWidth) :
    decodeLayout (.table origin fields) = (do
      let printWidth ← decodeNatural Entry.printWidth.steps printWidth
      let indentWidth ← decodeNatural Entry.indentWidth.steps indentWidth
      return { printWidth, indentWidth }) := by
  simp only [Entry.key] at first second
  simp only [decodeLayout, first, second, Entry.steps, Entry.table, Entry.key, Option.mapM_some]
  cases decodeNatural [.key "format", .key "print_width"] printWidth with
  | error error => rfl
  | ok width =>
    cases decodeNatural [.key "format", .key "indent_width"] indentWidth with
    | error error => rfl
    | ok indent => rfl

theorem decodeFiles_table {origin : Option String} {fields : List (String × Value)}
    {extensions : Value} (found : fields.lookup Entry.extensions.key = some extensions) :
    decodeFiles (.table origin fields) = decodeTexts Entry.extensions.steps extensions := by
  simp only [Entry.key] at found
  simp only [decodeFiles, found, Entry.steps, Entry.table, Entry.key, Option.mapM_some]
  cases decodeTexts [.key "files", .key "extensions"] extensions with
  | error error => rfl
  | ok texts => rfl

/-- A value that has all settings is decoded setting by setting. -/
theorem decode_eq_settingsOf {value : Value} {current : Entry → Value}
    (present : ∀ entry, value.at? entry = some (current entry)) :
    decode value = settingsOf current := by
  obtain ⟨origin, fields, formatOrigin, format, rfl, formatAt, printWidth⟩ :=
    Value.at?_eq_some (present .printWidth)
  obtain ⟨_, _, _, again, same, formatAgain, indentWidth⟩ :=
    Value.at?_eq_some (present .indentWidth)
  obtain ⟨_, _, filesOrigin, files, sameToo, filesAt, extensions⟩ :=
    Value.at?_eq_some (present .extensions)
  cases same
  cases sameToo
  cases formatAt.symm.trans formatAgain
  simp only [Entry.table] at formatAt filesAt
  simp only [decode, formatAt, filesAt, Option.mapM_some, decodeLayout_table printWidth indentWidth,
    decodeFiles_table extensions, settingsOf]
  cases decodeNatural Entry.printWidth.steps (current .printWidth) with
  | error error => rfl
  | ok width =>
    cases decodeNatural Entry.indentWidth.steps (current .indentWidth) with
    | error error => rfl
    | ok indent =>
      cases decodeTexts Entry.extensions.steps (current .extensions) with
      | error error => rfl
      | ok texts => rfl

theorem bind_eq_ok {α β : Type} {first : Except Error α} {next : α → Except Error β} {value : β} :
    (first >>= next) = .ok value ↔ ∃ given, first = .ok given ∧ next given = .ok value := by
  cases first with
  | error error => exact ⟨fun failed => (by cases failed), fun ⟨_, failed, _⟩ => (by cases failed)⟩
  | ok given =>
    exact ⟨fun success => ⟨given, rfl, success⟩,
      fun ⟨_, same, success⟩ => (by cases same; exact success)⟩

theorem require_eq_ok {α : Type} {name : String} {found : Option α} {value : α} :
    require name found = .ok value ↔ found = some value := by
  cases found with
  | none => exact ⟨fun failed => (by cases failed), fun failed => (by cases failed)⟩
  | some given => exact ⟨fun same => (by cases same; rfl), fun same => (by cases same; rfl)⟩

theorem mapM_eq_ok_some {α β : Type} {decoder : α → Except Error β} {found : Option α} {value : β}
    (success : found.mapM decoder = .ok (some value)) :
    ∃ given, found = some given ∧ decoder given = .ok value := by
  cases found with
  | none => cases success
  | some given =>
    refine ⟨given, rfl, ?_⟩
    rw [Option.mapM_some] at success
    cases decoded : decoder given with
    | error error =>
      rw [decoded] at success
      cases success
    | ok result =>
      rw [decoded] at success
      cases success
      rfl

/-- Where a layout is decoded from a table, both widths are there. -/
theorem decodeLayout_eq_ok {origin : Option String} {fields : List (String × Value)}
    {options : LayoutOptions} (success : decodeLayout (.table origin fields) = .ok options) :
    (∃ value, fields.lookup Entry.printWidth.key = some value ∧
      decodeNatural Entry.printWidth.steps value = .ok options.printWidth) ∧
    ∃ value, fields.lookup Entry.indentWidth.key = some value ∧
      decodeNatural Entry.indentWidth.steps value = .ok options.indentWidth := by
  simp only [decodeLayout, bind_eq_ok, require_eq_ok] at success
  obtain ⟨_, printWidth, _, indentWidth, width, rfl, indent, rfl, done⟩ := success
  cases done
  exact ⟨mapM_eq_ok_some printWidth, mapM_eq_ok_some indentWidth⟩

/-- A width that is decoded is the one that stands at its place. -/
theorem decode_widths {value : Value} {settings : Settings}
    (success : decode value = .ok settings) :
    (∀ found, value.at? .printWidth = some found →
      decodeNatural Entry.printWidth.steps found = .ok settings.layout.printWidth) ∧
    ∀ found, value.at? .indentWidth = some found →
      decodeNatural Entry.indentWidth.steps found = .ok settings.layout.indentWidth := by
  have layout {entry : Entry} (inside : entry.table = "format") {found : Value}
      (here : value.at? entry = some found) :
      ∃ origin fields, fields.lookup entry.key = some found ∧
        decodeLayout (.table origin fields) = .ok settings.layout := by
    obtain ⟨origin, fields, inner, entries, rfl, at_table, at_key⟩ := Value.at?_eq_some here
    simp only [decode, bind_eq_ok, require_eq_ok] at success
    obtain ⟨_, decoded, _, -, options, rfl, extensions, rfl, done⟩ := success
    cases done
    obtain ⟨given, present, result⟩ := mapM_eq_ok_some decoded
    rw [inside, present] at at_table
    cases at_table
    exact ⟨inner, entries, at_key, result⟩
  constructor
  · intro found here
    obtain ⟨origin, fields, present, decoded⟩ := layout rfl here
    obtain ⟨⟨value, again, result⟩, -⟩ := decodeLayout_eq_ok decoded
    cases present.symm.trans again
    exact result
  · intro found here
    obtain ⟨origin, fields, present, decoded⟩ := layout rfl here
    obtain ⟨-, value, again, result⟩ := decodeLayout_eq_ok decoded
    cases present.symm.trans again
    exact result

end GroovyTidy.Settings
