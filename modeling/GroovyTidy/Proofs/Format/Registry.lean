import GroovyTidy.Format.Registry
import GroovyTidy.Proofs.Text.ByteOrder
import Mathlib.Data.List.Sort

set_option autoImplicit false

/-!
What a registry answers after a run of registrations. The registry keeps its formats in the order of
their names, and under each name the one that was registered last. So the answers depend on the run
only through the last registration under each name, and a path gets the first by name of the formats
that claim it.
-/
namespace GroovyTidy

open Text

/-! ## One registration -/

variable {format : Format} {formats registrations : List Format} {name : String}

theorem find?_insertFormat (added : Format) (formats : List Format) (name : String) :
    (insertFormat added formats).find? (fun format => format.name == name) =
      if added.name = name then some added
      else formats.find? fun format => format.name == name := by
  induction formats with
  | nil => by_cases same : added.name = name <;> simp [insertFormat, same]
  | cons format formats ih =>
    rw [insertFormat]
    by_cases replaced : added.name = format.name
    · rw [if_pos replaced]
      by_cases same : format.name = name <;> simp [replaced, same]
    rw [if_neg replaced]
    by_cases less : added.name < format.name
    · rw [if_pos less]
      by_cases same : added.name = name <;> simp [same]
    · rw [if_neg less]
      by_cases same : format.name = name
      · subst same
        simp [replaced]
      · rw [List.find?_cons_of_neg (by simpa using same),
          List.find?_cons_of_neg (by simpa using same), ih]

/-! ## Formats in the order of their names -/

/-- Each format of an ordered list is the one with its name. -/
theorem Ordered.mem_iff (ordered : Ordered formats) :
    format ∈ formats ↔ formats.find? (fun other => other.name == format.name) = some format := by
  constructor
  · intro member
    obtain ⟨front, back, rfl⟩ := List.append_of_mem member
    refine List.find?_eq_some_iff_append.mpr ⟨beq_self_eq_true _, front, back, rfl,
      fun other early => ?_⟩
    have less := (List.pairwise_append.mp ordered).2.2 other early format List.mem_cons_self
    simpa using fun same : other.name = format.name => String.lt_irrefl _ (same ▸ less)
  · exact List.mem_of_find?_eq_some

/-- The first format that passes a test is the one with the least name. -/
theorem Ordered.find?_eq_some_iff (ordered : Ordered formats) {test : Format → Bool} :
    formats.find? test = some format ↔
      format ∈ formats ∧ test format = true ∧ ∀ other ∈ formats, test other = true →
        ¬ other.name < format.name := by
  constructor
  · intro found
    obtain ⟨passes, front, back, rfl, early⟩ := List.find?_eq_some_iff_append.mp found
    refine ⟨List.mem_append_right _ List.mem_cons_self, passes, fun other member tested less => ?_⟩
    rcases List.mem_append.mp member with before | behind
    · exact absurd tested (by simpa using early other before)
    · rcases List.mem_cons.mp behind with rfl | later
      · exact String.lt_irrefl _ less
      · have greater := (List.pairwise_cons.mp (List.pairwise_append.mp ordered).2.1).1 other later
        exact String.lt_asymm less greater
  · rintro ⟨member, passes, least⟩
    obtain ⟨front, back, rfl⟩ := List.append_of_mem member
    refine List.find?_eq_some_iff_append.mpr ⟨passes, front, back, rfl, fun other early => ?_⟩
    have less := (List.pairwise_append.mp ordered).2.2 other early format List.mem_cons_self
    have unclaimed : test other ≠ true :=
      fun tested => least other (List.mem_append_left _ early) tested less
    simpa using unclaimed

/-- Ordered lists with the same formats are the same. -/
theorem Ordered.eq_of_mem_iff {left right : List Format} (first : Ordered left)
    (second : Ordered right) (same : ∀ format, format ∈ left ↔ format ∈ right) : left = right := by
  have : Std.Antisymm fun left right : Format => left.name < right.name :=
    ⟨fun _ _ less greater => absurd greater (String.lt_asymm less)⟩
  have : Std.Irrefl fun left right : Format => left.name < right.name :=
    ⟨fun _ => String.lt_irrefl _⟩
  exact List.Pairwise.eq_of_mem_iff first second same

/-! ## Runs -/

/-- The registry after a run of registrations. -/
def Registry.ofRun (registrations : List Format) : Registry :=
  registrations.foldl Registry.register .empty

/-- The format that was registered last under a name. -/
def lastNamed? (registrations : List Format) (name : String) : Option Format :=
  (registrations.filter fun format => format.name = name).getLast?

theorem lastNamed?_cons (first : Format) (registrations : List Format) (name : String) :
    lastNamed? (first :: registrations) name =
      (lastNamed? registrations name).or (if first.name = name then some first else none) := by
  rw [lastNamed?, lastNamed?, List.filter_cons]
  by_cases same : first.name = name
  · rw [if_pos (by simpa using same), if_pos same, List.getLast?_cons]
    cases (registrations.filter fun format => format.name = name).getLast? <;> rfl
  · rw [if_neg (by simpa using same), if_neg same, Option.or_none]

theorem lastNamed?_eq_none_iff :
    lastNamed? registrations name = none ↔ ∀ format ∈ registrations, format.name ≠ name := by
  simp [lastNamed?]

theorem name_of_lastNamed? (found : lastNamed? registrations name = some format) :
    format.name = name := by
  simpa using (List.mem_filter.mp (List.mem_of_getLast? found)).2

/-- What a run keeps of a registry: under each name what was registered last or was there before. -/
theorem find?_foldl_register (registrations : List Format) (registry : Registry) (name : String) :
    (registrations.foldl Registry.register registry).formats.find?
        (fun format => format.name == name) =
      (lastNamed? registrations name).or
        (registry.formats.find? fun format => format.name == name) := by
  induction registrations generalizing registry with
  | nil => rfl
  | cons first registrations ih =>
    rw [List.foldl_cons, ih, Registry.register, find?_insertFormat, lastNamed?_cons,
      Option.or_assoc]
    by_cases same : first.name = name <;> simp [same]

namespace Registry

theorem find?_ofRun (registrations : List Format) (name : String) :
    (ofRun registrations).formats.find? (fun format => format.name == name) =
      lastNamed? registrations name := by
  rw [ofRun, find?_foldl_register, empty, List.find?_nil, Option.or_none]

/-- The formats of a registry are those that no later registration has replaced. -/
theorem mem_ofRun : format ∈ (ofRun registrations).formats ↔
    lastNamed? registrations format.name = some format := by
  rw [(ofRun registrations).ordered.mem_iff, find?_ofRun]

theorem get_ofRun (registrations : List Format) (name : String) :
    (ofRun registrations).get name =
      (lastNamed? registrations name).elim (.error (.unknownFormat name)) .ok := by
  rw [get, find?_ofRun]
  cases lastNamed? registrations name <;> rfl

theorem contains_ofRun (registrations : List Format) (name : String) :
    (ofRun registrations).contains name = (lastNamed? registrations name).isSome := by
  rw [contains, ← find?_ofRun, List.isSome_find?]

theorem mem_names_ofRun :
    name ∈ (ofRun registrations).names ↔ ∃ format ∈ registrations, format.name = name := by
  have some : name ∈ (ofRun registrations).names ↔ lastNamed? registrations name ≠ none := by
    rw [names, List.mem_map, Option.ne_none_iff_exists']
    constructor
    · rintro ⟨format, member, rfl⟩
      exact ⟨format, mem_ofRun.mp member⟩
    · rintro ⟨format, found⟩
      obtain rfl := name_of_lastNamed? found
      exact ⟨format, mem_ofRun.mpr found, rfl⟩
  rw [some, ne_eq, lastNamed?_eq_none_iff]
  simp

/-- A run with the same last registration under each name gives the same registry. -/
theorem ofRun_congr {others : List Format}
    (same : ∀ name, lastNamed? registrations name = lastNamed? others name) :
    ofRun registrations = ofRun others := by
  have formats : (ofRun registrations).formats = (ofRun others).formats := by
    refine (ofRun registrations).ordered.eq_of_mem_iff (ofRun others).ordered fun format => ?_
    rw [mem_ofRun, mem_ofRun, same]
  cases first : ofRun registrations
  cases second : ofRun others
  rw [first, second] at formats
  simp only at formats
  subst formats
  rfl

end Registry

/-! ## Paths -/

theorem lowerAscii_eq_toLower (c : Char) : lowerAscii c = c.toLower := by
  have range : (c.val ≥ 'A'.val ∧ c.val ≤ 'Z'.val) ↔ 0x41 ≤ c.toNat ∧ c.toNat ≤ 0x5A := by
    rw [ge_iff_le, UInt32.le_iff_toNat_le, UInt32.le_iff_toNat_le]
    rfl
  rw [lowerAscii, isCapital]
  delta Char.toLower
  by_cases capital : 0x41 ≤ c.toNat ∧ c.toNat ≤ 0x5A
  · rw [if_pos (by simpa using capital), dif_pos (range.mpr capital)]
    have sum : (c.val + ('a'.val - 'A'.val)).toNat = c.toNat + 32 := by
      rw [UInt32.toNat_add]
      exact Nat.mod_eq_of_lt (show c.toNat + 32 < 4294967296 by omega)
    refine .trans ?_ (Char.ofNat_toNat _)
    exact congrArg Char.ofNat sum.symm
  · rw [if_neg (by simpa using capital), dif_neg (fun inside => capital (range.mp inside))]

/-- One of the extensions of a format is a text, up to the case of ASCII letters. -/
def Format.Handles (language : Format) (extension : String) : Prop :=
  ∃ claimed ∈ language.extensions,
    claimed.toList.map Char.toLower = extension.toList.map Char.toLower

theorem Format.claims_iff {extension : String} :
    format.claims extension = true ↔ format.Handles extension := by
  have lower : lowerAscii = Char.toLower := funext lowerAscii_eq_toLower
  simp [claims, Handles, equalIgnoringCase, lower]

namespace Registry

theorem forPath_eq_ok_iff {path : String} :
    (ofRun registrations).forPath path = .ok format ↔
      lastNamed? registrations format.name = some format ∧
      format.Handles ((Path.extension? path).getD "") ∧
        ∀ other, lastNamed? registrations other.name = some other →
          other.Handles ((Path.extension? path).getD "") →
          toBytes format.name ≤ toBytes other.name := by
  have found : (ofRun registrations).forPath path = .ok format ↔
      (ofRun registrations).formats.find?
        (fun format => format.claims ((Path.extension? path).getD "")) = some format := by
    rw [forPath]
    cases (ofRun registrations).formats.find? fun format =>
      format.claims ((Path.extension? path).getD "") <;> simp
  rw [found, (ofRun registrations).ordered.find?_eq_some_iff]
  simp only [mem_ofRun, ← toBytes_lt_iff, Format.claims_iff]
  rfl

theorem forPath_eq_error_iff {path : String} {error : FormatError} :
    (ofRun registrations).forPath path = .error error ↔
      error = .unclaimedExtension ((Path.extension? path).getD "") ∧
        ∀ other, lastNamed? registrations other.name = some other →
          ¬ other.Handles ((Path.extension? path).getD "") := by
  have none : (∀ other, lastNamed? registrations other.name = some other →
      ¬ other.Handles ((Path.extension? path).getD "")) ↔
      (ofRun registrations).formats.find?
        (fun format => format.claims ((Path.extension? path).getD "")) = none := by
    simp only [List.find?_eq_none, mem_ofRun, Format.claims_iff]
  rw [none, forPath]
  cases (ofRun registrations).formats.find? fun format =>
    format.claims ((Path.extension? path).getD "") <;>
    simp [eq_comm]

/-! ## Answers -/

/-- Two registries that give the same answer to every question. -/
structure SameAnswers (left right : Registry) : Prop where
  get : ∀ name, left.get name = right.get name
  contains : ∀ name, left.contains name = right.contains name
  names : left.names = right.names
  forPath : ∀ path, left.forPath path = right.forPath path
  format : ∀ name options source, left.format name options source = right.format name options source

theorem SameAnswers.of_filters {others : List Format}
    (same : ∀ name,
      (others.filter fun format => format.name = name) =
        registrations.filter fun format => format.name = name) :
    (ofRun registrations).SameAnswers (ofRun others) := by
  have equal : ofRun registrations = ofRun others :=
    ofRun_congr fun name => by rw [lastNamed?, lastNamed?, same]
  rw [equal]
  exact ⟨fun _ => rfl, fun _ => rfl, rfl, fun _ => rfl, fun _ _ _ => rfl⟩

/-- Registrations of different names have at most one of each name, so no order of them matters. -/
theorem filter_eq_of_perm {others : List Format}
    (distinct : registrations.Pairwise fun left right => left.name ≠ right.name)
    (reordered : others.Perm registrations) (name : String) :
    (others.filter fun format => format.name = name) =
      registrations.filter fun format => format.name = name := by
  have distinctToo : others.Pairwise fun left right => left.name ≠ right.name :=
    (reordered.pairwise_iff fun differ => Ne.symm differ).mpr distinct
  refine List.Perm.eq_of_pairwise ?_ (distinctToo.filter _) (distinct.filter _) (reordered.filter _)
  intro left right inLeft inRight differ _
  have first : left.name = name := by simpa using (List.mem_filter.mp inLeft).2
  have second : right.name = name := by simpa using (List.mem_filter.mp inRight).2
  exact absurd (first.trans second.symm) differ

/-- The answers of a registry in terms of a run of registrations. -/
structure Answers (registrations : List Format) (registry : Registry) : Prop where
  found : ∀ name format, registry.get name = .ok format ↔
    lastNamed? registrations name = some format
  unknown : ∀ name error, registry.get name = .error error ↔
    error = .unknownFormat name ∧ ∀ format ∈ registrations, format.name ≠ name
  contained : ∀ name, registry.contains name = true ↔ ∃ format, registry.get name = .ok format
  ascending : registry.names.Pairwise fun left right => toBytes left < toBytes right
  listed : ∀ name, name ∈ registry.names ↔ ∃ format ∈ registrations, format.name = name
  /-- Of the formats that are not replaced and handle a path, it gets the one with the least
  name. -/
  handled : ∀ path format, registry.forPath path = .ok format ↔
    lastNamed? registrations format.name = some format ∧
      format.Handles ((Path.extension? path).getD "") ∧
      ∀ other, lastNamed? registrations other.name = some other →
        other.Handles ((Path.extension? path).getD "") →
        toBytes format.name ≤ toBytes other.name
  unhandled : ∀ path error, registry.forPath path = .error error ↔
    error = .unclaimedExtension ((Path.extension? path).getD "") ∧
      ∀ other, lastNamed? registrations other.name = some other →
        ¬ other.Handles ((Path.extension? path).getD "")

theorem answers_ofRun (registrations : List Format) :
    (ofRun registrations).Answers registrations where
  found name format := by
    rw [get_ofRun]
    cases lastNamed? registrations name <;> simp
  unknown name error := by
    rw [get_ofRun, ← lastNamed?_eq_none_iff]
    cases lastNamed? registrations name <;> simp [eq_comm]
  contained name := by
    rw [get_ofRun, contains_ofRun]
    cases lastNamed? registrations name <;> simp
  ascending := by
    rw [names, List.pairwise_map]
    exact (ofRun registrations).ordered.imp toBytes_lt_iff.mpr
  listed _ := mem_names_ofRun
  handled _ _ := forPath_eq_ok_iff
  unhandled _ _ := forPath_eq_error_iff

/-- After any run of registrations the answers of a registry follow from the last registration under
each name. A run with the same registrations in another order, in which those under one name keep
theirs, gives the same answers, and where all names differ so does every order. -/
theorem run_answers (registrations : List Format) :
    (ofRun registrations).Answers registrations ∧
    (∀ others : List Format,
      (∀ name, (others.filter fun format => format.name = name) =
        registrations.filter fun format => format.name = name) →
        (ofRun registrations).SameAnswers (ofRun others)) ∧
    ∀ others : List Format, others.Perm registrations →
      (registrations.Pairwise fun left right => left.name ≠ right.name) →
        (ofRun registrations).SameAnswers (ofRun others) := by
  refine ⟨answers_ofRun registrations, fun others same => .of_filters same, ?_⟩
  intro others reordered distinct
  exact .of_filters (filter_eq_of_perm distinct reordered)

/-- A format is replaced and no longer handles its old extension, and the first of two names gets a
path of both, in whichever order the names were registered. -/
theorem run_answers_of_replaced :
    let early : Format := { Format.groovy with name := "b", extensions := ["tst"] }
    let late : Format := { Format.groovy with name := "b", extensions := ["gy"] }
    let first : Format := { Format.groovy with name := "a", extensions := ["GY"] }
    ((ofRun [early, late, first]).forPath "x.tst" = .error (.unclaimedExtension "tst") ∧
      ∀ other, lastNamed? [early, late, first] other.name = some other → ¬ other.Handles "tst") ∧
    ((ofRun [early, late, first]).forPath "x.gY" = .ok first ∧
      ∀ other, lastNamed? [early, late, first] other.name = some other → other.Handles "gY" →
        toBytes "a" ≤ toBytes other.name) ∧
    (ofRun [early, late, first]).SameAnswers (ofRun [early, first, late]) ∧
    (ofRun [late, first]).SameAnswers (ofRun [first, late]) := by
  intro early late first
  obtain ⟨answers, kept, -⟩ := run_answers [early, late, first]
  have formats : (ofRun [early, late, first]).formats = [first, late] := by
    change insertFormat first (insertFormat late [early]) = _
    rw [insertFormat, if_pos rfl, insertFormat, if_neg (show "a" ≠ "b" by decide),
      if_pos (show "a" < "b" by decide)]
  have extension : (Path.extension? "x.tst").getD "" = "tst" := by decide +kernel
  have replaced : (ofRun [early, late, first]).forPath "x.tst" =
      .error (.unclaimedExtension "tst") := by
    simp [forPath, formats, extension, Format.claims, equalIgnoringCase, lowerAscii, isCapital,
      late, first]
  have least : (ofRun [early, late, first]).forPath "x.gY" = .ok first := by
    have extension : (Path.extension? "x.gY").getD "" = "gY" := by decide +kernel
    simp [forPath, formats, extension, Format.claims, equalIgnoringCase, lowerAscii,
      isCapital, first]
  refine ⟨⟨replaced, extension ▸ ((answers.unhandled _ _).mp replaced).2⟩,
    ⟨least, ((answers.handled _ _).mp least).2.2⟩, ?_, ?_⟩
  · refine kept _ fun name => ?_
    by_cases second : "b" = name
    · subst second
      rfl
    · simp [early, late, first, List.filter_cons, second]
  · exact (run_answers [late, first]).2.2 _ (.swap _ _ _) (by simp [late, first])

end Registry

end GroovyTidy
