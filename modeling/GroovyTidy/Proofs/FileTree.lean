import GroovyTidy.FileTree

set_option autoImplicit false

/-!
Writing to a file changes the contents of this file and nothing else: every other file and every
directory stay where they are, and paths lead where they led before.
-/
namespace GroovyTidy

theorem lookup_cons_eq_ite {α : Type} (key name : String) (value : α)
    (entries : List (String × α)) :
    ((key, value) :: entries).lookup name = if name = key then some value
      else entries.lookup name := by
  rw [List.lookup_cons]
  by_cases same : name = key
  · rw [if_pos same, beq_iff_eq.mpr same]
  · rw [if_neg same, beq_eq_false_iff_ne.mpr same]

namespace Entry

/-- The contents of an entry that is a file. -/
def contents? : Entry → Option (List UInt8)
  | .file bytes => some bytes
  | .directory _ => none

theorem lookup_put (name other : String) (entry : Entry) (entries : List (String × Entry)) :
    (put name entry entries).lookup other = if other = name then some entry
      else entries.lookup other := by
  induction entries with
  | nil => rw [put, lookup_cons_eq_ite]
  | cons first entries ih =>
    obtain ⟨key, old⟩ := first
    rw [put, lookup_cons_eq_ite]
    by_cases same : key = name
    · rw [if_pos same, lookup_cons_eq_ite, same]
      by_cases here : other = name
      · rw [if_pos here, if_pos here]
      · rw [if_neg here, if_neg here, if_neg here]
    · rw [if_neg same, lookup_cons_eq_ite, ih]
      by_cases here : other = key
      · rw [if_pos here, if_neg (by rw [here]; exact same), if_pos here]
      · rw [if_neg here, if_neg here]

theorem descend_cons (entries : List (String × Entry)) (name : String) (names : List String) :
    (directory entries).descend (name :: names) =
      (entries.lookup name).bind fun entry => entry.descend names :=
  rfl

theorem descend_put (name other : String) (names : List String) (entry : Entry)
    (entries : List (String × Entry)) :
    (directory (put name entry entries)).descend (other :: names) =
      if other = name then entry.descend names
      else (directory entries).descend (other :: names) := by
  rw [descend_cons, lookup_put, descend_cons]
  split <;> rfl

/-- What a path of names leads to: nothing, a directory, or a file with its contents. -/
def look (entry : Entry) (names : List String) : Option (Option (List UInt8)) :=
  (entry.descend names).map contents?

/-- A new file in place of another is what its path leads to, and all other paths lead to what they
led to. -/
theorem look_putFile {names : List String} (bytes : List UInt8) {old : List UInt8}
    {entries : List (String × Entry)} (found : (directory entries).look names = some (some old))
    (other : List String) :
    (directory (putFile bytes names entries)).look other =
      if other = names then some (some bytes) else (directory entries).look other := by
  induction names generalizing entries other with
  | nil => cases found
  | cons name names ih =>
    have here : ∃ entry, entries.lookup name = some entry ∧ entry.look names = some (some old) := by
      rw [look, descend_cons] at found
      cases looked : entries.lookup name with
      | none =>
        rw [looked] at found
        cases found
      | some entry =>
        rw [looked] at found
        exact ⟨entry, rfl, found⟩
    obtain ⟨entry, looked, inner⟩ := here
    cases other with
    | nil => rfl
    | cons next rest =>
      by_cases same : next = name
      · subst same
        have before : (directory entries).look (next :: rest) = entry.look rest := by
          rw [look, descend_cons, looked]
          rfl
        cases names with
        | nil =>
          rw [putFile, look, descend_put, if_pos rfl, before]
          cases entry with
          | file contents =>
            cases rest with
            | nil => simp [descend, contents?]
            | cons deeper rest => simp [look, descend]
          | directory below => cases inner
        | cons deeper names =>
          cases entry with
          | file contents => cases inner
          | directory below =>
            rw [putFile, look, descend_put, if_pos rfl, before, looked]
            · have after := ih inner rest
              rw [look] at after
              rw [inside, after]
              simp only [List.cons.injEq, true_and]
            · exact fun empty => List.cons_ne_nil _ _ empty
      · have kept : (directory (putFile bytes (name :: names) entries)).look (next :: rest) =
            (directory entries).look (next :: rest) := by
          cases names with
          | nil => rw [putFile, look, descend_put, if_neg same, look]
          | cons deeper names =>
            rw [putFile, look, descend_put, if_neg same, look]
            exact fun empty => List.cons_ne_nil _ _ empty
        rw [kept, if_neg]
        intro equal
        exact same (List.cons.inj equal).1

end Entry

namespace FileTree

/-- What a path of names leads to: nothing, a directory, or a file with its contents. -/
def look (tree : FileTree) (names : List String) : Option (Option (List UInt8)) :=
  (Entry.directory tree.entries).look names

theorem look_eq (tree : FileTree) (names : List String) :
    tree.look names = (tree.at? names).map Entry.contents? :=
  rfl

/-- Following a path depends only on where there are directories and where there is anything at
all. -/
theorem follow_cons (tree : FileTree) (names : List String) (part : List Char)
    (rest : List (List Char)) :
    tree.follow names (part :: rest) =
      if tree.look names = some none then
        if part.isEmpty ∨ part = ['.'] then tree.follow names rest
        else if part = ['.', '.'] then if names.isEmpty then .error .missing
        else tree.follow names.dropLast rest
        else if (tree.look (names ++ [String.ofList part])).isSome then
          tree.follow (names ++ [String.ofList part]) rest
        else .error .missing
      else .error .notDirectory := by
  rw [follow, look_eq, look_eq, Option.isSome_map]
  cases tree.at? names with
  | none => rfl
  | some entry =>
    cases entry with
    | file bytes => rfl
    | directory entries => rfl

/-- Both trees have files and directories at the same places. -/
def SameShape (left right : FileTree) : Prop :=
  ∀ names, (left.look names).map Option.isSome = (right.look names).map Option.isSome

section Shape

variable {left right : FileTree} (same : SameShape left right)
include same

theorem SameShape.directory_iff (names : List String) :
    left.look names = some none ↔ right.look names = some none := by
  have shape := same names
  cases leftFound : left.look names with
  | none =>
    cases rightFound : right.look names with
    | none => rfl
    | some entry => simp [leftFound, rightFound] at shape
  | some entry =>
    cases rightFound : right.look names with
    | none => simp [leftFound, rightFound] at shape
    | some other =>
      rw [leftFound, rightFound, Option.map_some, Option.map_some, Option.some.injEq] at shape
      cases entry <;> cases other <;> simp_all

theorem SameShape.isSome_eq (names : List String) :
    (left.look names).isSome = (right.look names).isSome := by
  have shape := congrArg Option.isSome (same names)
  rwa [Option.isSome_map, Option.isSome_map] at shape

theorem SameShape.follow_eq (names : List String) (parts : List (List Char)) :
    left.follow names parts = right.follow names parts := by
  induction parts generalizing names with
  | nil => rfl
  | cons part parts ih =>
    rw [follow_cons, follow_cons, same.isSome_eq, ih, ih, ih]
    simp only [same.directory_iff]

theorem SameShape.locate_eq (path : String) : left.locate path = right.locate path := by
  rw [locate, locate, same.follow_eq]

end Shape

variable {tree : FileTree} {path : String}

theorem read_of_locate {names : List String} (located : tree.locate path = .ok names) :
    tree.read path =
      match tree.look names with
      | some (some bytes) => .ok bytes
      | some none => .error .isDirectory
      | none => .error .missing := by
  rw [read, located, look_eq]
  dsimp only [bind, Except.bind]
  cases tree.at? names with
  | none => rfl
  | some entry => cases entry <;> rfl

theorem read_of_not_located {failure : PathFailure} (lost : tree.locate path = .error failure) :
    tree.read path = .error failure := by
  rw [read, lost]
  rfl

theorem read_eq_ok {bytes : List UInt8} (success : tree.read path = .ok bytes) :
    ∃ names, tree.locate path = .ok names ∧ tree.look names = some (some bytes) := by
  cases located : tree.locate path with
  | error failure =>
    rw [read_of_not_located located] at success
    cases success
  | ok names =>
    rw [read_of_locate located] at success
    refine ⟨names, rfl, ?_⟩
    split at success
    · rename_i found
      cases success
      exact found
    · cases success
    · cases success

/-- A file that can be read can be written to, and only its own contents change. -/
theorem write_of_read {old : List UInt8} (readable : tree.read path = .ok old)
    (bytes : List UInt8) :
    ∃ names after, tree.locate path = .ok names ∧ tree.look names = some (some old) ∧
      tree.write path bytes = .ok after ∧
      ∀ other, after.look other = if other = names then some (some bytes) else tree.look other := by
  obtain ⟨names, located, found⟩ := read_eq_ok readable
  refine ⟨names, ⟨Entry.putFile bytes names tree.entries⟩, located, found, ?_,
    Entry.look_putFile bytes found⟩
  rw [look_eq, Option.map_eq_some_iff] at found
  obtain ⟨entry, reached, contents⟩ := found
  cases entry with
  | file held =>
    rw [write, located]
    dsimp only [bind, Except.bind]
    rw [reached]
    rfl
  | directory entries => cases contents

theorem sameShape_of_look {after : FileTree} {names : List String} {old new : List UInt8}
    (found : tree.look names = some (some old))
    (changed : ∀ other,
      after.look other = if other = names then some (some new) else tree.look other) :
    SameShape after tree := by
  intro other
  rw [changed]
  by_cases here : other = names
  · rw [if_pos here, here, found]
    rfl
  · rw [if_neg here]

end FileTree

end GroovyTidy
