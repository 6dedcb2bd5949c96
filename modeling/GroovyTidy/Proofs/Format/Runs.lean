import GroovyTidy.Proofs.Token.Spelling

set_option autoImplicit false

/-!
Runs of tokens between separators. Formatting a source keeps its runs and puts one line end after
each of them.
-/
namespace GroovyTidy

namespace Spelling

def separates (spelling : Spelling) : Bool :=
  spelling.1.isSeparator

/-- The longest runs without separators, from left to right. -/
def runs (spellings : List Spelling) : List (List Spelling) :=
  (spellings.splitOnP separates).filter fun run => !run.isEmpty

/-- The spellings without the separators at the start, with one line end for every run of separators
between others, and with one line end before the end of input. -/
def normalized (spellings : List Spelling) : List Spelling :=
  [(.newline, "\n")].intercalate
    (runs (spellings.filter fun spelling => spelling.1 != .endOfInput)) ++
    [(.newline, "\n"), (.endOfInput, "")]

example : normalized [(.semicolon, ";"), (.identifier, "a"), (.newline, "\r"), (.semicolon, ";"),
    (.identifier, "b"), (.endOfInput, "")] =
    [(.identifier, "a"), (.newline, "\n"), (.identifier, "b"), (.newline, "\n"),
      (.endOfInput, "")] := by
  decide

theorem runs_separator {first : Spelling} (separates : first.separates = true)
    (rest : List Spelling) : runs (first :: rest) = runs rest := by
  simp [runs, List.splitOnP_cons_eq_if_modifyHead, separates]

/-- A run that is followed by a separator or by nothing is the first one. -/
theorem runs_append {run rest : List Spelling} (filled : run ≠ [])
    (inside : ∀ spelling ∈ run, spelling.separates = false)
    (apart : ∀ spelling ∈ rest.head?, spelling.separates = true) :
    runs (run ++ rest) = run :: runs rest := by
  have kept : (!run.isEmpty) = true := by simpa using filled
  cases rest with
  | nil => simp [runs, List.splitOnP_eq_singleton inside, kept]
  | cons first rest =>
    have ends := apart first rfl
    rw [runs_separator ends, runs, List.splitOnP_append_cons_of_forall_mem inside first ends,
      List.filter_cons, if_pos kept, runs]

end Spelling

/-- The tokens consist of the segments, with separators before, between and after them. -/
inductive Segments : List (List Token) → List Token → Prop where
  | nil : Segments [] []
  | separator {segments : List (List Token)} {tokens : List Token} {token : Token}
      (separates : token.kind.isSeparator = true) (rest : Segments segments tokens) :
      Segments segments (token :: tokens)
  | segment {segments : List (List Token)} {tokens : List Token} (first : List Token)
      (apart : ∀ token ∈ tokens.head?, token.kind.isSeparator = true)
      (rest : Segments segments tokens) :
      Segments (first :: segments) (first ++ tokens)

namespace Segments

/-- Segments without separators in them are the runs of the whole. -/
theorem runs_eq {segments : List (List Token)} {tokens : List Token}
    (laid : Segments segments tokens)
    (filled : ∀ segment ∈ segments, segment ≠ [] ∧
      ∀ token ∈ segment, token.kind.isSeparator = false) :
    Spelling.runs (tokens.map Token.spelling) =
      segments.map fun segment => segment.map Token.spelling := by
  induction laid with
  | nil => rfl
  | @separator segments tokens token separates rest ih =>
    have ends : token.spelling.separates = true := separates
    rw [List.map_cons, Spelling.runs_separator ends, ih filled]
  | @segment segments tokens first apart rest ih =>
    obtain ⟨here, later⟩ := List.forall_mem_cons.mp filled
    rw [List.map_append, List.map_cons, ← ih later]
    refine Spelling.runs_append (by simpa using here.1) ?_ ?_
    · intro spelling member
      obtain ⟨token, inside, rfl⟩ := List.mem_map.mp member
      exact here.2 token inside
    · intro spelling first
      rw [List.head?_map] at first
      obtain ⟨token, found, rfl⟩ := Option.map_eq_some_iff.mp first
      exact apart token found

theorem of_separators {separators : List Token}
    (all : ∀ token ∈ separators, token.kind.isSeparator = true) : Segments [] separators := by
  induction separators with
  | nil => exact .nil
  | cons first rest ih =>
    obtain ⟨here, later⟩ := List.forall_mem_cons.mp all
    exact .separator here (ih later)

theorem separators_append {separators : List Token}
    (all : ∀ token ∈ separators, token.kind.isSeparator = true) {segments : List (List Token)}
    {tokens : List Token} (laid : Segments segments tokens) :
    Segments segments (separators ++ tokens) := by
  induction separators with
  | nil => exact laid
  | cons first rest ih =>
    obtain ⟨here, later⟩ := List.forall_mem_cons.mp all
    exact .separator here (ih later)

end Segments

/-- Segments with separators between and after them, but none before them. -/
inductive Segments.Trimmed : List (List Token) → List Token → Prop where
  | nil : Trimmed [] []
  | segment {segments : List (List Token)} {tokens : List Token} (first : List Token)
      (apart : ∀ token ∈ tokens.head?, token.kind.isSeparator = true)
      (rest : Segments segments tokens) :
      Trimmed (first :: segments) (first ++ tokens)

/-- The separators at the start can be taken off. -/
theorem Segments.trimmed {segments : List (List Token)} {tokens : List Token}
    (laid : Segments segments tokens) :
    ∃ separators rest, tokens = separators ++ rest ∧
      (∀ token ∈ separators, token.kind.isSeparator = true) ∧
      Trimmed segments rest := by
  induction laid with
  | nil => exact ⟨[], [], rfl, by simp, .nil⟩
  | separator separates rest ih =>
    obtain ⟨separators, others, rfl, all, trimmed⟩ := ih
    exact ⟨_ :: separators, others, rfl, List.forall_mem_cons.mpr ⟨separates, all⟩, trimmed⟩
  | segment first apart rest ih => exact ⟨[], _, rfl, by simp, .segment first apart rest⟩

end GroovyTidy
