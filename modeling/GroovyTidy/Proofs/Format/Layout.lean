import GroovyTidy.Proofs.Format.Written
import GroovyTidy.Proofs.Tree.Grammatical
import GroovyTidy.Proofs.Tree.TwinGrammar

set_option autoImplicit false

/-!
Sources that differ in their layout only: which separators stand where there are any, and how many.
They are refused alike, or they have the same tree up to separators and places and are formatted to
the same text.
-/
namespace GroovyTidy

open Lookahead Grammar Printer

namespace Spelling

/-- Leaves of a run of separators one line end, and nothing before the end of input. -/
def merged : List Spelling → List Spelling
  | [] => []
  | first :: rest =>
    if first.separates then
      if rest.head?.all fun next => next.separates || next.1 == .endOfInput then merged rest
      else lineEnd :: merged rest
    else first :: merged rest

/-- The spellings without the separators at the start and right before the end of input, and with
one line end for every other run of separators. -/
def collapsed (spellings : List Spelling) : List Spelling :=
  merged (spellings.dropWhile separates)

example :
    collapsed [(.newline, "\n"), (.identifier, "a"), (.semicolon, ";"), (.newline, "\n"),
      (.identifier, "b"), (.newline, "\n"), (.semicolon, ";"), (.endOfInput, "")] =
    [(.identifier, "a"), (.newline, "\n"), (.identifier, "b"), (.endOfInput, "")] := by
  decide

theorem merged_filled {first : Spelling} (filled : first.separates = false) (rest : List Spelling) :
    merged (first :: rest) = first :: merged rest := by
  rw [merged, filled]
  rfl

/-- Nothing is left of separators before the end of input. -/
theorem merged_ended {gap : List Spelling} (all : ∀ spelling ∈ gap, spelling.separates = true)
    {last : Spelling} (ended : last.1 = .endOfInput) : merged (gap ++ [last]) = [last] := by
  have ends : isBoundary last.1 = true := by
    rw [ended]
    rfl
  induction gap with
  | nil =>
    have filled : last.separates = false := by
      rw [separates, ended]
      rfl
    exact merged_filled filled []
  | cons first gap ih =>
    obtain ⟨here, later⟩ := List.forall_mem_cons.mp all
    rw [List.cons_append, merged, if_pos here]
    refine Eq.trans ?_ (ih later)
    cases gap with
    | nil => exact if_pos ends
    | cons next gap => exact if_pos (Bool.or_eq_true_iff.mpr (.inl (later next List.mem_cons_self)))

/-- One line end is left of separators between other spellings. -/
theorem merged_apart {gap : List Spelling} (some : gap ≠ [])
    (all : ∀ spelling ∈ gap, spelling.separates = true) {first : Spelling}
    (inside : isBoundary first.1 = false) (rest : List Spelling) :
    merged (gap ++ first :: rest) = lineEnd :: first :: merged rest := by
  have filled : first.separates = false := (Bool.or_eq_false_iff.mp inside).1
  induction gap with
  | nil => exact absurd rfl some
  | cons mark gap ih =>
    obtain ⟨here, later⟩ := List.forall_mem_cons.mp all
    rw [List.cons_append, merged, if_pos here]
    cases gap with
    | nil =>
      rw [List.nil_append, merged_filled filled]
      exact if_neg (Bool.eq_false_iff.mp inside)
    | cons next gap =>
      rw [← ih (List.cons_ne_nil _ _) later]
      exact if_pos (Bool.or_eq_true_iff.mpr (.inl (later next List.mem_cons_self)))

end Spelling

/-- Tokens without an end of input are spelled as a list, with a line end for every run of
separators before another token, and with an end of input at the end. -/
inductive Laid : List Token → List Spelling → Prop where
  | spent {tokens : List Token} (all : ∀ token ∈ tokens, token.kind.isSeparator = true) :
      Laid tokens [(.endOfInput, "")]
  | here {first : Token} {tokens : List Token} {spellings : List Spelling}
      (inside : isBoundary first.kind = false) (rest : Laid tokens spellings) :
      Laid (first :: tokens) (first.spelling :: spellings)
  | apart {gap : List Token} {first : Token} {tokens : List Token} {spellings : List Spelling}
      (some : gap ≠ []) (all : ∀ token ∈ gap, token.kind.isSeparator = true)
      (inside : isBoundary first.kind = false) (rest : Laid tokens spellings) :
      Laid (gap ++ first :: tokens) (Spelling.lineEnd :: first.spelling :: spellings)

namespace Laid

theorem separates_of_mem_map {gap : List Token}
    (all : ∀ token ∈ gap, token.kind.isSeparator = true) :
    ∀ spelling ∈ gap.map Token.spelling, spelling.separates = true := by
  intro spelling member
  obtain ⟨token, inside, rfl⟩ := List.mem_map.mp member
  exact all token inside

theorem merged (tokens : List Token) (inside : ∀ token ∈ tokens, token.kind ≠ .endOfInput) :
    Laid tokens (Spelling.merged (tokens.map Token.spelling ++ [(.endOfInput, "")])) := by
  induction lengthDef : tokens.length using Nat.strongRecOn generalizing tokens with
  | ind length ih =>
    obtain ⟨gap, rest, rfl, all, stops⟩ := gap_split tokens
    have marks := separates_of_mem_map all
    cases rest with
    | nil =>
      rw [List.append_nil, Spelling.merged_ended marks rfl]
      exact .spent all
    | cons first rest =>
      have filled : first.spelling.separates = false := stops
      have going : isBoundary first.kind = false := by
        rw [isBoundary, show first.kind.isSeparator = false from stops, Bool.false_or]
        exact beq_eq_false_iff_ne.mpr (inside first (by simp))
      have shorter : rest.length < length := by
        rw [← lengthDef, List.length_append, List.length_cons]
        omega
      have later :=
        ih rest.length shorter rest (fun token member => inside token (by simp [member])) rfl
      rw [List.map_append, List.map_cons, List.append_assoc, List.cons_append]
      by_cases none : gap = []
      · subst none
        rw [List.map_nil, List.nil_append, List.nil_append, Spelling.merged_filled filled]
        exact .here going later
      · rw [Spelling.merged_apart (by simpa using none) marks going]
        exact .apart none all going later

/-- Neither an end of input nor a line end is a spelling inside a statement. -/
theorem spelling_ne {first : Token} (inside : isBoundary first.kind = false) {spelling : Spelling}
    (ends : isBoundary spelling.1 = true) : first.spelling ≠ spelling := by
  intro same
  rw [← same, show first.spelling.1 = first.kind from rfl, inside] at ends
  cases ends

/-- Tokens that are spelled as the same list are alike. -/
theorem alike {left right : List Token} {spellings : List Spelling} (laid : Laid left spellings)
    (other : Laid right spellings) : Alike left right := by
  induction laid generalizing right with
  | spent all =>
    generalize shape : [((.endOfInput, "") : Spelling)] = spellings at other
    cases other with
    | spent otherAll => exact .spent all otherAll
    | here otherInside => exact absurd (List.cons.inj shape).1.symm (spelling_ne otherInside rfl)
    | apart => cases shape
  | @here first tokens spellings inside rest ih =>
    generalize shape : first.spelling :: spellings = whole at other
    cases other with
    | spent => exact absurd (List.cons.inj shape).1 (spelling_ne inside rfl)
    | here otherInside otherRest =>
      obtain ⟨spelled, rfl⟩ := List.cons.inj shape
      exact .same spelled inside (ih otherRest)
    | apart => exact absurd (List.cons.inj shape).1 (spelling_ne inside rfl)
  | @apart gap first tokens spellings some all inside rest ih =>
    generalize shape : Spelling.lineEnd :: first.spelling :: spellings = whole at other
    cases other with
    | spent => cases shape
    | here otherInside => exact absurd (List.cons.inj shape).1.symm (spelling_ne otherInside rfl)
    | apart otherSome otherAll otherInside otherRest =>
      obtain ⟨spelled, rfl⟩ := List.cons.inj (List.cons.inj shape).2
      exact .apart some all otherSome otherAll spelled inside (ih otherRest)

end Laid

/-- Bodies of sources that collapse to the same list are settled after the separators at their
start. -/
theorem settled_of_collapsed {body otherBody : List Token}
    (inside : ∀ token ∈ body, token.kind ≠ .endOfInput)
    (otherInside : ∀ token ∈ otherBody, token.kind ≠ .endOfInput)
    (same : Spelling.collapsed (body.map Token.spelling ++ [(.endOfInput, "")]) =
      Spelling.collapsed (otherBody.map Token.spelling ++ [(.endOfInput, "")])) :
    ∃ gap rest otherGap otherRest, body = gap ++ rest ∧ otherBody = otherGap ++ otherRest ∧
      (∀ token ∈ gap, token.kind.isSeparator = true) ∧
      (∀ token ∈ otherGap, token.kind.isSeparator = true) ∧
      Alike.Settled rest otherRest := by
  obtain ⟨gap, rest, rfl, all, stops⟩ := gap_split body
  obtain ⟨otherGap, otherRest, rfl, otherAll, otherStops⟩ := gap_split otherBody
  have collapsed : ∀ {gap rest : List Token}, (∀ token ∈ gap, token.kind.isSeparator = true) →
      starts TokenKind.isSeparator rest = false →
      Spelling.collapsed ((gap ++ rest).map Token.spelling ++ [(.endOfInput, "")]) =
        Spelling.merged (rest.map Token.spelling ++ [(.endOfInput, "")]) := by
    intro gap rest all stops
    rw [Spelling.collapsed, List.map_append, List.append_assoc,
      List.dropWhile_append_of_pos (Laid.separates_of_mem_map all)]
    cases rest with
    | nil => rfl
    | cons first rest =>
      have filled : first.spelling.separates = false := stops
      rw [List.map_cons, List.cons_append, List.dropWhile_cons, filled]
      rfl
  rw [collapsed all stops, collapsed otherAll otherStops] at same
  have laid := Laid.merged rest fun token member => inside token (List.mem_append_right _ member)
  have otherLaid :=
    Laid.merged otherRest fun token member => otherInside token (List.mem_append_right _ member)
  rw [← same] at otherLaid
  exact ⟨gap, rest, otherGap, otherRest, rfl, rfl, all, otherAll,
    (laid.alike otherLaid).settled_of_stops stops otherStops⟩

/-! ## Trees and texts -/

theorem stripped_headD (forest : List Tree) :
    ((forest.filterMap Tree.node?).headD ⟨.compilationUnit, []⟩).stripped =
      ((Tree.strippedForest forest).filterMap Tree.node?).headD ⟨.compilationUnit, []⟩ := by
  rw [Node.filterMap_strippedForest]
  cases forest.filterMap Tree.node? with
  | nil => rfl
  | cons unit others => rfl

/-- Lists of tokens that are laid out differently are both refused, or they have the same tree up to
separators and places. -/
theorem parseTokens_agrees {body otherBody : List Token} {last otherLast : Token}
    (ended : last.spelling = (.endOfInput, ""))
    (otherEnded : otherLast.spelling = (.endOfInput, ""))
    (inside : ∀ token ∈ body, token.kind ≠ .endOfInput)
    (otherInside : ∀ token ∈ otherBody, token.kind ≠ .endOfInput)
    (same : Spelling.collapsed (body.map Token.spelling ++ [(.endOfInput, "")]) =
      Spelling.collapsed (otherBody.map Token.spelling ++ [(.endOfInput, "")])) :
    (∃ error otherError, parseTokens (body ++ [last]) = .error error ∧
        parseTokens (otherBody ++ [otherLast]) = .error otherError) ∨
      ∃ unit otherUnit, parseTokens (body ++ [last]) = .ok unit ∧
        parseTokens (otherBody ++ [otherLast]) = .ok otherUnit ∧
        unit.stripped = otherUnit.stripped := by
  have start := Reading.ofTokens_ended body (congrArg Prod.fst ended)
  have otherStart := Reading.ofTokens_ended otherBody (congrArg Prod.fst otherEnded)
  obtain ⟨gap, rest, otherGap, otherRest, split, otherSplit, all, otherAll, settled⟩ :=
    settled_of_collapsed inside otherInside same
  have agree :=
    compilationUnit_agrees (start.1.trans split) (otherStart.1.trans otherSplit) all
      otherAll settled (by rw [start.2, otherStart.2, ended, otherEnded])
  unfold parseTokens readTokens
  generalize compilationUnit (.ofTokens (body ++ [last])) = result at agree ⊢
  generalize compilationUnit (.ofTokens (otherBody ++ [otherLast])) = otherResult at agree ⊢
  cases agree with
  | failed => exact .inl ⟨_, _, rfl, rfl⟩
  | passed forests =>
    refine .inr ⟨_, _, rfl, rfl, ?_⟩
    rw [stripped_headD, stripped_headD, forests]

theorem format_of_error {options : LayoutOptions} {source : String} {error : SyntaxError}
    (refused : parse source = .error error) :
    Format.groovy.format options source = .error (.malformed error) := by
  simp [Format.format, Format.groovy, refused, Except.mapError, bind, Except.bind]

/-- Sources whose tokens collapse to the same list of spellings are both refused, or they have the
same tree up to separators and places, and are formatted to the same text under all options. -/
theorem layout_is_irrelevant {source other : String} {tokens otherTokens : List Token}
    (read : tokenize source = .ok tokens) (otherRead : tokenize other = .ok otherTokens)
    (same : Spelling.collapsed (tokens.map Token.spelling) =
      Spelling.collapsed (otherTokens.map Token.spelling)) :
    ((∃ error otherError, parse source = .error error ∧ parse other = .error otherError) ∧
        ∀ options, ∃ error otherError, Format.groovy.format options source = .error error ∧
          Format.groovy.format options other = .error otherError) ∨
      ((∃ unit otherUnit, parse source = .ok unit ∧ parse other = .ok otherUnit ∧
          unit.stripped = otherUnit.stripped) ∧
        ∀ options, ∃ out, Format.groovy.format options source = .ok out ∧
          Format.groovy.format options other = .ok out) := by
  obtain ⟨body, last, rfl, ended, legible, -⟩ := tokensFrom_legible read
  obtain ⟨otherBody, otherLast, rfl, otherEnded, otherLegible, -⟩ := tokensFrom_legible otherRead
  have inside : ∀ token ∈ body, token.kind ≠ .endOfInput := fun token member =>
    (legible token member).kind_ne_endOfInput
  have otherInside : ∀ token ∈ otherBody, token.kind ≠ .endOfInput := fun token member =>
    (otherLegible token member).kind_ne_endOfInput
  rw [List.map_append, List.map_append, List.map_singleton, List.map_singleton, ended, otherEnded]
    at same
  have parsed := parse_of_tokenize read
  have otherParsed := parse_of_tokenize otherRead
  rcases parseTokens_agrees ended otherEnded inside otherInside same with
    ⟨error, otherError, refused, otherRefused⟩ | ⟨unit, otherUnit, given, otherGiven, stripped⟩
  · rw [← parsed] at refused
    rw [← otherParsed] at otherRefused
    exact .inl ⟨⟨error, otherError, refused, otherRefused⟩,
      fun options => ⟨_, _, format_of_error refused, format_of_error otherRefused⟩⟩
  · have printed : print unit = print otherUnit := by
      rw [← print_stripped (parseTokens_conforms given).2,
        ← print_stripped (parseTokens_conforms otherGiven).2, stripped]
    rw [← parsed] at given
    rw [← otherParsed] at otherGiven
    refine .inr ⟨⟨unit, otherUnit, given, otherGiven, stripped⟩,
      fun options => ⟨_, format_of_parse given, ?_⟩⟩
    rw [printed]
    exact format_of_parse otherGiven

/-- Separators at the start and at the end, blank lines, and semicolons for line ends, also inside a
closure. -/
theorem layout_is_irrelevant_of_script :
    ∃ tokens otherTokens,
      tokenize ";
package p ;
run 'x', { a -> b
 c } // end

print y
;" = .ok tokens ∧
      tokenize "package p
run 'x', { a -> b; c }; print y" = .ok otherTokens ∧
      Spelling.collapsed (tokens.map Token.spelling) =
        Spelling.collapsed (otherTokens.map Token.spelling) ∧
      (∃ unit otherUnit,
        parse ";
package p ;
run 'x', { a -> b
 c } // end

print y
;" = .ok unit ∧
        parse "package p
run 'x', { a -> b; c }; print y" = .ok otherUnit ∧
        unit.stripped = otherUnit.stripped) ∧
      ∀ options, ∃ out,
        Format.groovy.format options ";
package p ;
run 'x', { a -> b
 c } // end

print y
;" = .ok out ∧
        Format.groovy.format options "package p
run 'x', { a -> b; c }; print y" = .ok out := by
  have same : (tokenize ";\npackage p ;\nrun 'x', \x7b a -> b\n c \x7d // end\n\nprint y\n;").map
        (fun tokens => Spelling.collapsed (tokens.map Token.spelling)) =
      (tokenize "package p\nrun 'x', \x7b a -> b; c \x7d; print y").map
        (fun tokens => Spelling.collapsed (tokens.map Token.spelling)) := by
    decide +kernel
  have accepted : (parse "package p\nrun 'x', \x7b a -> b; c \x7d; print y").isOk = true := by
    decide +kernel
  cases otherRead : tokenize "package p\nrun 'x', \x7b a -> b; c \x7d; print y" with
  | error _ =>
    rw [parse, otherRead] at accepted
    cases accepted
  | ok otherTokens =>
    cases read : tokenize ";\npackage p ;\nrun 'x', \x7b a -> b\n c \x7d // end\n\nprint y\n;" with
    | error _ =>
      rw [read, otherRead] at same
      cases same
    | ok tokens =>
      rw [read, otherRead] at same
      have collapsed : Spelling.collapsed (tokens.map Token.spelling) =
          Spelling.collapsed (otherTokens.map Token.spelling) := Except.ok.inj same
      refine ⟨tokens, otherTokens, rfl, rfl, collapsed, ?_⟩
      rcases layout_is_irrelevant read otherRead collapsed with ⟨⟨_, _, -, refused⟩, -⟩ | known
      · rw [refused] at accepted
        cases accepted
      · exact known

end GroovyTidy
