import GroovyTidy.Proofs.Tree.Lockstep

set_option autoImplicit false

/-!
Lists of tokens that are alike. They have the same spellings, except that where separators stand in
one of them any other separators may stand in the other one. Looking ahead finds the same in both,
although it counts tokens and may look past separators.
-/
namespace GroovyTidy

open Lookahead Grammar

/-- Lists of tokens with the same spellings up to what separators stand where there are any.
Separators at the end count for nothing. -/
inductive Alike : List Token → List Token → Prop where
  | spent {left right : List Token} (leftAll : ∀ token ∈ left, token.kind.isSeparator = true)
      (rightAll : ∀ token ∈ right, token.kind.isSeparator = true) : Alike left right
  | same {first second : Token} {left right : List Token}
      (spelled : first.spelling = second.spelling) (inside : isBoundary first.kind = false)
      (rest : Alike left right) : Alike (first :: left) (second :: right)
  | apart {first second : Token} {leftGap rightGap left right : List Token}
      (leftSome : leftGap ≠ [])
      (leftAll : ∀ token ∈ leftGap, token.kind.isSeparator = true) (rightSome : rightGap ≠ [])
      (rightAll : ∀ token ∈ rightGap, token.kind.isSeparator = true)
      (spelled : first.spelling = second.spelling)
      (inside : isBoundary first.kind = false) (rest : Alike left right) :
      Alike (leftGap ++ first :: left) (rightGap ++ second :: right)

theorem isBoundary_of_separators {tokens : List Token}
    (all : ∀ token ∈ tokens, token.kind.isSeparator = true) :
    isBoundary (kindAt tokens 0) = true := by
  cases tokens with
  | nil => rfl
  | cons first rest =>
    have separates : first.kind.isSeparator = true := all first List.mem_cons_self
    show (first.kind.isSeparator || first.kind == .endOfInput) = true
    rw [separates, Bool.true_or]

/-! ## The next token -/

/-- Alike lists go on alike. -/
instance : Lockstep Alike where
  front := by
    intro left right alike
    cases alike with
    | spent leftAll rightAll =>
      exact .ended (isBoundary_of_separators leftAll) (isBoundary_of_separators rightAll)
    | same spelled inside rest => exact .going spelled inside rest
    | apart leftSome leftAll rightSome rightAll =>
      obtain ⟨first, leftGap, rfl⟩ := List.exists_cons_of_ne_nil leftSome
      obtain ⟨second, rightGap, rfl⟩ := List.exists_cons_of_ne_nil rightSome
      have leftEnds := isBoundary_of_separators leftAll
      have rightEnds := isBoundary_of_separators rightAll
      exact .ended leftEnds rightEnds

/-- Both lists are empty, or they start with a token of the same spelling inside a statement. -/
inductive Alike.Settled : List Token → List Token → Prop where
  | ended : Settled [] []
  | going {first second : Token} {left right : List Token}
      (spelled : first.spelling = second.spelling) (inside : isBoundary first.kind = false)
      (rest : Alike left right) : Settled (first :: left) (second :: right)

namespace Alike

variable {left right : List Token}

theorem Settled.alike (settled : Settled left right) : Alike left right := by
  cases settled with
  | ended => exact .spent (List.forall_mem_nil _) (List.forall_mem_nil _)
  | going spelled inside rest => exact .same spelled inside rest

theorem Settled.startsWith_eq (settled : Settled left right) (kind : TokenKind) :
    startsWith kind left = startsWith kind right := by
  cases settled with
  | ended => rfl
  | going spelled => exact congrArg (fun spelling : Spelling => spelling.1 == kind) spelled

/-- What is alike and does not start with separators is settled. -/
theorem settled_of_stops (alike : Alike left right)
    (stops : starts TokenKind.isSeparator left = false)
    (otherStops : starts TokenKind.isSeparator right = false) : Settled left right := by
  have empty : ∀ {gap rest : List Token}, (∀ token ∈ gap, token.kind.isSeparator = true) →
      starts TokenKind.isSeparator (gap ++ rest) = false → gap = [] := by
    intro gap rest all stops
    cases gap with
    | nil => rfl
    | cons first gap =>
      have separates : starts TokenKind.isSeparator (first :: gap ++ rest) = true :=
        all first List.mem_cons_self
      rw [separates] at stops
      cases stops
  cases alike with
  | spent leftAll rightAll =>
    rw [← List.append_nil left] at stops
    rw [← List.append_nil right] at otherStops
    rw [empty leftAll stops, empty rightAll otherStops]
    exact .ended
  | same spelled inside rest => exact .going spelled inside rest
  | apart leftSome leftAll => exact absurd (empty leftAll stops) leftSome

/-- Nothing is left of both lists at the end of input. -/
theorem both_ended (alike : Alike left right) (ended : startsWith .endOfInput left = true)
    (otherEnded : startsWith .endOfInput right = true) : left = [] ∧ right = [] := by
  have stops : ∀ {tokens : List Token}, startsWith .endOfInput tokens = true →
      starts TokenKind.isSeparator tokens = false := by
    intro tokens ended
    rw [starts, beq_iff_eq.mp ended]
    rfl
  cases alike.settled_of_stops (stops ended) (stops otherEnded) with
  | ended => exact ⟨rfl, rfl⟩
  | @going first second left right spelled inside rest =>
    have kind : first.kind = .endOfInput := beq_iff_eq.mp ended
    rw [kind] at inside
    cases inside

/-- What is alike is settled after the separators at the start. -/
theorem settled (alike : Alike left right) :
    ∃ gap rest otherGap otherRest, left = gap ++ rest ∧ right = otherGap ++ otherRest ∧
      (∀ token ∈ gap, token.kind.isSeparator = true) ∧
      (∀ token ∈ otherGap, token.kind.isSeparator = true) ∧
      Settled rest otherRest := by
  cases alike with
  | spent leftAll rightAll =>
    exact ⟨left, [], right, [], (List.append_nil _).symm, (List.append_nil _).symm, leftAll,
      rightAll, .ended⟩
  | same spelled inside rest =>
    exact ⟨[], _, [], _, rfl, rfl, List.forall_mem_nil _, List.forall_mem_nil _,
      .going spelled inside rest⟩
  | apart leftSome leftAll rightSome rightAll spelled inside rest =>
    exact ⟨_, _, _, _, rfl, rfl, leftAll, rightAll, .going spelled inside rest⟩

end Alike

/-! ## Parentheses -/

namespace Lookahead

theorem afterParentheses?_cons (depth : Nat) (token : Token) (rest : List Token) :
    afterParentheses? depth (token :: rest) =
      if token.kind = .opening .paren then afterParentheses? (depth + 1) rest
      else if token.kind = .closing .paren then if depth ≤ 1 then some rest
      else afterParentheses? (depth - 1) rest
      else if token.kind = .endOfInput then none
      else afterParentheses? depth rest := by
  rw [afterParentheses?]

/-- Separators between parentheses are passed over. -/
theorem afterParentheses?_separators {gap : List Token}
    (all : ∀ token ∈ gap, token.kind.isSeparator = true) (depth : Nat) (rest : List Token) :
    afterParentheses? depth (gap ++ rest) = afterParentheses? depth rest := by
  induction gap with
  | nil => rfl
  | cons first gap ih =>
    obtain ⟨here, later⟩ := List.forall_mem_cons.mp all
    rw [List.cons_append, afterParentheses?_cons, ih later]
    cases kind : first.kind with
    | newline | semicolon => rfl
    | _ =>
      rw [kind] at here
      cases here

end Lookahead

namespace Alike

variable {left right : List Token}

theorem afterParentheses? (alike : Alike left right) (depth : Nat) :
    Option.Rel Alike (afterParentheses? depth left) (afterParentheses? depth right) := by
  have step : ∀ {first second : Token} {left right : List Token} (depth : Nat),
      first.spelling = second.spelling →
      Alike left right →
      (∀ depth, Option.Rel Alike (Lookahead.afterParentheses? depth left)
        (Lookahead.afterParentheses? depth right)) →
      Option.Rel Alike (Lookahead.afterParentheses? depth (first :: left))
        (Lookahead.afterParentheses? depth (second :: right)) := by
    intro first second left right depth spelled rest ih
    have kind : first.kind = second.kind := congrArg Prod.fst spelled
    rw [afterParentheses?_cons, afterParentheses?_cons, ← kind]
    repeat' split
    · exact ih _
    · exact .some rest
    · exact ih _
    · exact .none
    · exact ih _
  induction alike generalizing depth with
  | @spent left right leftAll rightAll =>
    have leftNone := afterParentheses?_separators leftAll depth []
    have rightNone := afterParentheses?_separators rightAll depth []
    rw [List.append_nil] at leftNone rightNone
    rw [leftNone, rightNone]
    exact .none
  | same spelled inside rest ih => exact step depth spelled rest ih
  | apart leftSome leftAll rightSome rightAll spelled inside rest ih =>
    rw [afterParentheses?_separators leftAll, afterParentheses?_separators rightAll]
    exact step depth spelled rest ih

theorem startsMethodBody_eq (alike : Alike left right) :
    startsMethodBody left = startsMethodBody right :=
  rel_any (alike.afterParentheses? 0) fun _ _ _ _ rest =>
    Lockstep.startsWith_eq rest (.opening .brace) rfl

theorem declaresMethod_eq (alike : Alike left right) :
    declaresMethod left = declaresMethod right := by
  refine Lockstep.declaresMethod_eq alike fun alike head => ?_
  rw [startsMethodHead, startsPair, Bool.and_eq_true] at head
  exact (Lockstep.tail alike (rfl : Internal isMethodName) head.1).startsMethodBody_eq

end Alike

end GroovyTidy
