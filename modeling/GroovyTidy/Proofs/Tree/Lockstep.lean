import GroovyTidy.Proofs.Token.Spelling
import GroovyTidy.Proofs.Tree.Lookahead
import GroovyTidy.Proofs.Tree.Yield

set_option autoImplicit false

/-!
Lists of tokens in lockstep. They go on with tokens of the same spelling, until both of them stand
at the end of a statement. Whatever follows there, looking ahead finds the same in both, as long as
it does not look past the end of a statement.
-/
namespace GroovyTidy

open Lookahead Grammar

/-- A test that no token passes at which a statement is over. -/
def Internal (test : TokenKind → Bool) : Prop :=
  (test .newline || test .semicolon || test .endOfInput) = false

/-- A test that does not tell tokens from one another at which a statement is over. -/
def Blind (test : TokenKind → Bool) : Prop :=
  (test .newline == test .endOfInput && test .semicolon == test .endOfInput) = true

theorem Internal.eq_false {test : TokenKind → Bool} (internal : Internal test) {kind : TokenKind}
    (ends : isBoundary kind = true) : test kind = false := by
  simp only [Internal, Bool.or_eq_false_iff] at internal
  exact eq_false_of_boundary ends test internal.1.1 internal.1.2 internal.2

theorem Blind.eq_of_boundary {test : TokenKind → Bool} (blind : Blind test) {kind : TokenKind}
    (ends : isBoundary kind = true) : test kind = test .endOfInput := by
  simp only [Blind, Bool.and_eq_true, beq_iff_eq] at blind
  obtain rfl | rfl | rfl := isBoundary_cases ends
  · exact blind.1
  · exact blind.2
  · rfl

theorem Internal.blind {test : TokenKind → Bool} (internal : Internal test) : Blind test := by
  rw [Blind, internal.eq_false rfl, internal.eq_false rfl, internal.eq_false rfl]
  rfl

/-! ## Facts about looking ahead -/

namespace Lookahead

theorem startsWith_length {kind : TokenKind} (inside : kind ≠ .endOfInput) {ahead : List Token}
    (starts : startsWith kind ahead = true) : 0 < ahead.length := by
  cases ahead with
  | nil => exact absurd (beq_iff_eq.mp starts).symm inside
  | cons token rest => exact Nat.zero_lt_succ _

theorem skipPairs_eq {first second : TokenKind → Bool} (ended : second .endOfInput = false)
    (ahead : List Token) :
    skipPairs first second ahead =
      if startsPair first second ahead then skipPairs first second (ahead.drop 2) else ahead := by
  match ahead with
  | [] =>
    have stops : startsPair first second [] = false := by
      show (first .endOfInput && second .endOfInput) = false
      rw [ended, Bool.and_false]
    rw [stops]
    rfl
  | [token] =>
    have stops : startsPair first second [token] = false := by
      show (first token.kind && second .endOfInput) = false
      rw [ended, Bool.and_false]
    rw [stops]
    rfl
  | left :: right :: rest => rfl

/-- What follows a name and perhaps more of a type is found by what is next after it. -/
theorem afterTypeWithin?_cons (bound : Nat) (first : Token) (rest : List Token) :
    afterTypeWithin? (bound + 1) (first :: rest) =
      if first.kind.isPrimitiveType then some (skipBrackets rest)
      else if first.kind.isIdentifier then
        if startsWith .less (skipNames rest) then
          (afterTypeList? (afterTypeWithin? bound) rest.length ((skipNames rest).drop 1)).map
            skipBrackets
        else some (skipBrackets (skipNames rest))
      else none := by
  rw [afterTypeWithin?]
  cases skipNames rest with
  | nil => rfl
  | cons token inside =>
    by_cases less : token.kind = .less
    · have starts : startsWith .less (token :: inside) = true := beq_iff_eq.mpr less
      rw [starts]
      simp only [less, ↓reduceIte, List.drop_succ_cons, List.drop_zero]
    · have starts : startsWith .less (token :: inside) = false := beq_eq_false_iff_ne.mpr less
      rw [starts]
      simp only [less, ↓reduceIte, Bool.false_eq_true]

theorem afterTypeList?_succ (scan : List Token → Option (List Token)) (bound : Nat)
    (ahead : List Token) :
    afterTypeList? scan (bound + 1) ahead =
      (scan ahead).bind fun after =>
        if startsWith .comma after then afterTypeList? scan bound (after.drop 1)
        else if startsWith .greater after then some (after.drop 1)
        else none := by
  rw [afterTypeList?]
  cases scan ahead with
  | none => rfl
  | some after =>
    cases after with
    | nil => rfl
    | cons token rest =>
      simp only [Option.bind_some, startsWith, kindAt, List.getElem?_cons_zero,
        Option.elim_some, beq_iff_eq, List.drop_succ_cons, List.drop_zero]

/-- A scan that succeeds has passed over something. -/
def Shrinks (scan : List Token → Option (List Token)) : Prop :=
  ∀ ⦃ahead rest : List Token⦄, scan ahead = some rest → rest <:+ ahead ∧ rest.length < ahead.length

theorem afterTypeList?_shrinks {scan : List Token → Option (List Token)} (shrinks : Shrinks scan)
    (bound : Nat) : Shrinks (afterTypeList? scan bound) := by
  induction bound with
  | zero =>
    intro ahead rest found
    cases found
  | succ bound ih =>
    intro ahead rest found
    rw [afterTypeList?_succ] at found
    obtain ⟨after, scanned, found⟩ := Option.bind_eq_some_iff.mp found
    obtain ⟨suffix, shorter⟩ := shrinks scanned
    have next := (List.drop_suffix 1 after).trans suffix
    have dropped : (after.drop 1).length ≤ after.length := (List.drop_suffix 1 after).length_le
    split at found
    · obtain ⟨later, shortest⟩ := ih found
      exact ⟨later.trans next, by omega⟩
    · split at found
      · cases found
        exact ⟨next, by omega⟩
      · cases found

theorem afterTypeWithin?_shrinks (bound : Nat) : Shrinks (afterTypeWithin? bound) := by
  induction bound with
  | zero =>
    intro ahead rest found
    cases found
  | succ bound ih =>
    intro ahead rest found
    cases ahead with
    | nil => cases found
    | cons first ahead =>
      -- After the first token everything that is left is a suffix of what follows it.
      have inside : rest <:+ ahead → rest <:+ first :: ahead ∧
          rest.length < (first :: ahead).length := by
        intro suffix
        have short := suffix.length_le
        exact ⟨suffix.trans (List.suffix_cons first ahead), Nat.lt_succ_of_le short⟩
      have brackets := skipPairs_suffix (· == .opening .bracket) (· == .closing .bracket)
      have names := skipPairs_suffix (· == .dot) TokenKind.isIdentifier ahead
      rw [afterTypeWithin?_cons] at found
      apply inside
      split at found
      · cases found
        exact brackets ahead
      · split at found
        · split at found
          · obtain ⟨listed, scanned, rfl⟩ := Option.map_eq_some_iff.mp found
            have later := (afterTypeList?_shrinks ih _ scanned).1
            exact (brackets listed).trans (later.trans ((List.drop_suffix 1 _).trans names))
          · cases found
            exact (brackets _).trans names
        · cases found

theorem afterType?_shrinks : Shrinks afterType? :=
  fun ahead _ found => afterTypeWithin?_shrinks (ahead.length + 1) found

theorem declaresVariable_of_boundary {ahead : List Token}
    (ends : isBoundary (kindAt ahead 0) = true) : declaresVariable ahead = false := by
  have none : starts TokenKind.isModifier ahead = false := eq_false_of_boundary ends _ rfl rfl rfl
  have shorter := skipModifiers_shorter ahead
  unfold declaresVariable startsTyped
  dsimp only
  rw [shorter, none, Bool.false_and, Bool.or_false, skipModifiers_bare none,
    afterType?_none (eq_false_of_boundary ends _ rfl rfl rfl)]
  rfl

/-- Where names end without a dot, so do names and other tokens after dots. -/
theorem skipDotted_eq {ahead : List Token} (stops : kindAt (skipNames ahead) 0 ≠ .dot) :
    skipDotted ahead = skipNames ahead := by
  unfold skipNames at stops ⊢
  unfold skipDotted
  fun_induction skipPairs (· == .dot) TokenKind.isIdentifier ahead with
  | case1 left right rest passed ih =>
    rw [Bool.and_eq_true] at passed
    rw [skipPairs, passed.1]
    exact ih stops
  | case2 left right rest failed =>
    have other : (left.kind == .dot) = false := beq_eq_false_iff_ne.mpr stops
    exact skipPairs_of_kindAt other
  | case3 ahead short => exact skipPairs_of_kindAt (beq_eq_false_iff_ne.mpr stops)

/-- Between a name that is a type and the name of a variable of it stands no end of a statement, and
no dot is left over from the name of the type. -/
theorem startsTyped_declarator {first : Token} {rest : List Token}
    (plain : first.kind.isPrimitiveType = false)
    (typed : startsTyped startsDeclarator (first :: rest) = true) :
    isBoundary (kindAt rest 0) = false ∧ kindAt (skipNames rest) 0 ≠ .dot := by
  obtain ⟨after, found, declarator⟩ := (Option.any_eq_true _ _).mp typed
  rw [startsDeclarator, startsPair, Bool.and_eq_true] at declarator
  have named := declarator.1
  have name : first.kind.isIdentifier = true := by
    have typeWord : startsType first.kind = true := startsType_of_afterType? found
    rw [startsType, plain, Bool.false_or] at typeWord
    exact typeWord
  constructor
  · cases ends : isBoundary (kindAt rest 0) with
    | false => rfl
    | true =>
      rw [afterType?_name name (eq_false_of_boundary ends _ rfl rfl rfl)] at found
      cases found
      rw [eq_false_of_boundary ends TokenKind.isIdentifier rfl rfl rfl] at named
      cases named
  · intro dot
    have less : startsWith .less (skipNames rest) = false := by
      rw [startsWith, dot]
      rfl
    have brackets : skipBrackets (skipNames rest) = skipNames rest := by
      apply skipPairs_of_kindAt
      rw [dot]
      rfl
    rw [afterType?, afterTypeWithin?_cons, plain, name, less, brackets] at found
    cases found
    rw [dot] at named
    cases named

theorem skipName_length (ahead : List Token) : (skipName ahead).length ≤ ahead.length := by
  unfold skipName
  split
  · rw [List.length_drop]
    exact Nat.sub_le _ _
  · exact Nat.le_refl _

end Lookahead

/-- What goes on from related results gives related results. -/
theorem rel_bind {α β γ δ : Type} {given : α → β → Prop} {wanted : γ → δ → Prop} {x : Option α}
    {y : Option β} {f : α → Option γ} {g : β → Option δ} (related : Option.Rel given x y)
    (step : ∀ a b, x = some a → y = some b → given a b → Option.Rel wanted (f a) (g b)) :
    Option.Rel wanted (x.bind f) (y.bind g) := by
  cases related with
  | none => exact .none
  | some both => exact step _ _ rfl rfl both

theorem rel_map {α β γ δ : Type} {given : α → β → Prop} {wanted : γ → δ → Prop} {x : Option α}
    {y : Option β} {f : α → γ} {g : β → δ} (related : Option.Rel given x y)
    (step : ∀ a b, given a b → wanted (f a) (g b)) : Option.Rel wanted (x.map f) (y.map g) := by
  cases related with
  | none => exact .none
  | some both => exact .some (step _ _ both)

theorem rel_any {α β : Type} {given : α → β → Prop} {x : Option α} {y : Option β} {f : α → Bool}
    {g : β → Bool} (related : Option.Rel given x y)
    (step : ∀ a b, x = some a → y = some b → given a b → f a = g b) : x.any f = y.any g := by
  cases related with
  | none => rfl
  | some both => exact step _ _ rfl rfl both

/-! ## The next token -/

/-- Both lists go on with a token of the same spelling and with what is related, or neither goes
on. -/
inductive Front (related : List Token → List Token → Prop) : List Token → List Token → Prop where
  | going {first second : Token} {left right : List Token}
      (spelled : first.spelling = second.spelling) (inside : isBoundary first.kind = false)
      (rest : related left right) : Front related (first :: left) (second :: right)
  | ended {left right : List Token} (leftEnds : isBoundary (kindAt left 0) = true)
      (rightEnds : isBoundary (kindAt right 0) = true) : Front related left right

/-- Lists that are related go on alike, until both are at the end of a statement. -/
class Lockstep (related : List Token → List Token → Prop) : Prop where
  front : ∀ {left right : List Token}, related left right → Front related left right

namespace Lockstep

variable {related : List Token → List Token → Prop} [Lockstep related] {left right : List Token}

/-- The next tokens are of the same kind, except at the end of a statement. -/
theorem next_kind (given : related left right) :
    kindAt left 0 = kindAt right 0 ∨ isBoundary (kindAt left 0) = true ∧
    isBoundary (kindAt right 0) = true := by
  cases front given with
  | going spelled => exact .inl (congrArg Prod.fst spelled)
  | ended leftEnds rightEnds => exact .inr ⟨leftEnds, rightEnds⟩

theorem test_eq (given : related left right) (test : TokenKind → Bool) (blind : Blind test) :
    test (kindAt left 0) = test (kindAt right 0) := by
  rcases next_kind given with same | ⟨leftEnds, rightEnds⟩
  · rw [same]
  · rw [blind.eq_of_boundary leftEnds, blind.eq_of_boundary rightEnds]

theorem starts_eq (given : related left right) (test : TokenKind → Bool) (blind : Blind test) :
    starts test left = starts test right :=
  test_eq given test blind

theorem startsWith_eq (given : related left right) (kind : TokenKind)
    (inside : Internal (· == kind)) : startsWith kind left = startsWith kind right :=
  test_eq given (· == kind) inside.blind

/-- What follows a token inside a statement is related. -/
theorem tail (given : related left right) {test : TokenKind → Bool} (internal : Internal test)
    (passed : test (kindAt left 0) = true) : related (left.drop 1) (right.drop 1) := by
  cases front given with
  | going _ _ rest => exact rest
  | ended leftEnds =>
    rw [internal.eq_false leftEnds] at passed
    cases passed

theorem tail_of_startsWith (given : related left right) {kind : TokenKind}
    (passed : startsWith kind left = true) (inside : Internal (· == kind)) :
    related (left.drop 1) (right.drop 1) :=
  tail given inside passed

theorem startsPair_eq (given : related left right) (first second : TokenKind → Bool)
    (internal : Internal first) (blind : Blind second) :
    startsPair first second left = startsPair first second right := by
  have same := test_eq given first internal.blind
  unfold startsPair
  rw [← same]
  cases passed : first (kindAt left 0) with
  | false => rfl
  | true =>
    have next := test_eq (tail given internal passed) second blind
    rw [Bool.true_and, Bool.true_and]
    cases front given with
    | going => exact next
    | ended leftEnds =>
      rw [internal.eq_false leftEnds] at passed
      cases passed

/-- What follows two tokens inside a statement is related. -/
theorem afterPair (given : related left right) {first second : TokenKind → Bool}
    (internal : Internal first) (internalToo : Internal second)
    (passed : startsPair first second left = true) : related (left.drop 2) (right.drop 2) := by
  rw [startsPair, Bool.and_eq_true] at passed
  have rest := tail given internal passed.1
  cases front given with
  | going => exact tail rest internalToo passed.2
  | ended leftEnds =>
    rw [internal.eq_false leftEnds] at passed
    cases passed.1

/-! ## Types -/

theorem skipPairs (given : related left right) {first second : TokenKind → Bool}
    (internal : Internal first) (internalToo : Internal second) :
    related (skipPairs first second left) (skipPairs first second right) := by
  induction lengthDef : left.length using Nat.strongRecOn generalizing left right with
  | ind length ih =>
    have same := startsPair_eq given first second internal internalToo.blind
    rw [skipPairs_eq (internalToo.eq_false rfl) left,
      skipPairs_eq (internalToo.eq_false rfl) right, ← same]
    cases passed : startsPair first second left with
    | false => exact given
    | true =>
      have rest := afterPair given internal internalToo passed
      refine ih (left.drop 2).length ?_ rest rfl
      cases left with
      | nil =>
        rw [startsPair, Bool.and_eq_true] at passed
        rw [show kindAt [] 0 = .endOfInput from rfl, internal.eq_false rfl] at passed
        cases passed.1
      | cons token left =>
        rw [List.length_drop, ← lengthDef, List.length_cons]
        omega

theorem skipNames (given : related left right) : related (skipNames left) (skipNames right) :=
  skipPairs given rfl rfl

theorem skipBrackets (given : related left right) :
    related (skipBrackets left) (skipBrackets right) :=
  skipPairs given rfl rfl

/-- Lists of types with scans for a type that agree on short lists. -/
theorem afterTypeList? {limit otherLimit : Nat} {scan other : List Token → Option (List Token)}
    (shrinks : Shrinks scan) (otherShrinks : Shrinks other)
    (scans : ∀ {left right : List Token}, related left right → left.length < limit →
      right.length < otherLimit →
      Option.Rel related (scan left) (other right)) {bound otherBound : Nat}
    (given : related left right) (enough : left.length < bound)
    (otherEnough : right.length < otherBound) (short : left.length < limit)
    (otherShort : right.length < otherLimit) :
    Option.Rel related (afterTypeList? scan bound left)
      (afterTypeList? other otherBound right) := by
  induction bound generalizing left right otherBound with
  | zero => cases enough
  | succ bound ih =>
    cases otherBound with
    | zero => cases otherEnough
    | succ otherBound =>
      rw [afterTypeList?_succ, afterTypeList?_succ]
      refine rel_bind (scans given short otherShort) fun after otherAfter found otherFound rest =>
        ?_
      have shorter := (shrinks found).2
      have otherShorter := (otherShrinks otherFound).2
      rw [← startsWith_eq rest .comma rfl, ← startsWith_eq rest .greater rfl]
      cases comma : startsWith .comma after with
      | true =>
        refine ih (tail_of_startsWith rest comma rfl) ?_ ?_ ?_ ?_ <;>
          rw [List.length_drop] <;> omega
      | false =>
        cases closed : startsWith .greater after with
        | true => exact .some (tail_of_startsWith rest closed rfl)
        | false => exact .none

theorem afterTypeWithin? {bound otherBound : Nat} (given : related left right)
    (enough : left.length < bound) (otherEnough : right.length < otherBound) :
    Option.Rel related (afterTypeWithin? bound left) (afterTypeWithin? otherBound right) := by
  induction bound generalizing otherBound left right with
  | zero => cases enough
  | succ bound ih =>
    cases otherBound with
    | zero => cases otherEnough
    | succ otherBound =>
      cases front given with
      | ended leftEnds rightEnds =>
        rw [afterTypeWithin?_none (eq_false_of_boundary leftEnds startsType rfl rfl rfl),
          afterTypeWithin?_none (eq_false_of_boundary rightEnds startsType rfl rfl rfl)]
        exact .none
      | @going first second left right spelled inside rest =>
        have kind : first.kind = second.kind := congrArg Prod.fst spelled
        have names := skipNames rest
        rw [afterTypeWithin?_cons, afterTypeWithin?_cons, ← kind, ← startsWith_eq names .less rfl]
        cases primitive : first.kind.isPrimitiveType with
        | true => exact .some (skipBrackets rest)
        | false =>
          cases name : first.kind.isIdentifier with
          | false => exact .none
          | true =>
            cases less : startsWith .less (Lookahead.skipNames left) with
            | false => exact .some (skipBrackets names)
            | true =>
              have leftNames := skipPairs_length (· == .dot) TokenKind.isIdentifier left
              have rightNames := skipPairs_length (· == .dot) TokenKind.isIdentifier right
              have filled := startsWith_length (by decide) less
              have otherFilled :=
                startsWith_length (by decide) ((startsWith_eq names .less rfl).symm.trans less)
              have arguments := tail_of_startsWith names less rfl
              rw [List.length_cons] at enough otherEnough
              refine rel_map (afterTypeList? (afterTypeWithin?_shrinks bound)
                (afterTypeWithin?_shrinks otherBound) ih arguments ?_ ?_ ?_ ?_) fun _ _ =>
                  skipBrackets
              all_goals
                unfold Lookahead.skipNames at filled otherFilled ⊢
                rw [List.length_drop]
                omega

theorem afterType? (given : related left right) :
    Option.Rel related (afterType? left) (afterType? right) :=
  afterTypeWithin? given (Nat.lt_succ_self _) (Nat.lt_succ_self _)

theorem startsTyped_eq (given : related left right) {test : List Token → Bool}
    (agrees : ∀ left right, related left right → test left = test right) :
    startsTyped test left = startsTyped test right :=
  rel_any (afterType? given) fun left right _ _ => agrees left right

/-! ## Declarations -/

theorem skipModifiers (given : related left right) :
    related (skipModifiers left) (skipModifiers right) := by
  induction left generalizing right with
  | nil =>
    have same := starts_eq given TokenKind.isModifier rfl
    rw [skipModifiers_eq, skipModifiers_eq right, ← same]
    exact given
  | cons first left ih =>
    have same := starts_eq given TokenKind.isModifier rfl
    rw [skipModifiers_eq, skipModifiers_eq right, ← same]
    cases passed : starts TokenKind.isModifier (first :: left) with
    | false => exact given
    | true => exact ih (tail given (rfl : Internal TokenKind.isModifier) passed)

theorem startsMethodHead_eq (given : related left right) :
    startsMethodHead left = startsMethodHead right :=
  startsPair_eq given isMethodName (· == .opening .paren) rfl rfl

theorem startsDeclarator_eq (given : related left right) :
    startsDeclarator left = startsDeclarator right :=
  startsPair_eq given TokenKind.isIdentifier endsDeclaratorName rfl rfl

/-- A method is declared in both cases or in neither if both find its body or neither does. The body
stands after the parameters, which may go over several lines. -/
theorem declaresMethod_eq (given : related left right)
    (bodies : ∀ {left right : List Token}, related left right → startsMethodHead left = true →
      startsMethodBody (left.drop 1) = startsMethodBody (right.drop 1)) :
    declaresMethod left = declaresMethod right := by
  have rest := skipModifiers given
  have some := starts_eq given TokenKind.isModifier rfl
  rw [← skipModifiers_shorter, ← skipModifiers_shorter] at some
  have bare : (decide ((Lookahead.skipModifiers left).length < left.length) &&
        startsMethodHead (Lookahead.skipModifiers left) &&
          startsMethodBody ((Lookahead.skipModifiers left).drop 1)) =
      (decide ((Lookahead.skipModifiers right).length < right.length) &&
        startsMethodHead (Lookahead.skipModifiers right) &&
          startsMethodBody ((Lookahead.skipModifiers right).drop 1)) := by
    rw [← some, ← startsMethodHead_eq rest]
    cases head : startsMethodHead (Lookahead.skipModifiers left) with
    | false => rw [Bool.and_false, Bool.false_and, Bool.false_and]
    | true => rw [bodies rest head]
  unfold declaresMethod
  dsimp only
  rw [bare]
  have types := afterType? rest
  generalize Lookahead.afterType? (Lookahead.skipModifiers left) = found at types ⊢
  generalize Lookahead.afterType? (Lookahead.skipModifiers right) = otherFound at types ⊢
  cases types with
  | none => rfl
  | @some after otherAfter named =>
    rw [Option.filter_some, Option.filter_some, ← startsMethodHead_eq named]
    cases head : startsMethodHead after with
    | false => rfl
    | true => exact bodies named head

theorem declaresVariable_eq (given : related left right) :
    declaresVariable left = declaresVariable right := by
  have rest := skipModifiers given
  have some := starts_eq given TokenKind.isModifier rfl
  rw [← skipModifiers_shorter, ← skipModifiers_shorter] at some
  unfold declaresVariable
  dsimp only
  rw [some, startsDeclarator_eq rest, startsTyped_eq rest fun _ _ => startsDeclarator_eq]

/-! ## Commands, closures and paths -/

theorem startsTypePath_eq (rest : related left right)
    (stops : kindAt (Lookahead.skipNames left) 0 ≠ .dot) (first second : Token) :
    startsTypePath (first :: left) = startsTypePath (second :: right) := by
  have names := skipNames rest
  have dot := startsWith_eq names .dot rfl
  have otherStops : kindAt (Lookahead.skipNames right) 0 ≠ .dot := by
    have unlike : startsWith .dot (Lookahead.skipNames left) = false :=
      beq_eq_false_iff_ne.mpr stops
    rw [dot] at unlike
    exact beq_eq_false_iff_ne.mp unlike
  show (startsWith .dot left && starts TokenKind.opensTypeSuffix (skipDotted left)) =
    (startsWith .dot right && starts TokenKind.opensTypeSuffix (skipDotted right))
  rw [skipDotted_eq stops, skipDotted_eq otherStops, startsWith_eq rest .dot rfl,
    starts_eq names TokenKind.opensTypeSuffix rfl]

/-- What would declare variables is taken for a command in both cases or in neither. -/
theorem readsAsDeclaration_eq {first second : Token}
    (given : related (first :: left) (second :: right)) (spelled : first.spelling = second.spelling)
    (rest : related left right) :
    (!readsAsCommand first (first :: left) && declaresVariable (first :: left)) =
      (!readsAsCommand second (second :: right) && declaresVariable (second :: right)) := by
  have kind : first.kind = second.kind := congrArg Prod.fst spelled
  have text : first.text = second.text := congrArg Prod.snd spelled
  rw [← declaresVariable_eq given]
  cases declares : declaresVariable (first :: left) with
  | false => rw [Bool.and_false, Bool.and_false]
  | true =>
    suffices same : readsAsCommand first (first :: left) =
        readsAsCommand second (second :: right) by rw [same]
    unfold readsAsCommand
    rw [← kind, ← text]
    cases primitive : first.kind.isPrimitiveType with
    | true => simp only [Bool.not_true, Bool.and_false, Bool.false_and]
    | false =>
      cases modifier : first.kind.isModifier with
      | true => simp only [Bool.not_true, Bool.and_false, Bool.false_and]
      | false =>
        have bare : Lookahead.skipModifiers (first :: left) = first :: left := by
          rw [skipModifiers_eq,
            show starts TokenKind.isModifier (first :: left) = false from modifier]
          rfl
        have typed : startsTyped startsDeclarator (first :: left) = true := by
          have none := skipModifiers_shorter (first :: left)
          rw [show starts TokenKind.isModifier (first :: left) = false from modifier] at none
          unfold declaresVariable at declares
          dsimp only at declares
          rw [none, Bool.false_and, Bool.or_false, bare] at declares
          exact declares
        obtain ⟨goesOn, stops⟩ := startsTyped_declarator primitive typed
        have next : (kindAt (first :: left) 1).opensTypeSuffix =
            (kindAt (second :: right) 1).opensTypeSuffix :=
          test_eq rest TokenKind.opensTypeSuffix rfl
        have third : (kindAt (first :: left) 2 != .assign) =
            (kindAt (second :: right) 2 != .assign) := by
          cases front rest with
          | going _ _ more => exact test_eq more (· != .assign) rfl
          | ended leftEnds =>
            rw [leftEnds] at goesOn
            cases goesOn
        rw [startsTypePath_eq rest stops first second, next, third]

theorem skipName (given : related left right) : related (skipName left) (skipName right) := by
  have same := starts_eq given TokenKind.isIdentifier rfl
  unfold Lookahead.skipName
  rw [← same]
  cases name : starts TokenKind.isIdentifier left with
  | true => exact tail given (rfl : Internal TokenKind.isIdentifier) name
  | false => exact given

theorem listsParameters_eq {bound otherBound : Nat} (given : related left right)
    (enough : left.length < bound) (otherEnough : right.length < otherBound) :
    listsParameters bound left = listsParameters otherBound right := by
  induction bound generalizing left right otherBound with
  | zero => cases enough
  | succ bound ih =>
    cases otherBound with
    | zero => cases otherEnough
    | succ otherBound =>
      rw [listsParameters_succ, listsParameters_succ]
      refine rel_any (afterType? given) fun after otherAfter found otherFound rest => ?_
      have shorter := (afterType?_shrinks found).2
      have otherShorter := (afterType?_shrinks otherFound).2
      have names := skipName rest
      rw [← startsWith_eq names .comma rfl, ← startsWith_eq names .arrow rfl]
      cases comma : startsWith .comma (Lookahead.skipName after) with
      | false => rfl
      | true =>
        have short := skipName_length after
        have otherShort := skipName_length otherAfter
        refine ih (tail_of_startsWith names comma rfl) ?_ ?_ <;> rw [List.length_drop] <;> omega

theorem startsClosureHead_eq (given : related left right) :
    startsClosureHead left = startsClosureHead right := by
  unfold startsClosureHead
  rw [startsWith_eq given .arrow rfl,
    listsParameters_eq given (Nat.lt_succ_self _) (Nat.lt_succ_self _)]

/-- What is ahead of two readings is taken for a declaration of variables twice or not at all. -/
theorem variableAhead_eq {before otherBefore : Reading}
    (given : related before.ahead otherBefore.ahead) :
    (!readsAsCommand before.stream.next before.ahead && declaresVariable before.ahead) =
      (!readsAsCommand otherBefore.stream.next otherBefore.ahead &&
        declaresVariable otherBefore.ahead) := by
  cases declares : declaresVariable before.ahead with
  | false =>
    rw [← declaresVariable_eq given, declares, Bool.and_false, Bool.and_false]
  | true =>
    have inside : ∀ {reading : Reading}, declaresVariable reading.ahead = true →
        isBoundary reading.stream.next.kind = false := by
      intro reading declares
      rw [Reading.next_kind]
      cases ends : isBoundary (kindAt reading.ahead 0) with
      | false => rfl
      | true =>
        rw [declaresVariable_of_boundary ends] at declares
        cases declares
    have filled : ∀ {kind : TokenKind}, isBoundary kind = false → kind ≠ .endOfInput :=
      fun inside ended => by rw [ended] at inside; cases inside
    have here := inside declares
    have there := inside ((declaresVariable_eq given).symm.trans declares)
    obtain ⟨rest, ahead, -⟩ := Reading.ahead_of_next (filled here)
    obtain ⟨otherRest, otherAhead, -⟩ := Reading.ahead_of_next (filled there)
    rw [ahead, otherAhead] at given
    rw [← declares, ahead, otherAhead]
    cases front given with
    | going spelled inside rest => exact readsAsDeclaration_eq given spelled rest
    | ended leftEnds =>
      rw [show kindAt (before.stream.next :: rest) 0 = before.stream.next.kind from rfl, here]
        at leftEnds
      cases leftEnds

theorem trailerAhead?_eq (given : related left right) :
    trailerAhead? left = trailerAhead? right := by
  unfold trailerAhead?
  rw [← startsPair_eq given TokenKind.isMemberAccess TokenKind.isIdentifier rfl rfl]
  rcases next_kind given with same | ⟨leftEnds, rightEnds⟩
  · rw [same]
  · rcases isBoundary_cases leftEnds with left | left | left <;>
      rcases isBoundary_cases rightEnds with right | right | right <;> rw [left, right]

end Lockstep

end GroovyTidy
