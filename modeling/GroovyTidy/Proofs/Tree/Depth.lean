import GroovyTidy.Proofs.Tree.Coverage

set_option autoImplicit false

/-!
How deep rules are nested. The rules that contain one another are bounded, and below the bound they
refuse. Each level of them takes a token before it goes to the next one, so that from a reading with
fewer tokens ahead than the bound it does not matter what stands below it: any other rules in that
place change nothing. So the bounded rules are the rules without a bound, which contain themselves.
-/
namespace GroovyTidy

open Lookahead Production
open scoped Computability

namespace Rule

/-! ## Parsers that do the same in front of few tokens -/

section

variable {α β : Type}

/-- The parsers do the same wherever fewer tokens are ahead than there is room for. -/
def Same (room : Nat) (parser other : Parser α) : Prop :=
  ∀ before : Reading, before.ahead.length < room → parser before = other before

/-- Whenever the parser succeeds, it has taken so many tokens at least. -/
def Takes (eaten : Nat) (parser : Parser α) : Prop :=
  Meets parser fun before _ after => after.ahead.length + eaten ≤ before.ahead.length

variable {room eaten : Nat}

theorem Same.refl (parser : Parser α) : Same room parser parser :=
  fun _ _ => rfl

theorem Same.mono {more : Nat} {parser other : Parser α} (same : Same more parser other)
    (fewer : room ≤ more) : Same room parser other :=
  fun before short => same before (by omega)

theorem Takes.mono {more : Nat} {parser : Parser α} (takes : Takes more parser)
    (fewer : eaten ≤ more) : Takes eaten parser := by
  intro before value after success
  have shorter := takes before value after success
  omega

/-- What is done after something else has less room. -/
theorem Same.bind (eaten : Nat) {first other : Parser α} {next otherNext : α → Parser β}
    (same : Same (room + eaten) first other)
    (takes : Takes eaten first) (step : ∀ value, Same room (next value) (otherNext value)) :
    Same (room + eaten) (first >>= next) (other >>= otherNext) := by
  intro before short
  change EStateM.bind first next before = EStateM.bind other otherNext before
  unfold EStateM.bind
  rw [← same before short]
  cases result : first before with
  | error error after => rfl
  | ok value after =>
    have shorter := takes before value after result
    exact step value after (by omega)

/-- What is done in the same way afterwards needs no room. -/
theorem Same.followed {first other : Parser α} (same : Same room first other)
    (next : α → Parser β) : Same room (first >>= next) (other >>= next) := by
  intro before short
  change EStateM.bind first next before = EStateM.bind other next before
  unfold EStateM.bind
  rw [same before short]

theorem Same.ite {condition : Prop} [Decidable condition] {yes no otherYes otherNo : Parser α}
    (first : Same room yes otherYes) (second : Same room no otherNo) :
    Same room (if condition then yes else no) (if condition then otherYes else otherNo) := by
  split
  · exact first
  · exact second

theorem Same.lookingAhead {choose other : List Token → Parser α}
    (same : ∀ ahead, Same room (choose ahead) (other ahead)) :
    Same room (Rule.lookingAhead choose) (Rule.lookingAhead other) :=
  fun before short => same before.ahead before short

end

section

variable {room eaten : Nat}

theorem Yields.takes {rule : Rule} {language : Language Tree} (given : Yields rule language) :
    Takes 0 rule := by
  intro before forest after success
  have length := (given before forest after success).consumes.length
  omega

theorem Yields.takes_one {rule : Rule} {language : Language Tree} (given : Yields rule language)
    (begun : Begins language) : Takes 1 rule := by
  intro before forest after success
  exact (given before forest after success).progress begun

theorem accept_takes {test : TokenKind → Bool} (wanted : Wanted)
    (inside : test .endOfInput = false) : Takes 1 (accept test wanted) := by
  intro before forest after success
  obtain ⟨token, -, ahead⟩ := (accept_yields wanted inside).single success
  rw [ahead, List.length_cons]

theorem token_takes {kind : TokenKind} (inside : kind ≠ .endOfInput) : Takes 1 (token kind) :=
  accept_takes _ (beq_eq_false_iff_ne.mpr inside.symm)

theorem Takes.append {more : Nat} {front back : Rule} (first : Takes eaten front)
    (second : Takes more back) : Takes (eaten + more) (front ++ back) := by
  intro before forest after success
  obtain ⟨_, middle, _, frontDone, backDone, -⟩ := sequence_eq_ok.mp success
  have shorter := first _ _ _ frontDone
  have shortest := second _ _ _ backDone
  omega

/-- A rule after another one that takes tokens has less room. -/
theorem Same.append (eaten : Nat) {front back otherFront otherBack : Rule}
    (first : Same (room + eaten) front otherFront) (takes : Takes eaten front)
    (second : Same room back otherBack) :
    Same (room + eaten) (front ++ back) (otherFront ++ otherBack) := by
  change Same _ (sequence front back) (sequence otherFront otherBack)
  exact first.bind eaten takes fun left => second.followed _

/-- What stands between a token and something after it has room for a token less. -/
theorem Same.enclosed {opening closing inside other : Rule} (opens : Takes 1 opening)
    (takes : Takes 0 inside) (same : Same room inside other) :
    Same (room + 1) (opening ++ inside ++ closing) (opening ++ other ++ closing) :=
  .append 0 (.append 1 (.refl _) opens same) ((opens.append takes).mono (Nat.zero_le _)) (.refl _)

theorem Same.node {children other : Rule} (same : Same room children other) (kind : NodeKind) :
    Same room (Rule.node kind children) (Rule.node kind other) :=
  same.followed _

theorem Same.when {rule other : Rule} (test : List Token → Bool) (same : Same room rule other) :
    Same room (Rule.when test rule) (Rule.when test other) :=
  .lookingAhead fun _ => .ite same (.refl _)

end

/-! ## Repetition -/

section

variable {α : Type} {room : Nat}

/-- Repetitions do the same if their turns do. -/
theorem Same.repeatWithin {choose other : List Token → Option (Parser α)}
    (takes : ∀ ahead item, choose ahead = some item → Takes 0 item)
    (turns : ∀ ahead, Option.Rel (Same room) (choose ahead) (other ahead)) (bound : Nat) :
    Same room (Rule.repeatWithin choose bound) (Rule.repeatWithin other bound) := by
  induction bound with
  | zero => exact .refl _
  | succ bound ih =>
    intro before short
    have here := turns before.ahead
    unfold Rule.repeatWithin
    cases chosen : choose before.ahead with
    | none =>
      rw [chosen] at here
      cases otherwise : other before.ahead with
      | none => rfl
      | some item =>
        rw [otherwise] at here
        cases here
    | some item =>
      rw [chosen] at here
      cases otherwise : other before.ahead with
      | none =>
        rw [otherwise] at here
        cases here
      | some otherItem =>
        rw [otherwise] at here
        cases here with
        | some same =>
          dsimp only
          rw [← same before short]
          cases result : item before with
          | error error after => rfl
          | ok first after =>
            have shorter := takes _ _ chosen _ _ _ result
            dsimp only
            rw [ih after (by omega)]

theorem Same.many {choose other : List Token → Option (Parser α)}
    (takes : ∀ ahead item, choose ahead = some item → Takes 0 item)
    (turns : ∀ ahead, Option.Rel (Same room) (choose ahead) (other ahead)) :
    Same room (Rule.many choose) (Rule.many other) :=
  .lookingAhead fun _ => .repeatWithin takes turns _

theorem Same.manyWhile {rule other : Rule} (test : List Token → Bool) (takes : Takes 0 rule)
    (same : Same room rule other) :
    Same room (Rule.manyWhile test rule) (Rule.manyWhile test other) := by
  have all : Same room (Rule.many fun ahead => if test ahead then some rule else none)
      (Rule.many fun ahead => if test ahead then some other else none) := by
    refine .many ?_ ?_
    · intro ahead item chosen
      obtain ⟨-, rfl⟩ := of_chosen chosen
      exact takes
    · intro ahead
      cases test ahead with
      | false => exact .none
      | true => exact .some same
  intro before short
  change EStateM.map _ _ before = EStateM.map _ _ before
  unfold EStateM.map
  rw [all before short]

theorem Same.commaSeparated {item other : Rule} (takes : Takes 0 item)
    (same : Same room item other) :
    Same room (Rule.commaSeparated item) (Rule.commaSeparated other) :=
  have comma : Takes 0 (token .comma) := (token_takes (by decide)).mono (Nat.zero_le _)
  .append 0 same takes (.manyWhile _ (comma.append takes) (.append 0 (.refl _) comma same))

end

end Rule

namespace Grammar

open Rule

/-! ## Types -/

/-- A type, given the rule for types in its arguments. -/
def typeOver (argument : Rule) : Rule :=
  node .type
    ((lookingAhead fun ahead =>
        if starts TokenKind.isPrimitiveType ahead then accept TokenKind.isPrimitiveType .identifier
        else namedType argument) ++
      manyWhile (startsPair (· == .opening .bracket) (· == .closing .bracket))
        (token (.opening .bracket) ++ token (.closing .bracket)))

section

variable {room : Nat} {argument other : Rule} (given : Yields argument (nodeOf .type))
  (same : Same room argument other)
include given same

end

/-- The rules for what stands inside do the same in front of few tokens. -/
structure Inner.Same (room : Nat) (inner other : Inner) : Prop where
  expression : Rule.Same room inner.expression other.expression
  body : Rule.Same room inner.body other.body

section

variable {room : Nat} {inner other : Inner} (sound : inner.Sound) (same : inner.Same room other)
include sound same

omit same in
theorem pathElement_takes {ahead : List Token} {item : Parser (PathTrailer × List Tree)}
    (chosen : (trailerAhead? ahead).map (pathElement inner) = some item) : Takes 1 item := by
  obtain ⟨trailer, found, rfl⟩ := Option.map_eq_some_iff.mp chosen
  intro before step after success
  simp only [pathElement, bind_eq_ok, pure_eq_ok] at success
  obtain ⟨forest, reached, done, -, rfl⟩ := success
  obtain ⟨children, inside, -⟩ := node_eq_ok.mp done
  exact (pathStep_yields sound (trailerAhead?_ne_bare found)).takes_one (pathStep_begins trailer)
    _ _ _ inside

end

/-! ## The bound does not matter -/

/-- The rules for what stands inside, without a bound. -/
def unbounded : Inner where
  expression := lookingAhead fun ahead => (innerWithin (ahead.length + 1)).expression
  body := lookingAhead fun ahead => (innerWithin (ahead.length + 1)).body

theorem unbounded_sound : unbounded.Sound where
  expression := .lookingAhead fun ahead => (innerWithin_sound (ahead.length + 1)).expression
  body := .lookingAhead fun ahead => (innerWithin_sound (ahead.length + 1)).body

end Grammar

end GroovyTidy
