import GroovyTidy.Proofs.Tree.Alike
import GroovyTidy.Proofs.Tree.Conform
import GroovyTidy.Proofs.Tree.Reads

set_option autoImplicit false

/-!
Rules in front of more tokens. What a rule reads, it reads in the same way where more tokens follow
those ahead, if the first of these ends a statement. The only thing a rule looks for past the end of
a statement is the parenthesis that closes the parameters of a method, so all parentheses have to be
closed before the tokens that are added.

Separators go on into the tokens that are added, so a rule that may end with separators is treated
in the same way only where it leaves something.
-/
namespace GroovyTidy

open Lookahead Grammar

/-- After every opening parenthesis among the tokens stands the one that closes it. -/
def Closed (tokens : List Token) : Prop :=
  ∀ rest, rest <:+ tokens → startsWith (.opening .paren) rest = true →
    (afterParentheses? 0 rest).isSome = true

theorem Closed.suffix {tokens rest : List Token} (closed : Closed tokens)
    (later : rest <:+ tokens) : Closed rest :=
  fun last inside => closed last (inside.trans later)

/-- The second list is the first one with more tokens after it. All parentheses of the first one are
closed, and what comes after it starts with the end of a statement. -/
structure ExtendedBy (tail left right : List Token) : Prop where
  closed : Closed left
  ends : isBoundary (kindAt tail 0) = true
  eq : right = left ++ tail

theorem ExtendedBy.suffix {tail left right rest : List Token} (given : ExtendedBy tail left right)
    (later : rest <:+ left) : ExtendedBy tail rest (rest ++ tail) :=
  ⟨given.closed.suffix later, given.ends, rfl⟩

instance (tail : List Token) : Lockstep (ExtendedBy tail) where
  front := by
    intro left right given
    obtain ⟨-, ends, rfl⟩ := id given
    cases left with
    | nil => exact .ended rfl ends
    | cons first rest =>
      cases inside : isBoundary first.kind with
      | true => exact .ended inside inside
      | false => exact .going rfl inside (given.suffix (List.suffix_cons _ _))

theorem afterParentheses?_append {depth : Nat} {tokens rest : List Token}
    (found : afterParentheses? depth tokens = some rest) (tail : List Token) :
    rest <:+ tokens ∧ afterParentheses? depth (tokens ++ tail) = some (rest ++ tail) := by
  induction tokens generalizing depth with
  | nil => cases found
  | cons first tokens ih =>
    have later : ∀ {depth : Nat}, afterParentheses? depth tokens = some rest →
        rest <:+ first :: tokens ∧ afterParentheses? depth (tokens ++ tail) = some (rest ++ tail) :=
      fun found => ⟨(ih found).1.trans (List.suffix_cons _ _), (ih found).2⟩
    rw [afterParentheses?_cons] at found
    rw [List.cons_append, afterParentheses?_cons]
    split at found
    · rw [if_pos ‹_›]
      exact later found
    · rw [if_neg ‹_›]
      split at found
      · rw [if_pos ‹_›]
        split at found
        · rw [if_pos ‹_›]
          cases found
          exact ⟨List.suffix_cons _ _, rfl⟩
        · rw [if_neg ‹_›]
          exact later found
      · rw [if_neg ‹_›]
        split at found
        · cases found
        · rw [if_neg ‹_›]
          exact later found

namespace ExtendedBy

variable {tail left right : List Token}

theorem startsMethodBody_eq (given : ExtendedBy tail left right)
    (opens : startsWith (.opening .paren) left = true) :
    startsMethodBody left = startsMethodBody right := by
  obtain ⟨rest, found⟩ := Option.isSome_iff_exists.mp (given.closed left (List.suffix_refl _) opens)
  obtain ⟨later, foundToo⟩ := afterParentheses?_append found tail
  unfold startsMethodBody
  rw [given.eq, found, foundToo]
  exact Lockstep.startsWith_eq (given.suffix later) (.opening .brace) rfl

theorem declaresMethod_eq (given : ExtendedBy tail left right) :
    declaresMethod left = declaresMethod right := by
  refine Lockstep.declaresMethod_eq given fun given head => ?_
  rw [startsMethodHead, startsPair, Bool.and_eq_true] at head
  have parameters := Lockstep.tail given (rfl : Internal isMethodName) head.1
  apply parameters.startsMethodBody_eq
  simpa [startsWith, kindAt] using head.2

end ExtendedBy

namespace Rule

variable {α β : Type} {tail : List Token} {final : Bool} {eaten more : Nat}

/-- What is left are the last ones of the tokens, without so many of them at least, and the parser
gives the same before the tokens that are added: always if it is final, and else where something is
left. -/
structure Extended (tail : List Token) (final : Bool) (eaten : Nat) (left right : List Token)
    (other : Parser α) (value : α) (rest : List Token) : Prop where
  suffix : rest <:+ left
  shorter : rest.length + eaten ≤ left.length
  reads : final = true ∨ rest ≠ [] → Reads other right value (rest ++ tail)

/-- Where the first parser succeeds, the second one gives the same in front of more tokens. -/
def Extends (tail : List Token) (final : Bool) (eaten : Nat) (parser other : Parser α) : Prop :=
  ∀ ⦃before : Reading⦄ ⦃right : List Token⦄ ⦃value : α⦄ ⦃after : Reading⦄,
    ExtendedBy tail before.ahead right →
    parser before = .ok value after →
      Extended tail final eaten before.ahead right other value after.ahead

theorem Extends.mono {parser other : Parser α} (given : Extends tail final more parser other)
    (fewer : eaten ≤ more) : Extends tail final eaten parser other := by
  intro before right value after extended success
  have known := given extended success
  have shorter := known.shorter
  exact ⟨known.suffix, by omega, known.reads⟩

/-- What is always the same is so where something is left. -/
theorem Extends.inside {parser other : Parser α} (given : Extends tail true eaten parser other) :
    Extends tail final eaten parser other := by
  intro before right value after extended success
  have known := given extended success
  exact ⟨known.suffix, known.shorter, fun _ => known.reads (.inl rfl)⟩

/-- One parser after another. If the first one is not final, the second one has to consume
something. -/
theorem Extends.bind {firstFinal lastFinal : Bool} {total : Nat} {first other : Parser α}
    {next otherNext : α → Parser β} (given : Extends tail firstFinal eaten first other)
    (step : ∀ value, Extends tail lastFinal more (next value) (otherNext value))
    (fits : final = true → lastFinal = true ∧ (firstFinal = true ∨ 0 < more))
    (enough : total ≤ eaten + more) :
    Extends tail final total (first >>= next) (other >>= otherNext) := by
  intro before right value after extended success
  obtain ⟨found, middle, done, rest⟩ := bind_eq_ok.mp success
  have front := given extended done
  have back := step found (extended.suffix front.suffix) rest
  have frontShorter := front.shorter
  have backShorter := back.shorter
  refine ⟨back.suffix.trans front.suffix, by omega, fun wanted => ?_⟩
  have filled : after.ahead ≠ [] → middle.ahead ≠ [] :=
    fun some none => some (by simpa [none] using back.suffix)
  have both : (firstFinal = true ∨ middle.ahead ≠ []) ∧ (lastFinal = true ∨ after.ahead ≠ []) := by
    rcases wanted with always | some
    · obtain ⟨last, first | eats⟩ := fits always
      · exact ⟨.inl first, .inl last⟩
      · refine ⟨.inr fun none => ?_, .inl last⟩
        rw [none, List.length_nil] at backShorter
        omega
    · exact ⟨.inr (filled some), .inr some⟩
  exact (front.reads both.1).bind (back.reads both.2)

theorem pure_extends (value : α) : Extends tail final 0 (pure value) (pure value) := by
  intro before right found after extended success
  obtain ⟨rfl, rfl⟩ := pure_eq_ok.mp success
  rw [extended.eq]
  exact ⟨List.suffix_refl _, Nat.le_refl _, fun _ => pure_reads value _⟩

theorem nothing_extends : Extends tail final 0 nothing nothing :=
  pure_extends []

theorem refuse_extends {wanted : Wanted} {other : Parser α} :
    Extends tail final eaten (refuse wanted) other :=
  fun _ _ _ _ _ success => absurd success refuse_ne_ok

theorem note_extends (question : Question) (ruledOut : Bool) :
    Extends tail final 0 (note question ruledOut) (note question ruledOut) := by
  intro before right value after extended success
  have stream := note_eq_ok success
  have ahead : after.ahead = before.ahead := congrArg TokenStream.pending stream
  rw [ahead, extended.eq]
  exact ⟨List.suffix_refl _, Nat.le_refl _, fun _ start same => ⟨_, rfl, same⟩⟩

theorem accept_extends (test : TokenKind → Bool) (internal : test .endOfInput = false)
    (wanted : Wanted) : Extends tail final 1 (accept test wanted) (accept test wanted) := by
  intro before right value after extended success
  obtain ⟨passed, rfl, rfl⟩ := accept_eq_ok.mp success
  have inside : before.stream.next.kind ≠ .endOfInput := by
    intro ended
    rw [ended, internal] at passed
    cases passed
  obtain ⟨rest, ahead, after, -⟩ := Reading.ahead_of_next inside
  have left : Reading.ahead { before with stream := before.stream.advance } = rest := after
  rw [left, extended.eq, ahead]
  exact ⟨List.suffix_cons _ _, Nat.le_refl _, fun _ => accept_reads wanted passed _⟩

theorem token_extends (kind : TokenKind) (inside : (TokenKind.endOfInput == kind) = false) :
    Extends tail final 1 (token kind) (token kind) :=
  accept_extends (· == kind) inside _

namespace Extends

theorem map {parser other : Parser α} (given : Extends tail final eaten parser other) (f : α → β) :
    Extends tail final eaten (do return f (← parser)) (do return f (← other)) :=
  given.bind (fun value => pure_extends (f value)) (fun always => ⟨always, .inl always⟩)
    (Nat.le_refl _)

variable {front back otherFront otherBack : Rule}

theorem append (first : Extends tail final eaten front otherFront)
    (second : Extends tail final more back otherBack) :
    Extends tail final eaten (front ++ back) (otherFront ++ otherBack) :=
  first.bind (fun left => second.map (left ++ ·)) (fun always => ⟨always, .inl always⟩)
    (Nat.le_add_right _ _)

/-- The second rule is the one that is known to consume something. -/
theorem prepend (first : Extends tail final eaten front otherFront)
    (second : Extends tail final more back otherBack) :
    Extends tail final more (front ++ back) (otherFront ++ otherBack) :=
  first.bind (fun left => second.map (left ++ ·)) (fun always => ⟨always, .inl always⟩)
    (Nat.le_add_left _ _)

/-- Where the second rule succeeds, the first one has left something. -/
theorem close (first : Extends tail false eaten front otherFront)
    (second : Extends tail true 1 back otherBack) :
    Extends tail final 1 (front ++ back) (otherFront ++ otherBack) :=
  first.bind (fun left => second.map (left ++ ·)) (fun _ => ⟨rfl, .inr Nat.one_pos⟩)
    (Nat.le_add_left _ _)

theorem node {children other : Rule} (given : Extends tail final eaten children other)
    (kind : NodeKind) : Extends tail final eaten (Rule.node kind children) (Rule.node kind other) :=
  given.map fun below => [Tree.node kind below]

theorem lookingAhead {choose otherChoose : List Token → Parser α}
    (each : ∀ left right, ExtendedBy tail left right →
      Extends tail final eaten (choose left) (otherChoose right)) :
    Extends tail final eaten (Rule.lookingAhead choose) (Rule.lookingAhead otherChoose) := by
  intro before right value after extended success
  have known := each _ _ extended extended success
  exact ⟨known.suffix, known.shorter, fun wanted => (known.reads wanted).lookingAhead⟩

theorem when {rule other : Rule} {test : List Token → Bool}
    (agrees : ∀ left right, ExtendedBy tail left right → test left = test right)
    (given : Extends tail final eaten rule other) :
    Extends tail final 0 (Rule.when test rule) (Rule.when test other) := by
  refine lookingAhead fun left right extended => ?_
  rw [← agrees left right extended]
  split
  · exact given.mono (Nat.zero_le _)
  · exact nothing_extends

theorem whenStarts {rule other : Rule} (given : Extends tail final eaten rule other)
    (test : TokenKind → Bool) (blind : Blind test) :
    Extends tail final 0 (Rule.when (starts test) rule) (Rule.when (starts test) other) :=
  given.when fun _ _ extended => Lockstep.starts_eq extended test blind

theorem whenKind {rule other : Rule} (given : Extends tail final eaten rule other)
    (kind : TokenKind) (inside : Internal (· == kind)) :
    Extends tail final 0 (Rule.when (startsWith kind) rule) (Rule.when (startsWith kind) other) :=
  given.when fun _ _ extended => Lockstep.startsWith_eq extended kind inside

theorem unlessKind {rule other : Rule} (given : Extends tail final eaten rule other)
    (kind : TokenKind) (inside : Internal (· == kind)) :
    Extends tail final 0 (Rule.when (fun ahead => !startsWith kind ahead) rule)
      (Rule.when (fun ahead => !startsWith kind ahead) other) :=
  given.when fun _ _ extended => congrArg not (Lockstep.startsWith_eq extended kind inside)

/-! ## Repetition -/

/-- The turns of the first repetition are turns of the second one. The induction is on the bound of
the first one, which is never reached because every turn consumes something. -/
theorem chain {choose otherChoose : List Token → Option (Parser α)}
    (each : ∀ left right, ExtendedBy tail left right →
      Option.Rel (Extends tail final 1) (choose left) (otherChoose right))
    {bound : Nat} {before after : Reading} {right : List Token} {values : List α}
    (extended : ExtendedBy tail before.ahead right) (enough : before.ahead.length < bound)
    (success : Rule.repeatWithin choose bound before = .ok values after) :
    after.ahead <:+ before.ahead ∧
      (final = true ∨ after.ahead ≠ [] → Chain otherChoose right values (after.ahead ++ tail)) := by
  induction bound generalizing before right values with
  | zero => cases enough
  | succ bound ih =>
    have related := each _ _ extended
    obtain ⟨chosen, rfl, rfl⟩ | ⟨item, first, middle, rest, chosen, done, more, rfl⟩ :=
      repeatWithin_succ_eq_ok success
    · refine ⟨List.suffix_refl _, fun _ => ?_⟩
      rw [← extended.eq]
      rw [chosen] at related
      apply Chain.stop
      cases found : otherChoose right with
      | none => rfl
      | some other =>
        rw [found] at related
        cases related
    · rw [chosen] at related
      cases found : otherChoose right with
      | none =>
        rw [found] at related
        cases related
      | some other =>
        rw [found] at related
        cases related with
        | some given =>
          have turn := given extended done
          have shorter := turn.shorter
          obtain ⟨later, others⟩ := ih (extended.suffix turn.suffix) (by omega) more
          refine ⟨later.trans turn.suffix, fun wanted => ?_⟩
          have filled : final = true ∨ middle.ahead ≠ [] :=
            wanted.imp_right fun some none => some (by simpa [none] using later)
          refine .turn found (turn.reads filled) ?_ (others wanted)
          rw [extended.eq, List.length_append, List.length_append]
          omega

theorem many {choose otherChoose : List Token → Option (Parser α)}
    (each : ∀ left right, ExtendedBy tail left right →
      Option.Rel (Extends tail final 1) (choose left) (otherChoose right)) :
    Extends tail final 0 (Rule.many choose) (Rule.many otherChoose) := by
  intro before right values after extended success
  obtain ⟨later, turns⟩ := chain each extended (Nat.lt_succ_self _) success
  exact ⟨later, later.length_le, fun wanted => (turns wanted).many⟩

theorem manyWhile {rule other : Rule} {test : List Token → Bool}
    (agrees : ∀ left right, ExtendedBy tail left right → test left = test right)
    (given : Extends tail final 1 rule other) :
    Extends tail final 0 (Rule.manyWhile test rule) (Rule.manyWhile test other) := by
  unfold Rule.manyWhile
  rw [← bind_pure_comp, ← bind_pure_comp]
  refine map (many fun left right extended => ?_) List.flatten
  rw [← agrees left right extended]
  split
  · exact .some given
  · exact .none

theorem manyPairs {rule other : Rule} (given : Extends tail final 1 rule other)
    (first second : TokenKind → Bool) (internal : Internal first) (blind : Blind second) :
    Extends tail final 0 (Rule.manyWhile (startsPair first second) rule)
      (Rule.manyWhile (startsPair first second) other) :=
  given.manyWhile fun _ _ extended => Lockstep.startsPair_eq extended first second internal blind

theorem commaSeparated {item other : Rule} (given : Extends tail final eaten item other) :
    Extends tail final eaten (Rule.commaSeparated item) (Rule.commaSeparated other) :=
  given.append (((token_extends .comma rfl).append given).manyWhile fun _ _ extended =>
    Lockstep.startsWith_eq extended .comma rfl)

end Extends

end Rule

end GroovyTidy
