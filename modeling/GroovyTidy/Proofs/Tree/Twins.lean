import GroovyTidy.Proofs.Tree.Alike
import GroovyTidy.Proofs.Tree.Reads
import GroovyTidy.Proofs.Tree.Stripped

set_option autoImplicit false

/-!
Two runs side by side. Two parsers are twins if, on tokens ahead that are alike, both fail or both
give what is wanted to be the same and leave tokens ahead that are alike again. One lemma for each
way of making rules from others carries this through the grammar.

Rules that contain one another are bounded by the number of tokens ahead, which differs between the
two runs. So it is said for each run how many tokens may be ahead, and how many are consumed at
least.
-/
namespace GroovyTidy

open Lookahead Rule

/-- The lists of trees differ in separators and in places only. -/
def SameForest (left right : List Tree) : Prop :=
  Tree.strippedForest left = Tree.strippedForest right

namespace SameForest

theorem append {front back otherFront otherBack : List Tree} (first : SameForest front otherFront)
    (second : SameForest back otherBack) :
    SameForest (front ++ back) (otherFront ++ otherBack) := by
  unfold SameForest at *
  rw [Tree.strippedForest_append, Tree.strippedForest_append, first, second]

theorem node {below otherBelow : List Tree} (kind : NodeKind) (same : SameForest below otherBelow) :
    SameForest [.node kind below] [.node kind otherBelow] := by
  unfold SameForest at *
  rw [Tree.strippedForest_singleton, Tree.strippedForest_singleton, Tree.stripped,
    Tree.stripped, same]

theorem token {first second : Token} (spelled : first.spelling = second.spelling) :
    SameForest [.token first] [.token second] := by
  have kind : first.kind = second.kind := congrArg Prod.fst spelled
  have text : first.text = second.text := congrArg Prod.snd spelled
  unfold SameForest
  rw [Tree.strippedForest_singleton, Tree.strippedForest_singleton, Tree.stripped, Tree.stripped,
    Token.unplaced, Token.unplaced, kind, text]

theorem flatten {forests others : List (List Tree)}
    (each : List.Forall₂ SameForest forests others) :
    SameForest forests.flatten others.flatten := by
  induction each with
  | nil => rfl
  | cons first rest ih => exact first.append ih

end SameForest

/-- Bounds for the numbers of tokens ahead in two runs. -/
structure Room where
  left : Nat
  right : Nat

/-- Room for a token more in each run. -/
def Room.more (room : Room) : Room where
  left := room.left + 1
  right := room.right + 1

/-- The tokens ahead are alike, and there is room for them. -/
structure Abreast (room : Room) (reading other : Reading) : Prop where
  alike : Alike reading.ahead other.ahead
  short : reading.ahead.length < room.left
  otherShort : other.ahead.length < room.right

/-- Both runs fail, or both give related values, have consumed so many tokens at least, and leave
tokens that are alike. -/
inductive Agree {α : Type} (same : α → α → Prop) (eaten : Nat) (before otherBefore : Reading) :
    EStateM.Result SyntaxError Reading α → EStateM.Result SyntaxError Reading α → Prop where
  | failed {error otherError : SyntaxError} {after otherAfter : Reading} :
      Agree same eaten before otherBefore (.error error after) (.error otherError otherAfter)
  | passed {value otherValue : α} {after otherAfter : Reading} (related : same value otherValue)
      (alike : Alike after.ahead otherAfter.ahead)
      (shorter : after.ahead.length + eaten ≤ before.ahead.length)
      (otherShorter : otherAfter.ahead.length + eaten ≤ otherBefore.ahead.length) :
      Agree same eaten before otherBefore (.ok value after) (.ok otherValue otherAfter)

namespace Agree

theorem of_ne_ok {α : Type} {same : α → α → Prop} {eaten : Nat} {before otherBefore : Reading}
    {result other : EStateM.Result SyntaxError Reading α}
    (fails : ∀ value after, result ≠ .ok value after)
    (otherFails : ∀ value after, other ≠ .ok value after) :
    Agree same eaten before otherBefore result other := by
  cases result with
  | ok value after => exact absurd rfl (fails value after)
  | error error after =>
    cases other with
    | ok value after => exact absurd rfl (otherFails value after)
    | error otherError otherAfter => exact .failed

/-- What is done after something else. -/
theorem bind {α β : Type} {given : α → α → Prop} {wanted : β → β → Prop} {eaten more total : Nat}
    {before otherBefore : Reading} {first other : Parser α} {next otherNext : α → Parser β}
    (agree : Agree given eaten before otherBefore (first before) (other otherBefore))
    (enough : total ≤ eaten + more)
    (step : ∀ {value otherValue : α} {middle otherMiddle : Reading},
      first before = .ok value middle →
      other otherBefore = .ok otherValue otherMiddle → given value otherValue →
      Alike middle.ahead otherMiddle.ahead → middle.ahead.length + eaten ≤ before.ahead.length →
      otherMiddle.ahead.length + eaten ≤ otherBefore.ahead.length →
      Agree wanted more middle otherMiddle (next value middle) (otherNext otherValue otherMiddle)) :
    Agree wanted total before otherBefore ((first >>= next) before)
      ((other >>= otherNext) otherBefore) := by
  show Agree _ _ _ _ (EStateM.bind first next before) (EStateM.bind other otherNext otherBefore)
  unfold EStateM.bind
  generalize first before = result at agree step ⊢
  generalize other otherBefore = otherResult at agree step ⊢
  cases agree with
  | failed => exact .failed
  | passed related alike shorter otherShorter =>
    dsimp only
    have rest := step rfl rfl related alike shorter otherShorter
    generalize next _ _ = result at rest ⊢
    generalize otherNext _ _ = otherResult at rest ⊢
    cases rest with
    | failed => exact .failed
    | passed related alike shorterStill otherShorterStill =>
      exact .passed related alike (by omega) (by omega)

/-- One rule after another. -/
theorem append {eaten more total : Nat} {before otherBefore : Reading}
    {front back otherFront otherBack : Rule}
    (agree : Agree SameForest eaten before otherBefore (front before) (otherFront otherBefore))
    (enough : total ≤ eaten + more)
    (step : ∀ {forest otherForest : List Tree} {middle otherMiddle : Reading},
      front before = .ok forest middle →
      otherFront otherBefore = .ok otherForest otherMiddle → Alike middle.ahead otherMiddle.ahead →
      middle.ahead.length + eaten ≤ before.ahead.length →
      otherMiddle.ahead.length + eaten ≤ otherBefore.ahead.length →
      Agree SameForest more middle otherMiddle (back middle) (otherBack otherMiddle)) :
    Agree SameForest total before otherBefore ((front ++ back) before)
      ((otherFront ++ otherBack) otherBefore) := by
  refine agree.bind enough fun done otherDone left alike shorter otherShorter => ?_
  refine (step done otherDone alike shorter otherShorter).bind (Nat.le_refl (more + 0))
    fun _ _ right alike _ _ => ?_
  exact .passed (left.append right) alike (Nat.le_refl _) (Nat.le_refl _)

theorem node {eaten : Nat} {before otherBefore : Reading} {children otherChildren : Rule}
    (agree : Agree SameForest eaten before otherBefore (children before)
      (otherChildren otherBefore))
    (kind : NodeKind) :
    Agree SameForest eaten before otherBefore (Rule.node kind children before)
      (Rule.node kind otherChildren otherBefore) :=
  agree.bind (Nat.le_refl (eaten + 0)) fun _ _ same alike _ _ =>
    .passed (same.node kind) alike (Nat.le_refl _) (Nat.le_refl _)

/-- Two runs of which it is known what they read. -/
theorem of_reads {eaten : Nat} {rule other : Rule} {left right rest otherRest : List Token}
    {forest otherForest : List Tree} (reads : Reads rule left forest rest)
    (otherReads : Reads other right otherForest otherRest) (same : SameForest forest otherForest)
    (alike : Alike rest otherRest) (shorter : rest.length + eaten ≤ left.length)
    (otherShorter : otherRest.length + eaten ≤ right.length) {before otherBefore : Reading}
    (ahead : before.ahead = left) (otherAhead : otherBefore.ahead = right) :
    Agree SameForest eaten before otherBefore (rule before) (other otherBefore) := by
  obtain ⟨after, done, afterAhead⟩ := reads before ahead
  obtain ⟨otherAfter, otherDone, otherAfterAhead⟩ := otherReads otherBefore otherAhead
  subst ahead otherAhead afterAhead otherAfterAhead
  rw [done, otherDone]
  exact .passed same alike shorter otherShorter

end Agree

namespace Rule

variable {α : Type} {choose : List Token → Option (Parser α)} {before : Reading}

theorem repeatWithin_none (chosen : choose before.ahead = none) (bound : Nat) :
    repeatWithin choose (bound + 1) before = .ok [] before := by
  simp only [repeatWithin, chosen]

theorem repeatWithin_some {item : Parser α} (chosen : choose before.ahead = some item)
    (bound : Nat) :
    repeatWithin choose (bound + 1) before =
      (do let first ← item; let rest ← repeatWithin choose bound; return first :: rest) before := by
  show _ = EStateM.bind item _ before
  simp only [repeatWithin, chosen, EStateM.bind]
  cases item before with
  | error error middle => rfl
  | ok first middle =>
    show _ = EStateM.bind _ _ middle
    simp only [EStateM.bind]
    cases repeatWithin choose bound middle with
    | error error after => rfl
    | ok rest after => rfl

end Rule

/-- One turn of a repetition, and the others after it. -/
theorem Agree.turn {α : Type} {same : α → α → Prop} {together : List α → List α → Prop}
    {before otherBefore : Reading} {item otherItem : Parser α}
    {others otherOthers : Parser (List α)}
    (first : Agree same 1 before otherBefore (item before) (otherItem otherBefore))
    (cons : ∀ {value otherValue : α} {rest otherRest : List α}, same value otherValue →
      together rest otherRest →
      together (value :: rest) (otherValue :: otherRest))
    (rest : ∀ {middle otherMiddle : Reading}, Alike middle.ahead otherMiddle.ahead →
      middle.ahead.length + 1 ≤ before.ahead.length →
        otherMiddle.ahead.length + 1 ≤ otherBefore.ahead.length →
      Agree together 0 middle otherMiddle (others middle) (otherOthers otherMiddle)) :
    Agree together 0 before otherBefore
      ((do let first ← item; let rest ← others; return first :: rest) before)
      ((do let first ← otherItem; let rest ← otherOthers; return first :: rest) otherBefore) := by
  refine first.bind (Nat.zero_le (1 + 0)) fun _ _ related alike shorter otherShorter => ?_
  refine (rest alike shorter otherShorter).bind (Nat.zero_le (0 + 0)) fun _ _ more alike _ _ => ?_
  exact .passed (cons related more) alike (Nat.le_refl _) (Nat.le_refl _)

/-- The parsers agree wherever the tokens ahead are alike and there is room for them. -/
def Twins {α : Type} (room : Room) (eaten : Nat) (same : α → α → Prop) (parser other : Parser α) :
    Prop :=
  ∀ ⦃before otherBefore : Reading⦄, Abreast room before otherBefore →
    Agree same eaten before otherBefore (parser before) (other otherBefore)

/-- Rules that are twins and give trees that differ in separators and places only. -/
abbrev TwinRules (room : Room) (eaten : Nat) (rule other : Rule) : Prop :=
  Twins room eaten SameForest rule other

section

variable {α β : Type} {room : Room} {eaten more : Nat}

theorem Twins.mono {same : α → α → Prop} {parser other : Parser α}
    (twins : Twins room more same parser other) (fewer : eaten ≤ more) :
    Twins room eaten same parser other := by
  intro before otherBefore abreast
  have agree := twins abreast
  generalize parser before = result at agree ⊢
  generalize other otherBefore = otherResult at agree ⊢
  cases agree with
  | failed => exact .failed
  | passed related alike shorter otherShorter => exact .passed related alike (by omega) (by omega)

/-- Decisions that were noted before do not matter. -/
theorem Twins.of_stream {same : α → α → Prop} {parser other : Parser α}
    (twins : Twins room eaten same parser other) {before otherBefore noted otherNoted : Reading}
    (abreast : Abreast room before otherBefore) (stream : noted.stream = before.stream)
    (otherStream : otherNoted.stream = otherBefore.stream) :
    Agree same eaten before otherBefore (parser noted) (other otherNoted) := by
  have ahead : noted.ahead = before.ahead := congrArg TokenStream.pending stream
  have otherAhead : otherNoted.ahead = otherBefore.ahead := congrArg TokenStream.pending otherStream
  have agree := twins (show Abreast room noted otherNoted from
    ⟨ahead ▸ otherAhead ▸ abreast.alike, ahead ▸ abreast.short, otherAhead ▸ abreast.otherShort⟩)
  generalize parser noted = result at agree ⊢
  generalize other otherNoted = otherResult at agree ⊢
  cases agree with
  | failed => exact .failed
  | passed related alike shorter otherShorter =>
    rw [ahead] at shorter
    rw [otherAhead] at otherShorter
    exact .passed related alike shorter otherShorter

/-- What comes after consumed tokens needs room for the others only. -/
theorem Twins.bind {rest : Room} {total : Nat} {given : α → α → Prop} {wanted : β → β → Prop}
    {first other : Parser α} {next otherNext : α → Parser β}
    (twins : Twins room eaten given first other) (fits : room.left ≤ rest.left + eaten)
    (otherFits : room.right ≤ rest.right + eaten) (enough : total ≤ eaten + more)
    (step : ∀ {value otherValue : α}, given value otherValue →
      Twins rest more wanted (next value) (otherNext otherValue)) :
    Twins room total wanted (first >>= next) (other >>= otherNext) := by
  intro before otherBefore abreast
  have short := abreast.short
  have otherShort := abreast.otherShort
  refine (twins abreast).bind enough fun _ _ related alike shorter otherShorter => ?_
  exact step related ⟨alike, by omega, by omega⟩

theorem pure_twins {same : α → α → Prop} {value otherValue : α} (related : same value otherValue) :
    Twins room 0 same (pure value) (pure otherValue) :=
  fun _ _ abreast => .passed related abreast.alike (Nat.le_refl _) (Nat.le_refl _)

theorem nothing_twins : TwinRules room 0 nothing nothing :=
  pure_twins rfl

theorem refuse_twins {same : α → α → Prop} {wanted otherWanted : Wanted} :
    Twins room eaten same (refuse wanted) (refuse otherWanted) :=
  fun _ _ _ => .failed

theorem note_twins {question : Question} {ruledOut otherRuledOut : Bool} :
    Twins room 0 (fun _ _ => True) (note question ruledOut) (note question otherRuledOut) :=
  fun _ _ abreast => .passed trivial abreast.alike (Nat.le_refl _) (Nat.le_refl _)

theorem accept_twins (test : TokenKind → Bool) (internal : Internal test) (wanted : Wanted) :
    TwinRules room 1 (accept test wanted) (accept test wanted) := by
  intro before otherBefore abreast
  have same := Lockstep.test_eq abreast.alike test internal.blind
  unfold accept
  rw [Reading.next_kind, Reading.next_kind, ← same]
  cases passed : test (kindAt before.ahead 0) with
  | false => exact .failed
  | true =>
    have inside : ∀ {reading : Reading}, test (kindAt reading.ahead 0) = true →
        reading.stream.next.kind ≠ .endOfInput := by
      intro reading passed ended
      rw [← Reading.next_kind, ended, internal.eq_false rfl] at passed
      cases passed
    obtain ⟨rest, ahead, after, -⟩ := Reading.ahead_of_next (inside passed)
    obtain ⟨otherRest, otherAhead, otherAfter, -⟩ :=
      Reading.ahead_of_next (inside (same.symm.trans passed))
    have alike := abreast.alike
    rw [ahead, otherAhead] at alike
    cases Lockstep.front alike with
    | going spelled _ alike =>
      refine .passed (SameForest.token spelled) ?_ ?_ ?_
      · show Alike before.stream.advance.pending otherBefore.stream.advance.pending
        rwa [after, otherAfter]
      · show before.stream.advance.pending.length + 1 ≤ _
        rw [after, ahead]
        exact Nat.le_refl _
      · show otherBefore.stream.advance.pending.length + 1 ≤ _
        rw [otherAfter, otherAhead]
        exact Nat.le_refl _
    | ended leftEnds =>
      rw [ahead, internal.eq_false leftEnds] at passed
      cases passed

theorem token_twins (kind : TokenKind) (internal : Internal (· == kind)) :
    TwinRules room 1 (token kind) (token kind) :=
  accept_twins (· == kind) internal _

namespace Twins

/-- What is made of what a parser gives. -/
theorem map {given : α → α → Prop} {wanted : β → β → Prop} {parser other : Parser α} {f g : α → β}
    (twins : Twins room eaten given parser other)
    (step : ∀ {a b : α}, given a b → wanted (f a) (g b)) :
    Twins room eaten wanted (do return f (← parser)) (do return g (← other)) :=
  twins.bind (Nat.le_add_right _ _) (Nat.le_add_right _ _) (Nat.le_refl _) fun related =>
    pure_twins (step related)

variable {front back otherFront otherBack : Rule}

/-- One rule after another. -/
theorem sequence {rest : Room} {total : Nat} (first : TwinRules room eaten front otherFront)
    (second : TwinRules rest more back otherBack) (fits : room.left ≤ rest.left + eaten)
    (otherFits : room.right ≤ rest.right + eaten) (enough : total ≤ eaten + more) :
    TwinRules room total (front ++ back) (otherFront ++ otherBack) := by
  intro before otherBefore abreast
  have short := abreast.short
  have otherShort := abreast.otherShort
  refine (first abreast).append enough fun _ _ alike shorter otherShorter => ?_
  exact second ⟨alike, by omega, by omega⟩

theorem append (first : TwinRules room eaten front otherFront)
    (second : TwinRules room more back otherBack) :
    TwinRules room eaten (front ++ back) (otherFront ++ otherBack) :=
  first.sequence second (Nat.le_add_right _ _) (Nat.le_add_right _ _) (Nat.le_add_right _ _)

/-- The second rule is the one that is known to consume something. -/
theorem prepend (first : TwinRules room eaten front otherFront)
    (second : TwinRules room more back otherBack) :
    TwinRules room more (front ++ back) (otherFront ++ otherBack) :=
  first.sequence second (Nat.le_add_right _ _) (Nat.le_add_right _ _) (Nat.le_add_left _ _)

/-- After a rule that consumes something, less room is enough for the next one. -/
theorem guard (first : TwinRules room.more 1 front otherFront)
    (second : TwinRules room more back otherBack) :
    TwinRules room.more 1 (front ++ back) (otherFront ++ otherBack) :=
  first.sequence second (Nat.le_refl _) (Nat.le_refl _) (Nat.le_add_right _ _)

theorem node {children otherChildren : Rule} (twins : TwinRules room eaten children otherChildren)
    (kind : NodeKind) :
    TwinRules room eaten (Rule.node kind children) (Rule.node kind otherChildren) :=
  fun _ _ abreast => (twins abreast).node kind

theorem lookingAhead {same : α → α → Prop} {choose otherChoose : List Token → Parser α}
    (each : ∀ left right, Alike left right →
      Twins room eaten same (choose left) (otherChoose right)) :
    Twins room eaten same (Rule.lookingAhead choose) (Rule.lookingAhead otherChoose) :=
  fun _ _ abreast => each _ _ abreast.alike abreast

/-- A rule that applies only if the tokens ahead have a property, which they have in both runs or in
neither. -/
theorem whenAt {rule other : Rule} {test : List Token → Bool}
    (twins : TwinRules room eaten rule other) {before otherBefore : Reading}
    (abreast : Abreast room before otherBefore)
    (agrees : test before.ahead = test otherBefore.ahead) :
    Agree SameForest 0 before otherBefore (Rule.when test rule before)
      (Rule.when test other otherBefore) := by
  show Agree SameForest 0 before otherBefore ((if test before.ahead then rule else nothing) before)
    ((if test otherBefore.ahead then other else nothing) otherBefore)
  rw [← agrees]
  cases test before.ahead with
  | false => exact nothing_twins abreast
  | true => exact twins.mono (Nat.zero_le _) abreast

theorem when {rule other : Rule} {test : List Token → Bool}
    (agrees : ∀ left right, Alike left right → test left = test right)
    (twins : TwinRules room eaten rule other) :
    TwinRules room 0 (Rule.when test rule) (Rule.when test other) :=
  fun _ _ abreast => twins.whenAt abreast (agrees _ _ abreast.alike)

theorem whenStarts {rule other : Rule} (twins : TwinRules room eaten rule other)
    (test : TokenKind → Bool) (blind : Blind test) :
    TwinRules room 0 (Rule.when (starts test) rule) (Rule.when (starts test) other) :=
  when (fun _ _ alike => Lockstep.starts_eq alike test blind) twins

theorem whenKind {rule other : Rule} (twins : TwinRules room eaten rule other) (kind : TokenKind)
    (inside : Internal (· == kind)) :
    TwinRules room 0 (Rule.when (startsWith kind) rule) (Rule.when (startsWith kind) other) :=
  when (fun _ _ alike => Lockstep.startsWith_eq alike kind inside) twins

theorem unlessKind {rule other : Rule} (twins : TwinRules room eaten rule other) (kind : TokenKind)
    (inside : Internal (· == kind)) :
    TwinRules room 0 (Rule.when (fun ahead => !startsWith kind ahead) rule)
      (Rule.when (fun ahead => !startsWith kind ahead) other) :=
  when (fun _ _ alike => congrArg not (Lockstep.startsWith_eq alike kind inside)) twins

/-- What is known of all that the parsers give is known of what twins give. -/
theorem meeting {same : α → α → Prop} {holds : α → Prop} {parser other : Parser α}
    (twins : Twins room eaten same parser other) (given : Meets parser fun _ value _ => holds value)
    (otherGiven : Meets other fun _ value _ => holds value) :
    Twins room eaten (fun value otherValue => same value otherValue ∧ holds value ∧
      holds otherValue) parser other := by
  intro before otherBefore abreast
  have agree := twins abreast
  have known := given before
  have otherKnown := otherGiven otherBefore
  generalize parser before = result at agree known ⊢
  generalize other otherBefore = otherResult at agree otherKnown ⊢
  cases agree with
  | failed => exact .failed
  | passed related alike shorter otherShorter =>
    exact .passed ⟨related, known _ _ rfl, otherKnown _ _ rfl⟩ alike shorter otherShorter

/-! ## Repetition -/

theorem repeatWithin {same : α → α → Prop} {choose otherChoose : List Token → Option (Parser α)}
    (each : ∀ left right, Alike left right →
      Option.Rel (Twins room 1 same) (choose left) (otherChoose right))
    {bound otherBound : Nat} {before otherBefore : Reading}
    (abreast : Abreast room before otherBefore) (enough : before.ahead.length < bound)
    (otherEnough : otherBefore.ahead.length < otherBound) :
    Agree (List.Forall₂ same) 0 before otherBefore (Rule.repeatWithin choose bound before)
      (Rule.repeatWithin otherChoose otherBound otherBefore) := by
  induction bound generalizing otherBound before otherBefore with
  | zero => cases enough
  | succ bound ih =>
    cases otherBound with
    | zero => cases otherEnough
    | succ otherBound =>
      have chosen := each _ _ abreast.alike
      cases found : choose before.ahead with
      | none =>
        rw [found] at chosen
        cases otherFound : otherChoose otherBefore.ahead with
        | none =>
          rw [repeatWithin_none found, repeatWithin_none otherFound]
          exact .passed .nil abreast.alike (Nat.le_refl _) (Nat.le_refl _)
        | some otherItem =>
          rw [otherFound] at chosen
          cases chosen
      | some item =>
        rw [found] at chosen
        cases otherFound : otherChoose otherBefore.ahead with
        | none =>
          rw [otherFound] at chosen
          cases chosen
        | some otherItem =>
          rw [otherFound] at chosen
          cases chosen with
          | some twins =>
            rw [repeatWithin_some found, repeatWithin_some otherFound]
            refine (twins abreast).turn .cons fun alike shorter otherShorter => ?_
            have short := abreast.short
            have otherShort := abreast.otherShort
            exact ih ⟨alike, by omega, by omega⟩ (by omega) (by omega)

theorem many {same : α → α → Prop} {choose otherChoose : List Token → Option (Parser α)}
    (each : ∀ left right, Alike left right →
      Option.Rel (Twins room 1 same) (choose left) (otherChoose right)) :
    Twins room 0 (List.Forall₂ same) (Rule.many choose) (Rule.many otherChoose) :=
  fun _ _ abreast => repeatWithin each abreast (Nat.lt_succ_self _) (Nat.lt_succ_self _)

theorem manyWhile {test : List Token → Bool}
    (agrees : ∀ left right, Alike left right → test left = test right) {rule other : Rule}
    (twins : TwinRules room 1 rule other) :
    TwinRules room 0 (Rule.manyWhile test rule) (Rule.manyWhile test other) := by
  unfold Rule.manyWhile
  rw [← bind_pure_comp, ← bind_pure_comp]
  refine map (many fun left right alike => ?_) SameForest.flatten
  rw [← agrees left right alike]
  cases test left with
  | false => exact .none
  | true => exact .some twins

theorem manyPairs {rule other : Rule} (twins : TwinRules room 1 rule other)
    (first second : TokenKind → Bool) (internal : Internal first) (blind : Blind second) :
    TwinRules room 0 (Rule.manyWhile (startsPair first second) rule)
      (Rule.manyWhile (startsPair first second) other) :=
  manyWhile (fun _ _ alike => Lockstep.startsPair_eq alike first second internal blind) twins

theorem commaSeparated {item other : Rule} (twins : TwinRules room eaten item other) :
    TwinRules room eaten (Rule.commaSeparated item) (Rule.commaSeparated other) :=
  twins.append (manyWhile (fun _ _ alike => Lockstep.startsWith_eq alike .comma rfl)
    ((token_twins .comma rfl).append twins))

end Twins

end

end GroovyTidy
