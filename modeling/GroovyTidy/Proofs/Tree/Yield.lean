import GroovyTidy.Proofs.Tree.Production

set_option autoImplicit false

/-!
What a rule of the grammar gives when it succeeds: trees over exactly the tokens it has consumed,
which conform to the grammar and form a word of a language. One lemma for each way of making rules
from others carries this through the grammar.
-/
namespace GroovyTidy

open scoped Computability
open Production

/-- From one reading to another exactly these tokens are consumed, and no end of input is among
them. -/
structure Reading.Consumes (before : Reading) (tokens : List Token) (after : Reading) : Prop where
  ahead : before.ahead = tokens ++ after.ahead
  final : after.stream.final = before.stream.final
  position : after.stream.position = before.stream.position + tokens.length
  inside : ∀ token ∈ tokens, token.kind ≠ .endOfInput

namespace Reading

theorem Consumes.nothing {before after : Reading} (same : after.stream = before.stream) :
    before.Consumes [] after := by
  refine ⟨?_, ?_, ?_, ?_⟩
  · simp only [Reading.ahead, same, List.nil_append]
  · rw [same]
  · rw [same]
    rfl
  · intro token member
    cases member

theorem Consumes.trans {before middle after : Reading} {front back : List Token}
    (first : before.Consumes front middle) (second : middle.Consumes back after) :
    before.Consumes (front ++ back) after := by
  refine ⟨?_, ?_, ?_, ?_⟩
  · rw [first.ahead, second.ahead, List.append_assoc]
  · rw [second.final, first.final]
  · rw [second.position, first.position, List.length_append, Nat.add_assoc]
  · intro token member
    rcases List.mem_append.mp member with left | right
    · exact first.inside token left
    · exact second.inside token right

theorem Consumes.length {before after : Reading} {tokens : List Token}
    (step : before.Consumes tokens after) :
    before.ahead.length = tokens.length + after.ahead.length := by
  rw [step.ahead, List.length_append]

/-- The kind of the next token is what lookahead sees first. -/
theorem next_kind (reading : Reading) :
    reading.stream.next.kind = Lookahead.kindAt reading.ahead 0 := by
  unfold TokenStream.next Lookahead.kindAt Reading.ahead
  cases reading.stream.pending with
  | nil => exact reading.stream.final_kind
  | cons token rest => rfl

/-- A reading whose next token is no end of input has that token ahead. -/
theorem ahead_of_next {reading : Reading} (inside : reading.stream.next.kind ≠ .endOfInput) :
    ∃ rest, reading.ahead = reading.stream.next :: rest ∧ reading.stream.advance.pending = rest ∧
      reading.stream.advance.position = reading.stream.position + 1 ∧
      reading.stream.advance.final = reading.stream.final := by
  unfold Reading.ahead
  cases pending : reading.stream.pending with
  | nil =>
    have final : reading.stream.next = reading.stream.final := by
      simp only [TokenStream.next, pending, List.head?_nil, Option.getD_none]
    exact absurd (final ▸ reading.stream.final_kind) inside
  | cons token rest =>
    refine ⟨rest, ?_, ?_, ?_, ?_⟩
    · simp only [TokenStream.next, pending, List.head?_cons, Option.getD_some]
    · simp only [TokenStream.advance, pending]
    · simp only [TokenStream.advance, pending]
    · simp only [TokenStream.advance, pending]

theorem ofTokens_ended (body : List Token) {last : Token} (ended : last.kind = .endOfInput) :
    (Reading.ofTokens (body ++ [last])).ahead = body ∧
      (Reading.ofTokens (body ++ [last])).stream.final = last := by
  simp [Reading.ofTokens, Reading.ahead, TokenStream.ofTokens, ended]

end Reading

namespace Rule

/-- Whenever the parser succeeds, what it was given, what it gives and what is left are related. -/
def Meets {α : Type} (parser : Parser α) (relation : Reading → α → Reading → Prop) : Prop :=
  ∀ before value after, parser before = .ok value after → relation before value after

/-- The trees account for all that happened between two readings. -/
structure Accounts (language : Language Tree) (before : Reading) (forest : List Tree)
    (after : Reading) : Prop where
  consumes : before.Consumes (Tree.forestTokens forest) after
  word : forest ∈ language
  conforms : ∀ tree ∈ forest, tree.Conforms

/-- The rule gives words of a language over the tokens it consumes. -/
def Yields (rule : Rule) (language : Language Tree) : Prop :=
  Meets rule (Accounts language)

theorem bind_eq_ok {α β : Type} {first : Parser α} {next : α → Parser β} {before after : Reading}
    {value : β} :
    (first >>= next) before = .ok value after ↔
      ∃ given middle, first before = .ok given middle ∧ next given middle = .ok value after := by
  change EStateM.bind first next before = .ok value after ↔ _
  unfold EStateM.bind
  cases first before with
  | ok given middle => simp
  | error error middle => simp

theorem bind_of_ok {α β : Type} {first : Parser α} {next : α → Parser β} {before middle : Reading}
    {given : α} (success : first before = .ok given middle) :
    (first >>= next) before = next given middle := by
  change EStateM.bind first next before = _
  simp only [EStateM.bind, success]

theorem pure_eq_ok {α : Type} {given value : α} {before after : Reading} :
    (pure given : Parser α) before = .ok value after ↔ given = value ∧ before = after := by
  change EStateM.Result.ok given before = .ok value after ↔ _
  simp

theorem map_eq_ok {α β : Type} {f : α → β} {parser : Parser α} {before after : Reading}
    {value : β} :
    (f <$> parser) before = .ok value after ↔ ∃ given, parser before = .ok given after ∧
      f given = value := by
  change EStateM.map f parser before = .ok value after ↔ _
  unfold EStateM.map
  cases parser before with
  | ok given middle => simp [and_comm]
  | error error middle => simp

theorem sequence_eq_ok {front back : Rule} {before after : Reading} {forest : List Tree} :
    (front ++ back) before = .ok forest after ↔
      ∃ left middle right, front before = .ok left middle ∧ back middle = .ok right after ∧
        left ++ right = forest := by
  change sequence front back before = .ok forest after ↔ _
  simp only [sequence, bind_eq_ok, pure_eq_ok]
  constructor
  · rintro ⟨left, middle, first, right, last, second, joined, rfl⟩
    exact ⟨left, middle, right, first, second, joined⟩
  · rintro ⟨left, middle, right, first, second, joined⟩
    exact ⟨left, middle, first, right, after, second, joined, rfl⟩

theorem node_eq_ok {kind : NodeKind} {children : Rule} {before after : Reading}
    {forest : List Tree} :
    node kind children before = .ok forest after ↔
      ∃ below, children before = .ok below after ∧ forest = [.node kind below] := by
  simp only [node, bind_eq_ok, pure_eq_ok]
  constructor
  · rintro ⟨below, middle, given, rfl, rfl⟩
    exact ⟨below, given, rfl⟩
  · rintro ⟨below, given, rfl⟩
    exact ⟨below, after, given, rfl, rfl⟩

theorem when_eq_ok {test : List Token → Bool} {rule : Rule} {before after : Reading}
    {forest : List Tree} :
    Rule.when test rule before = .ok forest after ↔
      (test before.ahead = true ∧ rule before = .ok forest after) ∨
        (test before.ahead = false ∧ forest = [] ∧ before = after) := by
  unfold Rule.when lookingAhead
  cases passed : test before.ahead with
  | true => simp [passed]
  | false =>
    simp only [passed, Bool.false_eq_true, ↓reduceIte, nothing, pure_eq_ok, false_and,
      true_and, false_or]
    exact and_congr_left fun _ => eq_comm

/-- A rule that does not apply consumes nothing. -/
theorem when_of_false {test : List Token → Bool} {rule : Rule} {before after : Reading}
    {forest : List Tree} (failed : test before.ahead = false)
    (success : Rule.when test rule before = .ok forest after) : forest = [] ∧ after = before := by
  rcases when_eq_ok.mp success with ⟨passed, -⟩ | ⟨-, empty, same⟩
  · rw [failed] at passed
    cases passed
  · exact ⟨empty, same.symm⟩

theorem refuse_ne_ok {α : Type} {wanted : Wanted} {before after : Reading} {value : α} :
    refuse wanted before ≠ .ok value after := by
  simp [refuse]

theorem accept_eq_ok {test : TokenKind → Bool} {wanted : Wanted} {before after : Reading}
    {forest : List Tree} :
    accept test wanted before = .ok forest after ↔
      test before.stream.next.kind = true ∧ forest = [.token before.stream.next] ∧
        after = { before with stream := before.stream.advance } := by
  unfold accept
  split
  · rename_i passed
    simp only [EStateM.Result.ok.injEq, passed, true_and]
    exact and_congr eq_comm eq_comm
  · rename_i failed
    simp [refuse, failed]

theorem note_eq_ok {question : Question} {ruledOut : Bool} {before after : Reading} {value : Unit}
    (success : note question ruledOut before = .ok value after) : after.stream = before.stream := by
  cases success
  rfl

/-! ## Repetition -/

/-- What is chosen by the tokens ahead is done again and again. -/
inductive Repeats {α : Type} (choose : List Token → Option (Parser α)) :
    Reading → List α → Reading → Prop where
  | done (reading : Reading) : Repeats choose reading [] reading
  | step {before middle after : Reading} {item : Parser α} {first : α} {rest : List α}
      (chosen : choose before.ahead = some item) (given : item before = .ok first middle)
      (more : Repeats choose middle rest after) : Repeats choose before (first :: rest) after

theorem repeatWithin_succ_eq_ok {α : Type} {choose : List Token → Option (Parser α)} {bound : Nat}
    {before after : Reading} {values : List α}
    (success : repeatWithin choose (bound + 1) before = .ok values after) :
    (choose before.ahead = none ∧ values = [] ∧ before = after) ∨
      ∃ item first middle rest, choose before.ahead = some item ∧ item before = .ok first middle ∧
        repeatWithin choose bound middle = .ok rest after ∧ values = first :: rest := by
  unfold repeatWithin at success
  split at success
  · rename_i none
    cases success
    exact Or.inl ⟨none, rfl, rfl⟩
  · rename_i item chosen
    split at success
    · cases success
    · rename_i first middle given
      split at success
      · cases success
      · rename_i rest reached more
        cases success
        exact Or.inr ⟨item, first, middle, rest, chosen, given, more, rfl⟩

theorem repeatWithin_repeats {α : Type} {choose : List Token → Option (Parser α)} {bound : Nat}
    {before after : Reading} {values : List α}
    (success : repeatWithin choose bound before = .ok values after) :
    Repeats choose before values after := by
  induction bound generalizing before values with
  | zero =>
    obtain ⟨rfl, rfl⟩ := pure_eq_ok.mp success
    exact .done before
  | succ bound ih =>
    obtain ⟨-, rfl, rfl⟩ | ⟨item, first, middle, rest, chosen, given, more, rfl⟩ :=
      repeatWithin_succ_eq_ok success
    · exact .done before
    · exact .step chosen given (ih more)

theorem many_repeats {α : Type} {choose : List Token → Option (Parser α)} {before after : Reading}
    {values : List α} (success : many choose before = .ok values after) :
    Repeats choose before values after :=
  repeatWithin_repeats success

theorem many_of_none {α : Type} {choose : List Token → Option (Parser α)} {before : Reading}
    (none : choose before.ahead = none) : many choose before = .ok [] before := by
  simp only [many, lookingAhead, repeatWithin, none]

/-- A repetition whose every turn consumes a token ends only where nothing more is chosen. -/
theorem many_stops {α : Type} {choose : List Token → Option (Parser α)} {before after : Reading}
    {values : List α}
    (progress : ∀ {before middle : Reading} {item : Parser α} {value : α},
      choose before.ahead = some item →
      item before = .ok value middle → middle.ahead.length < before.ahead.length)
    (success : many choose before = .ok values after) : choose after.ahead = none := by
  have enough : ∀ bound, ∀ before : Reading, ∀ values : List α, before.ahead.length < bound →
      repeatWithin choose bound before = .ok values after → choose after.ahead = none := by
    intro bound
    induction bound with
    | zero =>
      intro before values short _
      omega
    | succ bound ih =>
      intro before values short success
      obtain ⟨none, -, rfl⟩ | ⟨item, first, middle, rest, chosen, given, more, -⟩ :=
        repeatWithin_succ_eq_ok success
      · exact none
      · have shorter := progress chosen given
        exact ih middle rest (by omega) more
  exact enough (before.ahead.length + 1) before values (by omega) success

/-- A rule is applied again and again as long as the tokens ahead have a property. -/
abbrev Turns (test : List Token → Bool) (rule : Rule) :
    Reading → List (List Tree) → Reading → Prop :=
  Repeats fun ahead => if test ahead then some rule else none

theorem manyWhile_eq_ok {test : List Token → Bool} {rule : Rule} {before after : Reading}
    {forest : List Tree} (success : manyWhile test rule before = .ok forest after) :
    ∃ turns, many (fun ahead => if test ahead then some rule else none) before = .ok turns after ∧
      turns.flatten = forest :=
  map_eq_ok.mp success

theorem of_chosen {passed : Bool} {rule item : Rule}
    (chosen : (if passed then some rule else none) = some item) : passed = true ∧ item = rule := by
  cases passed with
  | true => exact ⟨rfl, (Option.some.inj chosen).symm⟩
  | false => cases chosen

/-- A repetition that goes on at first consists of a first turn and of those after it. -/
theorem manyWhile_first {test : List Token → Bool} {rule : Rule} {before after : Reading}
    {forest : List Tree} (passed : test before.ahead = true)
    (success : manyWhile test rule before = .ok forest after) :
    ∃ first middle turns, rule before = .ok first middle ∧ Turns test rule middle turns after ∧
      forest = first ++ turns.flatten := by
  obtain ⟨turns, repeated, rfl⟩ := manyWhile_eq_ok success
  unfold many lookingAhead at repeated
  obtain ⟨none, -, -⟩ | ⟨item, first, middle, rest, chosen, given, more, rfl⟩ :=
    repeatWithin_succ_eq_ok repeated
  · simp [passed] at none
  · obtain ⟨-, rfl⟩ := of_chosen chosen
    exact ⟨first, middle, rest, given, repeatWithin_repeats more, rfl⟩

/-! ## Languages of rules -/

theorem Accounts.nil {language : Language Tree} (empty : [] ∈ language) {before after : Reading}
    (same : after.stream = before.stream) : Accounts language before [] after := by
  refine ⟨?_, empty, ?_⟩
  · simpa only [Tree.forestTokens] using Reading.Consumes.nothing same
  · intro tree member
    cases member

theorem Accounts.append {left right : Language Tree} {before middle after : Reading}
    {front back : List Tree} (first : Accounts left before front middle)
    (second : Accounts right middle back after) :
    Accounts (left * right) before (front ++ back) after := by
  refine ⟨?_, Language.append_mem_mul first.word second.word, ?_⟩
  · rw [Tree.forestTokens_append]
    exact first.consumes.trans second.consumes
  · intro tree member
    rcases List.mem_append.mp member with left | right
    · exact first.conforms tree left
    · exact second.conforms tree right

theorem Accounts.mono {small large : Language Tree} (inside : small ≤ large)
    {before after : Reading} {forest : List Tree} (given : Accounts small before forest after) :
    Accounts large before forest after :=
  ⟨given.consumes, inside given.word, given.conforms⟩

theorem Accounts.node (kind : NodeKind) {language : Language Tree}
    (inside : language ≤ production kind) {before after : Reading} {children : List Tree}
    (given : Accounts language before children after) :
    Accounts (nodeOf kind) before [.node kind children] after := by
  refine ⟨?_, ⟨kind, children, beq_self_eq_true kind, rfl⟩, ?_⟩
  · simpa only [Tree.forestTokens, Tree.tokens, List.append_nil] using given.consumes
  · intro tree member
    rw [List.mem_singleton.mp member]
    exact .node kind children (inside given.word) given.conforms

/-- Words that start with a filled tree take at least one token. -/
theorem Accounts.progress {language : Language Tree} (begun : Begins language)
    {before after : Reading} {forest : List Tree} (given : Accounts language before forest after) :
    after.ahead.length < before.ahead.length := by
  obtain ⟨tree, rest, rfl, filled⟩ := begun _ given.word
  obtain ⟨token, others, shape, -⟩ := (given.conforms tree (by simp)).first_token filled
  have length := given.consumes.length
  rw [Tree.forestTokens, shape, List.cons_append, List.length_cons] at length
  omega

theorem Accounts.of_stream {language : Language Tree} {before noted after : Reading}
    {forest : List Tree} (same : noted.stream = before.stream)
    (given : Accounts language noted forest after) : Accounts language before forest after := by
  refine ⟨?_, given.word, given.conforms⟩
  have unchanged : before.Consumes [] noted := .nothing same
  simpa only [List.nil_append] using unchanged.trans given.consumes

theorem Yields.mono {rule : Rule} {small large : Language Tree} (given : Yields rule small)
    (inside : small ≤ large) : Yields rule large := by
  intro before forest after success
  exact (given before forest after success).mono inside

theorem Yields.append {front back : Rule} {left right : Language Tree} (first : Yields front left)
    (second : Yields back right) : Yields (front ++ back) (left * right) := by
  intro before forest after success
  obtain ⟨leftForest, middle, rightForest, frontDone, backDone, rfl⟩ := sequence_eq_ok.mp success
  exact (first _ _ _ frontDone).append (second _ _ _ backDone)

theorem Yields.node {kind : NodeKind} {children : Rule}
    (given : Yields children (production kind)) : Yields (node kind children) (nodeOf kind) := by
  intro before forest after success
  obtain ⟨below, done, rfl⟩ := node_eq_ok.mp success
  exact (given _ _ _ done).node kind le_rfl

theorem nodeOf_le_nodeWhere {kind : NodeKind} {test : NodeKind → Bool} (passed : test kind = true) :
    nodeOf kind ≤ nodeWhere test := by
  rintro forest ⟨found, children, same, rfl⟩
  rw [beq_iff_eq.mp same]
  exact ⟨kind, children, passed, rfl⟩

theorem Yields.nodeWhere {kind : NodeKind} {test : NodeKind → Bool} (passed : test kind = true)
    {children : Rule} (given : Yields children (production kind)) :
    Yields (Rule.node kind children) (Production.nodeWhere test) :=
  given.node.mono (nodeOf_le_nodeWhere passed)

theorem nothing_yields {language : Language Tree} (empty : [] ∈ language) :
    Yields nothing language := by
  intro before forest after success
  obtain ⟨rfl, rfl⟩ := pure_eq_ok.mp success
  exact .nil empty rfl

theorem refuse_yields (wanted : Wanted) (language : Language Tree) :
    Yields (refuse wanted) language := by
  intro before forest after success
  exact absurd success refuse_ne_ok

theorem Yields.when {rule : Rule} {language : Language Tree} (test : List Token → Bool)
    (given : Yields rule language) : Yields (Rule.when test rule) (1 + language) := by
  intro before forest after success
  rcases when_eq_ok.mp success with ⟨-, done⟩ | ⟨-, rfl, rfl⟩
  · exact (given _ _ _ done).mono le_add_self
  · exact .nil (Or.inl Language.nil_mem_one) rfl

/-- What a rule gives that applies only if the tokens ahead have a property. -/
theorem Yields.whenPassed {rule : Rule} {language : Language Tree} {test : List Token → Bool}
    (given : ∀ before forest after, test before.ahead = true → rule before = .ok forest after →
      Accounts language before forest after) : Yields (Rule.when test rule) (1 + language) := by
  intro before forest after success
  rcases when_eq_ok.mp success with ⟨passed, done⟩ | ⟨-, rfl, rfl⟩
  · exact (given _ _ _ passed done).mono le_add_self
  · exact .nil (Or.inl Language.nil_mem_one) rfl

theorem Yields.lookingAhead {choose : List Token → Rule} {language : Language Tree}
    (given : ∀ ahead, Yields (choose ahead) language) :
    Yields (Rule.lookingAhead choose) language := by
  intro before forest after success
  exact given before.ahead before forest after success

theorem accept_yields {test : TokenKind → Bool} (wanted : Wanted)
    (inside : test .endOfInput = false) : Yields (accept test wanted) (leafWhere test) := by
  intro before forest after success
  obtain ⟨passed, rfl, rfl⟩ := accept_eq_ok.mp success
  have noEnd : before.stream.next.kind ≠ .endOfInput := by
    intro ended
    rw [ended, inside] at passed
    cases passed
  obtain ⟨rest, ahead, pending, position, final⟩ := Reading.ahead_of_next noEnd
  refine ⟨⟨?_, final, position, ?_⟩, ⟨_, passed, rfl⟩, ?_⟩
  · simp only [Tree.forestTokens, Tree.tokens, ahead, List.append_nil, List.cons_append,
      List.nil_append]
    exact congrArg _ pending.symm
  · intro token member
    simp only [Tree.forestTokens, Tree.tokens, List.append_nil, List.mem_singleton] at member
    rw [member]
    exact noEnd
  · intro tree member
    rw [List.mem_singleton.mp member]
    exact .token _

theorem token_yields {kind : TokenKind} (inside : kind ≠ .endOfInput) :
    Yields (token kind) (leaf kind) :=
  accept_yields _ (beq_eq_false_iff_ne.mpr inside.symm)

/-- The turns of a repetition account for it together if each turn accounts for itself. -/
theorem Repeats.accounts {α : Type} {choose : List Token → Option (Parser α)}
    {trees : α → List Tree} {language : Language Tree}
    (each : ∀ {before middle : Reading} {item : Parser α} {value : α},
      choose before.ahead = some item →
      item before = .ok value middle → Accounts language before (trees value) middle)
    {before after : Reading} {values : List α} (turns : Repeats choose before values after) :
    Accounts language∗ before (values.map trees).flatten after := by
  induction turns with
  | done reading => exact .nil (Language.nil_mem_kstar _) rfl
  | step chosen given more ih =>
    simp only [List.map_cons, List.flatten_cons]
    exact ((each chosen given).append ih).mono mul_kstar_le_kstar

/-- What holds of every turn holds of all values of a repetition. -/
theorem Repeats.forall_mem {α : Type} {choose : List Token → Option (Parser α)}
    {property : α → Prop}
    (each : ∀ {before middle : Reading} {item : Parser α} {value : α},
      choose before.ahead = some item →
      item before = .ok value middle → property value)
    {before after : Reading} {values : List α} (turns : Repeats choose before values after) :
    ∀ value ∈ values, property value := by
  induction turns with
  | done reading => simp
  | step chosen given more ih => exact List.forall_mem_cons.mpr ⟨each chosen given, ih⟩

theorem Yields.turns {rule : Rule} {language : Language Tree} (given : Yields rule language)
    {test : List Token → Bool} {before after : Reading} {turns : List (List Tree)}
    (repeated : Turns test rule before turns after) :
    Accounts language∗ before turns.flatten after := by
  have accounted : Accounts language∗ before (turns.map id).flatten after := by
    refine repeated.accounts ?_
    intro before middle item value chosen done
    obtain ⟨-, rfl⟩ := of_chosen chosen
    exact given _ _ _ done
  simpa only [List.map_id] using accounted

theorem Yields.manyWhile {rule : Rule} {language : Language Tree} (test : List Token → Bool)
    (given : Yields rule language) : Yields (Rule.manyWhile test rule) language∗ := by
  intro before forest after success
  obtain ⟨turns, repeated, rfl⟩ := manyWhile_eq_ok success
  exact given.turns (many_repeats repeated)

theorem Yields.commaSeparated {item : Rule} {language : Language Tree}
    (given : Yields item language) : Yields (Rule.commaSeparated item) (commas language) :=
  given.append (.manyWhile _ ((token_yields (by decide)).append given))

end Rule

end GroovyTidy
