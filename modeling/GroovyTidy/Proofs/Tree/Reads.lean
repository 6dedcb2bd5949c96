import GroovyTidy.Proofs.Tree.Yield

set_option autoImplicit false

/-!
What a rule of the grammar makes of given tokens ahead. A rule decides by the tokens ahead only, so
that it is said for all readings with the same tokens ahead which trees it gives and what it leaves.
One lemma for each way of making rules from others lets the grammar be followed forward.
-/
namespace GroovyTidy.Rule

/-- With these tokens ahead the parser gives the value, the trees if it is a rule, and leaves the
rest. -/
def Reads {α : Type} (parser : Parser α) (ahead : List Token) (value : α) (rest : List Token) :
    Prop :=
  ∀ before : Reading, before.ahead = ahead → ∃ after, parser before = .ok value after ∧
    after.ahead = rest

theorem pure_reads {α : Type} (value : α) (ahead : List Token) :
    Reads (pure value) ahead value ahead := by
  intro before same
  exact ⟨before, rfl, same⟩

theorem nothing_reads (ahead : List Token) : Reads nothing ahead [] ahead :=
  pure_reads [] ahead

theorem accept_reads {test : TokenKind → Bool} (wanted : Wanted) {token : Token}
    (passed : test token.kind = true) (rest : List Token) :
    Reads (accept test wanted) (token :: rest) [.token token] rest := by
  intro before same
  have pending : before.stream.pending = token :: rest := same
  have next : before.stream.next = token := by
    rw [TokenStream.next, pending]
    rfl
  refine ⟨_, accept_eq_ok.mpr ⟨next ▸ passed, by rw [next], rfl⟩, ?_⟩
  simp only [Reading.ahead, TokenStream.advance, pending]

theorem token_reads {token : Token} {kind : TokenKind} (same : token.kind = kind)
    (rest : List Token) : Reads (Rule.token kind) (token :: rest) [.token token] rest := by
  have passed : (token.kind == kind) = true := beq_iff_eq.mpr same
  unfold Rule.token
  exact accept_reads _ passed rest

theorem Reads.append {front back : Rule} {ahead middle rest : List Token} {left right : List Tree}
    (first : Reads front ahead left middle) (second : Reads back middle right rest) :
    Reads (front ++ back) ahead (left ++ right) rest := by
  intro before same
  obtain ⟨reached, frontDone, reachedAhead⟩ := first before same
  obtain ⟨after, backDone, afterAhead⟩ := second reached reachedAhead
  exact ⟨after, sequence_eq_ok.mpr ⟨left, reached, right, frontDone, backDone, rfl⟩, afterAhead⟩

/-- What depends on what was given before. -/
theorem Reads.bind {α β : Type} {front : Parser α} {next : α → Parser β}
    {ahead middle rest : List Token} {given : α} {value : β}
    (first : Reads front ahead given middle) (second : Reads (next given) middle value rest) :
    Reads (front >>= next) ahead value rest := by
  intro before same
  obtain ⟨reached, frontDone, reachedAhead⟩ := first before same
  obtain ⟨after, nextDone, afterAhead⟩ := second reached reachedAhead
  exact ⟨after, (bind_of_ok frontDone).trans nextDone, afterAhead⟩

/-- To note an answer changes nothing ahead. -/
theorem Reads.note {rule : Rule} {ahead rest : List Token} {forest : List Tree}
    (given : Reads rule ahead forest rest) (question : Question) (ruledOut : Bool) :
    Reads (do Rule.note question ruledOut; rule) ahead forest rest := by
  intro before same
  exact given { before with decisions := ⟨question, ruledOut, before.stream.next⟩ ::
    before.decisions } same

theorem Reads.node {children : Rule} {ahead rest : List Token} {forest : List Tree}
    (given : Reads children ahead forest rest) (kind : NodeKind) :
    Reads (Rule.node kind children) ahead [.node kind forest] rest := by
  intro before same
  obtain ⟨after, done, afterAhead⟩ := given before same
  exact ⟨after, node_eq_ok.mpr ⟨forest, done, rfl⟩, afterAhead⟩

theorem Reads.lookingAhead {α : Type} {choose : List Token → Parser α} {ahead rest : List Token}
    {value : α} (given : Reads (choose ahead) ahead value rest) :
    Reads (Rule.lookingAhead choose) ahead value rest := by
  intro before same
  unfold Rule.lookingAhead
  rw [same]
  exact given before same

theorem Reads.when {rule : Rule} {test : List Token → Bool} {ahead rest : List Token}
    {forest : List Tree} (passed : test ahead = true) (given : Reads rule ahead forest rest) :
    Reads (Rule.when test rule) ahead forest rest := by
  refine .lookingAhead ?_
  rwa [if_pos passed]

theorem when_reads_nothing {rule : Rule} {test : List Token → Bool} {ahead : List Token}
    (failed : test ahead = false) : Reads (Rule.when test rule) ahead [] ahead := by
  refine .lookingAhead ?_
  rw [failed]
  exact nothing_reads ahead

/-! ## Repetition -/

/-- A rule is applied turn by turn to the tokens ahead, as long as these have a property. Every turn
takes tokens. -/
inductive Rounds (test : List Token → Bool) (rule : Rule) :
    List Token → List (List Tree) → List Token → Prop where
  | stop {ahead : List Token} (ends : test ahead = false) : Rounds test rule ahead [] ahead
  | turn {ahead middle rest : List Token} {first : List Tree} {others : List (List Tree)}
      (goes : test ahead = true) (given : Reads rule ahead first middle)
      (shorter : middle.length < ahead.length)
      (more : Rounds test rule middle others rest) : Rounds test rule ahead (first :: others) rest

/-- What is chosen by the tokens ahead is done turn by turn, until nothing is chosen. Every turn
takes tokens. -/
inductive Chain {α : Type} (choose : List Token → Option (Parser α)) :
    List Token → List α → List Token → Prop where
  | stop {ahead : List Token} (ends : choose ahead = none) : Chain choose ahead [] ahead
  | turn {ahead middle rest : List Token} {parser : Parser α} {first : α} {others : List α}
      (goes : choose ahead = some parser) (given : Reads parser ahead first middle)
      (shorter : middle.length < ahead.length) (more : Chain choose middle others rest) :
      Chain choose ahead (first :: others) rest

theorem Chain.repeatWithin {α : Type} {choose : List Token → Option (Parser α)}
    {ahead rest : List Token} {values : List α} (chain : Chain choose ahead values rest)
    {bound : Nat} (enough : ahead.length < bound) :
    Reads (Rule.repeatWithin choose bound) ahead values rest := by
  intro before same
  induction chain generalizing bound before with
  | stop ends =>
    obtain ⟨bound, rfl⟩ := Nat.exists_eq_succ_of_ne_zero (Nat.ne_zero_of_lt enough)
    refine ⟨before, ?_, same⟩
    simp only [Rule.repeatWithin, same, ends]
  | turn goes given shorter more ih =>
    obtain ⟨bound, rfl⟩ := Nat.exists_eq_succ_of_ne_zero (Nat.ne_zero_of_lt enough)
    obtain ⟨middle, done, middleAhead⟩ := given before same
    obtain ⟨after, rest, afterAhead⟩ := ih (show _ < bound by omega) middle middleAhead
    refine ⟨after, ?_, afterAhead⟩
    simp only [Rule.repeatWithin, same, goes, done, rest]

theorem Chain.many {α : Type} {choose : List Token → Option (Parser α)} {ahead rest : List Token}
    {values : List α} (chain : Chain choose ahead values rest) :
    Reads (Rule.many choose) ahead values rest := by
  intro before same
  rw [Rule.many, lookingAhead, same]
  exact chain.repeatWithin (Nat.lt_succ_self _) before same

theorem Rounds.chain {test : List Token → Bool} {rule : Rule} {ahead rest : List Token}
    {turns : List (List Tree)} (rounds : Rounds test rule ahead turns rest) :
    Chain (fun ahead => if test ahead then some rule else none) ahead turns rest := by
  induction rounds with
  | stop ends => exact .stop (by simp [ends])
  | turn goes given shorter more ih => exact .turn (if_pos goes) given shorter ih

theorem Rounds.manyWhile {test : List Token → Bool} {rule : Rule} {ahead rest : List Token}
    {turns : List (List Tree)} (rounds : Rounds test rule ahead turns rest) :
    Reads (Rule.manyWhile test rule) ahead turns.flatten rest := by
  intro before same
  obtain ⟨after, done, afterAhead⟩ := rounds.chain.many before same
  exact ⟨after, map_eq_ok.mpr ⟨turns, done, rfl⟩, afterAhead⟩

/-- Tokens with a property are accepted one after another up to the first without it. -/
theorem accept_rounds {test : TokenKind → Bool} (wanted : Wanted) {front rest : List Token}
    (all : ∀ token ∈ front, test token.kind = true) (stops : Lookahead.starts test rest = false) :
    Rounds (Lookahead.starts test) (accept test wanted) (front ++ rest)
      (front.map fun token => [Tree.token token])
      rest := by
  induction front with
  | nil => exact .stop stops
  | cons first others ih =>
    obtain ⟨here, later⟩ := List.forall_mem_cons.mp all
    exact .turn here (accept_reads _ here _) (by simp) (ih later)

end GroovyTidy.Rule

namespace GroovyTidy.Grammar

open Lookahead Rule

/-! ## Separators -/

/-- Statements go on where the input has not ended. -/
def goesOnStatements (ahead : List Token) : Bool :=
  !startsWith .endOfInput ahead

/-- One round of a list of statements: separators, and a statement unless the input ends after
them. -/
def statementRound (inner : Inner) : Rule :=
  separatorsAfter ++ Rule.when goesOnStatements (statement inner)

/-- The separators at the start, and what stands after them. -/
theorem gap_split (tokens : List Token) :
    ∃ gap rest, tokens = gap ++ rest ∧ (∀ token ∈ gap, token.kind.isSeparator = true) ∧
      starts TokenKind.isSeparator rest = false := by
  induction tokens with
  | nil => exact ⟨[], [], rfl, List.forall_mem_nil _, rfl⟩
  | cons first tokens ih =>
    cases separates : first.kind.isSeparator with
    | false => exact ⟨[], first :: tokens, rfl, List.forall_mem_nil _, separates⟩
    | true =>
      obtain ⟨gap, rest, rfl, all, stops⟩ := ih
      exact ⟨first :: gap, rest, rfl, List.forall_mem_cons.mpr ⟨separates, all⟩, stops⟩

section

variable {separated : List Token} (all : ∀ token ∈ separated, token.kind.isSeparator = true)
  {rest : List Token} (stops : starts TokenKind.isSeparator rest = false)
include all stops

theorem separators_reads :
    Reads separators (separated ++ rest) (separated.map Tree.token) rest := by
  have flat : (separated.map fun token => [Tree.token token]).flatten =
      separated.map Tree.token := by
    rw [← List.flatMap_def, List.map_eq_flatMap]
  rw [← flat]
  exact (accept_rounds .separator all stops).manyWhile

theorem separatorsAfter_reads (filled : separated ≠ []) :
    Reads separatorsAfter (separated ++ rest) (separated.map Tree.token) rest := by
  obtain ⟨first, others, rfl⟩ := List.exists_cons_of_ne_nil filled
  obtain ⟨here, later⟩ := List.forall_mem_cons.mp all
  exact (accept_reads _ here _).append (separators_reads later stops)

omit stops

theorem startsWith_separators (filled : separated ≠ []) {kind : TokenKind}
    (other : kind.isSeparator = false) (rest : List Token) :
    startsWith kind (separated ++ rest) = false := by
  obtain ⟨first, others, rfl⟩ := List.exists_cons_of_ne_nil filled
  have separates := all first List.mem_cons_self
  have apart : first.kind ≠ kind := by
    intro same
    rw [same, other] at separates
    cases separates
  exact beq_eq_false_iff_ne.mpr apart

theorem goesOnStatements_of_separators (filled : separated ≠ []) (rest : List Token) :
    goesOnStatements (separated ++ rest) = true := by
  rw [goesOnStatements, startsWith_separators all filled rfl]
  rfl

/-- Separators that nothing follows are a round of their own, if there are any. -/
theorem separators_rounds (inner : Inner) :
    ∃ turns, Rounds goesOnStatements (statementRound inner) separated turns [] ∧
      turns.flatten = separated.map Tree.token := by
  by_cases none : separated = []
  · subst none
    exact ⟨[], .stop rfl, rfl⟩
  · have goes := goesOnStatements_of_separators all none []
    have round :
        Reads (statementRound inner) (separated ++ []) (separated.map Tree.token ++ []) [] :=
      (separatorsAfter_reads all rfl none).append (when_reads_nothing rfl)
    rw [List.append_nil] at goes round
    refine ⟨[separated.map Tree.token ++ []], .turn goes round ?_ (.stop rfl), ?_⟩
    · exact List.length_pos_of_ne_nil none
    · simp only [List.flatten_cons, List.flatten_nil, List.append_nil]

end

section

variable {before after : Reading} {forest : List Tree}

/-- Separators are all those at the start of the tokens ahead. -/
theorem separators_eq_ok (success : separators before = .ok forest after) :
    ∃ gap, before.ahead = gap ++ after.ahead ∧ (∀ token ∈ gap, token.kind.isSeparator = true) ∧
      forest = gap.map Tree.token ∧ starts TokenKind.isSeparator after.ahead = false := by
  obtain ⟨gap, rest, ahead, all, stops⟩ := gap_split before.ahead
  obtain ⟨reached, done, left⟩ := separators_reads all stops before ahead
  rw [success] at done
  cases done
  rw [left]
  exact ⟨gap, ahead, all, rfl, stops⟩

theorem separatorsAfter_eq_ok (success : separatorsAfter before = .ok forest after) :
    ∃ gap, gap ≠ [] ∧ before.ahead = gap ++ after.ahead ∧
      (∀ token ∈ gap, token.kind.isSeparator = true) ∧
      forest = gap.map Tree.token ∧ starts TokenKind.isSeparator after.ahead = false := by
  obtain ⟨first, middle, rest, accepted, separated, rfl⟩ := sequence_eq_ok.mp success
  obtain ⟨separates, rfl, rfl⟩ := accept_eq_ok.mp accepted
  obtain ⟨gap, ahead, all, rfl, stops⟩ := separators_eq_ok separated
  have inside : before.stream.next.kind ≠ .endOfInput := by
    intro ended
    rw [ended] at separates
    cases separates
  obtain ⟨tokens, whole, advanced, -⟩ := Reading.ahead_of_next inside
  have shape : tokens = gap ++ after.ahead := advanced.symm.trans ahead
  refine ⟨before.stream.next :: gap, List.cons_ne_nil _ _, ?_, ?_, rfl, stops⟩
  · rw [whole, shape, List.cons_append]
  · exact List.forall_mem_cons.mpr ⟨separates, all⟩

end

end GroovyTidy.Grammar
