import GroovyTidy.Proofs.Token.Spelling
import GroovyTidy.Proofs.Tree.Conform
import GroovyTidy.Tree.Parse
import Mathlib.Algebra.Order.Kleene

set_option autoImplicit false

/-!
The tree of a compilation unit covers the tokens it was read from: no token is lost, doubled or
moved, up to the first end of input.
-/
namespace GroovyTidy

open scoped Computability
open Lookahead Production Rule

namespace Grammar

/-! ## Lists of statements -/

/-- The next token ends a statement of a list that goes on to a token of a kind. -/
def endsStatement (stop : TokenKind) (ahead : List Token) : Bool :=
  starts (fun kind => kind.isSeparator || kind == stop) ahead

/-- What may follow a statement: separators, and then perhaps another one. -/
def statementTurn (inner : Inner) (stop : TokenKind) : Rule :=
  separatorsAfter ++ Rule.when (fun ahead => !startsWith stop ahead) (Grammar.statement inner)

theorem separatorRun_le : separatorRun ≤ separator∗ :=
  mul_kstar_le_kstar

theorem separatorsAfter_starts {before after : Reading} {forest : List Tree}
    (success : separatorsAfter before = .ok forest after) :
    starts TokenKind.isSeparator before.ahead = true := by
  obtain ⟨first, middle, rest, accepted, -, -⟩ := sequence_eq_ok.mp success
  rw [starts, ← Reading.next_kind]
  exact (accept_eq_ok.mp accepted).1

theorem separatorRun_tokens {forest : List Tree} (word : forest ∈ separatorRun) :
    0 < (Tree.forestTokens forest).length := by
  obtain ⟨first, ⟨token, -, rfl⟩, rest, -, rfl⟩ := Language.mem_mul.mp word
  simp [Tree.forestTokens, Tree.tokens]

section

variable {inner : Inner} (sound : inner.Sound) {stop : TokenKind} {item : Language Tree}
  (each : ∀ {before after : Reading} {forest : List Tree},
      Grammar.statement inner before = .ok forest after →
    endsStatement stop after.ahead = true → Accounts item before forest after)

include sound in
theorem statementTurn_progress {before after : Reading} {forest : List Tree}
    (success : statementTurn inner stop before = .ok forest after) :
    after.ahead.length < before.ahead.length := by
  obtain ⟨seps, middle, rest, separated, given, -⟩ := sequence_eq_ok.mp success
  have front := separatorsAfter_yields _ _ _ separated
  have back := (statement_yields sound).when _ _ _ _ given
  have some := separatorRun_tokens front.word
  have frontLength := front.consumes.length
  have backLength := back.consumes.length
  omega

include each in
/-- The separators and statements after a statement. The induction is on the turns, each of which
starts where the statement before it ends. -/
theorem statementTurns_accounts {before after : Reading} {turns : List (List Tree)}
    (repeated : Turns (fun ahead => !startsWith stop ahead) (statementTurn inner stop) before
      turns after)
    (stopped : startsWith stop after.ahead = true) :
    endsStatement stop before.ahead = true ∧
      Accounts ((separatorRun * item)∗ * separator∗) before turns.flatten after := by
  induction repeated with
  | done reading =>
    refine ⟨?_, .nil ?_ rfl⟩
    · simp only [endsStatement, starts]
      simp only [startsWith] at stopped
      simp only [stopped, Bool.or_true]
    · exact Language.append_mem_mul (Language.nil_mem_kstar _) (Language.nil_mem_kstar _)
  | @step before middle after rule first rest chosen given more ih =>
    obtain ⟨-, rfl⟩ := of_chosen chosen
    obtain ⟨seps, reached, last, separated, optional, rfl⟩ := sequence_eq_ok.mp given
    have start := separatorsAfter_starts separated
    have front := separatorsAfter_yields _ _ _ separated
    refine ⟨?_, ?_⟩
    · simp only [endsStatement, starts] at start ⊢
      simp only [start, Bool.true_or]
    · obtain ⟨boundary, back⟩ := ih stopped
      rw [List.flatten_cons]
      rcases when_eq_ok.mp optional with ⟨-, done⟩ | ⟨atStop, rfl, rfl⟩
      · have whole := (front.append (each done boundary)).append back
        refine whole.mono ?_
        rw [← mul_assoc]
        exact mul_le_mul_left mul_kstar_le_kstar _
      · -- At the token that stops the list no further turn is taken.
        cases more with
        | done =>
          simp only [List.flatten_nil, List.append_nil]
          refine front.mono (separatorRun_le.trans ?_)
          exact le_mul_of_one_le_left' one_le_kstar
        | step chosen =>
          have passed := (of_chosen chosen).1
          simp only [atStop] at passed
          cases passed

include sound each in
/-- A list of statements accounts for a word of the language of its items, and the next token stops
it. -/
theorem statements_accounts {before after : Reading} {forest : List Tree}
    (success : statements inner stop before = .ok forest after) :
    ∃ children, forest = [.node .statements children] ∧
      Accounts (statementRun item) before children after ∧
      startsWith stop after.ahead = true := by
  obtain ⟨children, inside, rfl⟩ := node_eq_ok.mp success
  obtain ⟨first, middle, rest, started, repeated, rfl⟩ := sequence_eq_ok.mp inside
  obtain ⟨turns, all, rfl⟩ := manyWhile_eq_ok repeated
  have stopped : startsWith stop after.ahead = true := by
    have none := many_stops (fun chosen given => by
      obtain ⟨-, rfl⟩ := of_chosen chosen
      exact statementTurn_progress sound given) all
    simpa using none
  obtain ⟨boundary, back⟩ := statementTurns_accounts each (many_repeats all) stopped
  refine ⟨_, rfl, ?_, stopped⟩
  have whole := (each started boundary).append back
  rwa [← mul_assoc] at whole

end

theorem statements_yields {inner : Inner} (sound : inner.Sound) (stop : TokenKind) :
    Yields (statements inner stop) (nodeOf .statements) := by
  intro before forest after success
  obtain ⟨children, rfl, accounted, -⟩ :=
    statements_accounts sound (fun done _ => statement_yields sound _ _ _ done) success
  exact accounted.node .statements le_rfl

theorem innerWithin_sound (bound : Nat) : (innerWithin bound).Sound := by
  induction bound with
  | zero => exact ⟨refuse_yields _ _, refuse_yields _ _⟩
  | succ bound ih => exact ⟨expressionOver_yields ih, statements_yields ih _⟩

/-! ## Compilation units -/

theorem packageHead_accounts {before after : Reading} {forest : List Tree}
    (success : packageHead before = .ok forest after) :
    Accounts (nodeOf .packageDeclaration) before forest after ∧
    startsWith .endOfInput after.ahead = true ∨
      Accounts (nodeOf .packageDeclaration * separatorRun) before forest after := by
  obtain ⟨declaration, middle, rest, declared, given, rfl⟩ := sequence_eq_ok.mp success
  have front := packageDeclaration_yields _ _ _ declared
  simp only [lookingAhead] at given
  split at given
  · rename_i ended
    obtain ⟨rfl, rfl⟩ := pure_eq_ok.mp given
    rw [List.append_nil]
    exact Or.inl ⟨front, ended⟩
  · exact Or.inr (front.append (separatorsAfter_yields _ _ _ given))

/-- A compilation unit accounts for all that stands before the end of input, and takes this
along. -/
theorem compilationUnitOver_accounts {inner : Inner} {language : Language Tree}
    (given : Yields (statements inner .endOfInput) language) {before after : Reading}
    {forest : List Tree} (success : compilationUnitOver inner before = .ok forest after) :
    ∃ body middle, forest = [.node .compilationUnit (body ++ [.token middle.stream.next])] ∧
      Accounts (unitBody language) before body middle ∧ middle.stream.next.kind = .endOfInput := by
  obtain ⟨children, inside, rfl⟩ := node_eq_ok.mp success
  obtain ⟨body, middle, last, bodyDone, ended, rfl⟩ := sequence_eq_ok.mp inside
  obtain ⟨head, reached, tail, headDone, optional, rfl⟩ := sequence_eq_ok.mp bodyDone
  obtain ⟨seps, opened, package, separated, packaged, rfl⟩ := sequence_eq_ok.mp headDone
  obtain ⟨same, rfl, -⟩ := accept_eq_ok.mp ended
  have front := separators_yields _ _ _ separated
  refine ⟨_, middle, rfl, ?_, beq_iff_eq.mp same⟩
  rw [List.append_assoc]
  refine front.append ?_
  rcases when_eq_ok.mp packaged with ⟨-, declared⟩ | ⟨-, rfl, rfl⟩
  · refine Accounts.mono le_self_add ?_
    rcases packageHead_accounts declared with ⟨declaration, atEnd⟩ | declaration
    · -- Nothing follows the package at the end of input.
      rcases when_eq_ok.mp optional with ⟨inside, -⟩ | ⟨-, rfl, rfl⟩
      · simp [atEnd] at inside
      · have none : Accounts (separatorRun * language + separator∗) reached [] reached :=
          .nil (Or.inr (Language.nil_mem_kstar _)) rfl
        exact declaration.append none
    · rcases when_eq_ok.mp optional with ⟨-, stated⟩ | ⟨-, rfl, rfl⟩
      · have whole := declaration.append (given _ _ _ stated)
        rw [mul_assoc] at whole
        exact whole.mono (mul_le_mul_right le_self_add _)
      · rw [List.append_nil]
        exact declaration.mono (mul_le_mul_right (separatorRun_le.trans le_add_self) _)
  · refine Accounts.mono le_add_self ?_
    exact given.when _ _ _ _ optional

end Grammar

/-! ## Trees of lists of tokens -/

/-- A tree comes from the rule for compilation units. -/
theorem parseTokens_eq_ok {tokens : List Token} {unit : Node} {language : Language Tree}
    (given : ∀ bound, Yields (Grammar.statements (Grammar.innerWithin bound) .endOfInput) language)
    (success : parseTokens tokens = .ok unit) :
    ∃ body middle, unit = ⟨.compilationUnit, body ++ [.token middle.stream.next]⟩ ∧
      Accounts (unitBody language) (.ofTokens tokens) body middle ∧
      middle.stream.next.kind = .endOfInput := by
  unfold parseTokens readTokens at success
  split at success
  · rename_i trees reading read
    obtain ⟨body, middle, rfl, accounted, ended⟩ :=
      Grammar.compilationUnitOver_accounts (given _) read
    simp only [List.filterMap_cons, Tree.node?, List.filterMap_nil, List.headD_cons,
      Except.ok.injEq] at success
    exact ⟨body, middle, success.symm, accounted, ended⟩
  · cases success

/-- The tokens up to the first end of input, which is included. -/
def Token.throughEnd : List Token → List Token
  | [] => []
  | token :: rest => if token.kind = .endOfInput then [token] else token :: throughEnd rest

theorem Token.throughEnd_append {front : List Token}
    (inside : ∀ token ∈ front, token.kind ≠ .endOfInput) (rest : List Token) :
    throughEnd (front ++ rest) = front ++ throughEnd rest := by
  induction front with
  | nil => rfl
  | cons token front ih =>
    have here := inside token (by simp)
    simp only [List.cons_append, throughEnd, here, ↓reduceIte]
    rw [ih fun later member => inside later (List.mem_cons_of_mem _ member)]

theorem Token.throughEnd_remaining {reading : Reading}
    (ended : reading.stream.next.kind = .endOfInput) :
    throughEnd reading.stream.remaining = [reading.stream.next] := by
  have first : ∃ rest, reading.stream.remaining = reading.stream.next :: rest := by
    unfold TokenStream.remaining TokenStream.next
    cases reading.stream.pending with
    | nil => exact ⟨[], rfl⟩
    | cons token rest => exact ⟨rest ++ [reading.stream.final], rfl⟩
  obtain ⟨rest, shape⟩ := first
  rw [shape, throughEnd, if_pos ended]

/-- The tokens of a tree are those it was read from, up to the first end of input. -/
theorem tokens_of_parseTokens {tokens : List Token} {unit : Node}
    (success : parseTokens tokens = .ok unit) :
    unit.tokens = Token.throughEnd (TokenStream.ofTokens tokens).remaining := by
  obtain ⟨body, middle, rfl, accounted, ended⟩ :=
    parseTokens_eq_ok (fun bound => Grammar.statements_yields (Grammar.innerWithin_sound bound) _)
      success
  have consumed := accounted.consumes
  have all : (TokenStream.ofTokens tokens).remaining =
      Tree.forestTokens body ++ middle.stream.remaining := by
    have ahead : (TokenStream.ofTokens tokens).pending =
        Tree.forestTokens body ++ middle.stream.pending :=
      consumed.ahead
    have final : middle.stream.final = (TokenStream.ofTokens tokens).final := consumed.final
    simp only [TokenStream.remaining, ahead, final, List.append_assoc]
  rw [all, Token.throughEnd_append consumed.inside, Token.throughEnd_remaining ended]
  simp only [Node.tokens, Tree.forestTokens_append, Tree.forestTokens, Tree.tokens, List.append_nil]

/-- The tokens of a source end at their only end of input. -/
theorem throughEnd_of_tokenize {source : String} {tokens : List Token}
    (success : tokenize source = .ok tokens) :
    Token.throughEnd (TokenStream.ofTokens tokens).remaining = tokens := by
  obtain ⟨body, last, rfl, ended, legible, -⟩ := tokensFrom_legible success
  have final : last.kind = .endOfInput := congrArg Prod.fst ended
  have stream : (TokenStream.ofTokens (body ++ [last])).remaining = body ++ [last] := by
    simp [TokenStream.ofTokens, final, TokenStream.remaining]
  have inside : ∀ token ∈ body, token.kind ≠ .endOfInput := by
    intro token member
    exact (legible token member).kind_ne_endOfInput
  rw [stream, Token.throughEnd_append inside]
  simp only [Token.throughEnd, final, ↓reduceIte]

theorem parse_eq_ok {source : String} {unit : Node} (success : parse source = .ok unit) :
    ∃ tokens, tokenize source = .ok tokens ∧ parseTokens tokens = .ok unit := by
  unfold parse at success
  cases read : tokenize source with
  | error error => simp [read, bind, Except.bind] at success
  | ok tokens => exact ⟨tokens, rfl, by simpa [read, bind, Except.bind] using success⟩

theorem parse_of_tokenize {source : String} {tokens : List Token}
    (read : tokenize source = .ok tokens) : parse source = parseTokens tokens := by
  unfold parse
  rw [read]
  rfl

/-- A tree keeps every token it was read from, in order, up to the first end of input; the tree of a
source keeps all of its tokens. -/
theorem tree_keeps_tokens :
    (∀ tokens unit, parseTokens tokens = .ok unit →
      unit.tokens = Token.throughEnd (TokenStream.ofTokens tokens).remaining) ∧
    ∀ source unit, parse source = .ok unit → tokenize source = .ok unit.tokens := by
  refine ⟨fun _ _ => tokens_of_parseTokens, ?_⟩
  intro source unit success
  obtain ⟨tokens, read, parsed⟩ := parse_eq_ok success
  rw [tokens_of_parseTokens parsed, throughEnd_of_tokenize read, read]

/-- Tokens behind a first end of input are not read, and separators, strings and closures stay in
the tree. -/
theorem tree_keeps_tokens_of_closure :
    (∃ unit, parseTokens (Token.lineOf [(.identifier, "a"), (.endOfInput, ""), (.comma, ",")]) =
      .ok unit ∧
      unit.tokens = Token.lineOf [(.identifier, "a"), (.endOfInput, "")]) ∧
    ∃ unit, parse ";run 'x', \x7b a, b -> c = a[1]; b() \x7d\n" = .ok unit ∧
      tokenize ";run 'x', \x7b a, b -> c = a[1]; b() \x7d\n" = .ok unit.tokens := by
  constructor
  · have accepted :
        (parseTokens
          (Token.lineOf [(.identifier, "a"), (.endOfInput, ""), (.comma, ",")])).isOk := by
      decide +kernel
    match parsed : parseTokens (Token.lineOf [(.identifier, "a"), (.endOfInput, ""), (.comma, ",")])
      with
    | .ok unit => exact ⟨unit, rfl, (tree_keeps_tokens.1 _ _ parsed).trans (by decide +kernel)⟩
    | .error _ => simp [parsed, Except.isOk, Except.toBool] at accepted
  · have accepted : (parse ";run 'x', \x7b a, b -> c = a[1]; b() \x7d\n").isOk := by decide +kernel
    match parsed : parse ";run 'x', \x7b a, b -> c = a[1]; b() \x7d\n" with
    | .ok unit => exact ⟨unit, rfl, tree_keeps_tokens.2 _ _ parsed⟩
    | .error _ => simp [parsed, Except.isOk, Except.toBool] at accepted

end GroovyTidy
