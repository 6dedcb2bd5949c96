import GroovyTidy.Proofs.Tree.Lookahead
import GroovyTidy.Proofs.Tree.Yield

set_option autoImplicit false

/-!
Names, modifiers and types. They contain no other rules, so what they give is known at once; and
what is left after a type is what lookahead has found to follow it.
-/
namespace GroovyTidy

open scoped Computability
open Lookahead Production Rule

namespace Grammar

/-! ## Names, types and modifiers -/

theorem separators_yields : Yields separators separator∗ :=
  .manyWhile _ (accept_yields _ rfl)

theorem separatorsAfter_yields : Yields separatorsAfter separatorRun :=
  (accept_yields _ rfl).append separators_yields

theorem identifierToken_yields : Yields identifierToken (leafWhere TokenKind.isIdentifier) :=
  accept_yields _ rfl

theorem identifier_yields : Yields identifier (nodeOf .identifier) :=
  .node identifierToken_yields

theorem qualifiedName_yields : Yields qualifiedName (nodeOf .qualifiedName) :=
  .node
    (identifier_yields.append (.manyWhile _ ((token_yields (by decide)).append identifier_yields)))

theorem packageDeclaration_yields : Yields packageDeclaration (nodeOf .packageDeclaration) :=
  .node ((token_yields (by decide)).append qualifiedName_yields)

theorem importTail_yields :
    Yields importTail (leaf .dot * leaf .star + (1 + leaf .asWord * nodeOf .identifier)) := by
  refine .lookingAhead fun ahead => ?_
  split
  · exact ((token_yields (by decide)).append (token_yields (by decide))).mono le_self_add
  · exact (Yields.when _ ((token_yields (by decide)).append identifier_yields)).mono le_add_self

theorem importDeclaration_yields : Yields importDeclaration (nodeOf .importDeclaration) :=
  .node ((((token_yields (by decide)).append (.when _ (token_yields (by decide)))).append
    qualifiedName_yields).append importTail_yields)

/-- Modifiers that are ahead, at least one, make one node. -/
theorem modifiers_accounts {before after : Reading} {forest : List Tree}
    (present : starts TokenKind.isModifier before.ahead = true)
    (success : modifiers before = .ok forest after) :
    Accounts (nodeOf .modifiers) before forest after := by
  rcases when_eq_ok.mp success with ⟨-, done⟩ | ⟨absent, -, -⟩
  · obtain ⟨children, repeated, rfl⟩ := node_eq_ok.mp done
    obtain ⟨first, middle, turns, given, more, rfl⟩ := manyWhile_first present repeated
    have accepting :
        Yields (accept TokenKind.isModifier .identifier) (leafWhere TokenKind.isModifier) :=
      accept_yields _ rfl
    have front := accepting _ _ _ given
    have back := accepting.turns more
    exact (front.append back).node .modifiers le_rfl
  · rw [present] at absent
    cases absent

theorem modifiers_yields : Yields modifiers (1 + nodeOf .modifiers) := by
  intro before forest after success
  cases present : starts TokenKind.isModifier before.ahead with
  | true => exact (modifiers_accounts present success).mono le_add_self
  | false =>
    obtain ⟨rfl, rfl⟩ := when_of_false present success
    exact .nil (Or.inl Language.nil_mem_one) rfl

theorem typeArguments_yields {type : Rule} (given : Yields type (nodeOf .type)) :
    Yields (typeArguments type) (nodeOf .typeArguments) :=
  .node (((token_yields (by decide)).append (.commaSeparated given)).append
    (token_yields (by decide)))

theorem namedType_yields {type : Rule} (given : Yields type (nodeOf .type)) :
    Yields (Grammar.namedType type) Production.namedType :=
  (identifierToken_yields.append
    (.manyWhile _ ((token_yields (by decide)).append identifierToken_yields))).append
      (.when _ (typeArguments_yields given))

theorem typeWithin_yields (bound : Nat) : Yields (typeWithin bound) (nodeOf .type) := by
  induction bound with
  | zero => exact refuse_yields _ _
  | succ bound ih =>
    refine .node (.append (.lookingAhead fun ahead => ?_)
      (.manyWhile _ ((token_yields (by decide)).append (token_yields (by decide)))))
    split
    · exact (accept_yields _ rfl).mono le_self_add
    · exact (namedType_yields ih).mono le_add_self

theorem type_yields : Yields type (nodeOf .type) :=
  .lookingAhead fun _ => typeWithin_yields _

end Grammar

/-! ## Types as they are scanned -/

namespace Rule

theorem Yields.single {rule : Rule} {test : TokenKind → Bool} (given : Yields rule (leafWhere test))
    {before after : Reading} {forest : List Tree} (success : rule before = .ok forest after) :
    ∃ token, test token.kind = true ∧ before.ahead = token :: after.ahead := by
  obtain ⟨consumed, ⟨token, passed, rfl⟩, -⟩ := given _ _ _ success
  exact ⟨token, passed, consumed.ahead⟩

theorem Yields.pair {rule : Rule} {first second : TokenKind → Bool}
    (given : Yields rule (leafWhere first * leafWhere second)) {before after : Reading}
    {forest : List Tree} (success : rule before = .ok forest after) :
    ∃ left right, before.ahead = left :: right :: after.ahead := by
  obtain ⟨consumed, word, -⟩ := given _ _ _ success
  obtain ⟨_, ⟨left, -, rfl⟩, _, ⟨right, -, rfl⟩, rfl⟩ := Language.mem_mul.mp word
  exact ⟨left, right, consumed.ahead⟩

/-- Pairs of tokens that are read as long as they are ahead are skipped by looking ahead. -/
theorem manyWhile_skipPairs {first second : TokenKind → Bool} {rule : Rule}
    (given : Yields rule (leafWhere first * leafWhere second)) {before after : Reading}
    {forest : List Tree}
    (success : manyWhile (startsPair first second) rule before = .ok forest after) :
    after.ahead = skipPairs first second before.ahead := by
  obtain ⟨turns, repeated, -⟩ := manyWhile_eq_ok success
  have stopped : startsPair first second after.ahead = false := by
    have none := many_stops (fun chosen done => by
      obtain ⟨-, rfl⟩ := of_chosen chosen
      obtain ⟨left, right, ahead⟩ := given.pair done
      rw [ahead, List.length_cons, List.length_cons]
      omega) repeated
    simpa using none
  have laps := many_repeats repeated
  clear success repeated
  induction laps with
  | done reading =>
    match shape : reading.ahead with
    | [] => rfl
    | [token] => rfl
    | left :: right :: rest =>
      rw [shape] at stopped
      have apart : (first left.kind && second right.kind) = false := stopped
      rw [skipPairs, apart]
      rfl
  | @step before middle after item value rest chosen done more ih =>
    obtain ⟨passed, rfl⟩ := of_chosen chosen
    obtain ⟨left, right, ahead⟩ := given.pair done
    rw [ahead] at passed
    have together : (first left.kind && second right.kind) = true := passed
    rw [ih stopped, ahead, skipPairs, if_pos together]

end Rule

namespace Grammar

/-- From readings with fewer tokens ahead than the bound, what the rule leaves is what the scan
finds. -/
def Scans (rule : Rule) (scan : List Token → Option (List Token)) (bound : Nat) : Prop :=
  ∀ before forest after, before.ahead.length < bound → rule before = .ok forest after →
    scan before.ahead = some after.ahead

section

variable {type : Rule} (typed : Yields type (nodeOf .type))
  {scan : List Token → Option (List Token)} {bound : Nat} (scans : Scans type scan bound)
include typed scans

/-- A list of types is scanned up to its closing bracket. The induction is on the types after a
comma. -/
theorem afterTypeList?_turns {before middle last after : Reading} {first closing : List Tree}
    {turns : List (List Tree)} (short : before.ahead.length < bound)
    (given : type before = .ok first middle)
    (repeated : Turns (startsWith .comma) (token .comma ++ type) middle turns last)
    (closed : token .greater last = .ok closing after) {limit : Nat}
    (enough : before.ahead.length < limit) :
    afterTypeList? scan limit before.ahead = some after.ahead := by
  induction repeated generalizing before first limit with
  | done reading =>
    have found := scans _ _ _ short given
    obtain ⟨bracket, same, ahead⟩ := (token_yields (by decide)).single closed
    have kind : bracket.kind = .greater := beq_iff_eq.mp same
    obtain ⟨limit, rfl⟩ := Nat.exists_eq_succ_of_ne_zero (Nat.ne_zero_of_lt enough)
    rw [ahead] at found
    simp [afterTypeList?, found, kind]
  | @step middle reached last item value others chosen done more ih =>
    obtain ⟨-, rfl⟩ := of_chosen chosen
    obtain ⟨comma, start, next, separated, again, -⟩ := sequence_eq_ok.mp done
    obtain ⟨mark, same, ahead⟩ := (token_yields (by decide)).single separated
    have kind : mark.kind = .comma := beq_iff_eq.mp same
    have found := scans _ _ _ short given
    have consumed := (typed _ _ _ given).consumes.length
    have length : middle.ahead.length = start.ahead.length + 1 := by rw [ahead, List.length_cons]
    obtain ⟨limit, rfl⟩ := Nat.exists_eq_succ_of_ne_zero (Nat.ne_zero_of_lt enough)
    have rest := ih (by omega) again closed (show start.ahead.length < limit by omega)
    rw [ahead] at found
    simpa [afterTypeList?, found, kind] using rest

theorem typeArguments_scanned {before after : Reading} {forest : List Tree}
    (short : before.ahead.length ≤ bound) (success : typeArguments type before = .ok forest after)
    {limit : Nat} (enough : before.ahead.length ≤ limit) :
    ∃ opening inside, before.ahead = opening :: inside ∧ opening.kind = .less ∧
      afterTypeList? scan limit inside = some after.ahead := by
  obtain ⟨children, done, -⟩ := node_eq_ok.mp success
  obtain ⟨front, last, closing, listed, closed, -⟩ := sequence_eq_ok.mp done
  obtain ⟨bracket, start, types, opened, all, -⟩ := sequence_eq_ok.mp listed
  obtain ⟨first, middle, rest, given, repeated, -⟩ := sequence_eq_ok.mp all
  obtain ⟨turns, more, -⟩ := manyWhile_eq_ok repeated
  obtain ⟨opening, same, ahead⟩ := (token_yields (by decide)).single opened
  have length : before.ahead.length = start.ahead.length + 1 := by rw [ahead, List.length_cons]
  refine ⟨opening, start.ahead, ahead, beq_iff_eq.mp same, ?_⟩
  exact afterTypeList?_turns typed scans (by omega) given (many_repeats more) closed (by omega)

end

theorem namedType_scanned {bound limit : Nat}
    (scans : Scans (typeWithin bound) (afterTypeWithin? limit) limit) {before after : Reading}
    {forest : List Tree} (short : before.ahead.length ≤ limit)
    (success : Grammar.namedType (typeWithin bound) before = .ok forest after) :
    afterTypeWithin? (limit + 1) before.ahead = some (skipBrackets after.ahead) := by
  obtain ⟨front, middle, arguments, named, optional, -⟩ := sequence_eq_ok.mp success
  obtain ⟨name, start, more, first, dotted, -⟩ := sequence_eq_ok.mp named
  obtain ⟨head, isName, ahead⟩ := identifierToken_yields.single first
  have primitive : head.kind.isPrimitiveType = false :=
    TokenKind.eq_false_of_simple (Bool.or_eq_true_iff.mpr (.inl isName)) _ rfl rfl fun _ => rfl
  have names : middle.ahead = skipNames start.ahead :=
    manyWhile_skipPairs ((token_yields (by decide)).append identifierToken_yields) dotted
  have length : before.ahead.length = start.ahead.length + 1 := by rw [ahead, List.length_cons]
  have shorter := skipPairs_length (· == .dot) TokenKind.isIdentifier start.ahead
  change (skipNames start.ahead).length ≤ _ at shorter
  rw [ahead, afterTypeWithin?, primitive, isName, ← names]
  rw [← names] at shorter
  rcases when_eq_ok.mp optional with ⟨opens, done⟩ | ⟨closed, -, rfl⟩
  · obtain ⟨opening, inside, shape, kind, found⟩ :=
      typeArguments_scanned (typeWithin_yields bound) scans (by omega) done shorter
    simp [shape, kind, found]
  · cases shape : middle.ahead with
    | nil => simp [skipBrackets, skipPairs]
    | cons token inside =>
      rw [shape] at closed
      have plain : token.kind ≠ .less := beq_eq_false_iff_ne.mp closed
      simp [plain]

theorem typeWithin_scanned (bound limit : Nat) :
    Scans (typeWithin bound) (afterTypeWithin? limit) limit := by
  induction bound generalizing limit with
  | zero =>
    intro before forest after _ success
    exact absurd success refuse_ne_ok
  | succ bound ih =>
    intro before forest after short success
    obtain ⟨limit, rfl⟩ := Nat.exists_eq_succ_of_ne_zero (Nat.ne_zero_of_lt short)
    obtain ⟨children, done, -⟩ := node_eq_ok.mp success
    obtain ⟨front, middle, back, base, bracketed, -⟩ := sequence_eq_ok.mp done
    have brackets : after.ahead = skipBrackets middle.ahead :=
      manyWhile_skipPairs ((token_yields (by decide)).append (token_yields (by decide))) bracketed
    rw [brackets]
    simp only [lookingAhead] at base
    split at base
    · obtain ⟨word, primitive, ahead⟩ := (accept_yields _ rfl).single base
      rw [ahead, afterTypeWithin?, if_pos primitive]
    · exact namedType_scanned (ih limit) (by omega) base

/-- What is left after a type is what lookahead finds after it. -/
theorem type_scanned {before after : Reading} {forest : List Tree}
    (success : type before = .ok forest after) : afterType? before.ahead = some after.ahead :=
  typeWithin_scanned _ _ _ _ _ (Nat.lt_succ_self _) success

end Grammar

end GroovyTidy
