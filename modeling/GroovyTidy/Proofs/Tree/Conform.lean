import GroovyTidy.Proofs.Tree.Types

set_option autoImplicit false

/-!
Every rule of the grammar gives trees that conform to it, over exactly the tokens it has consumed.
The rules contain one another through `Inner`, so the facts about it come first as assumptions and
are then proved by induction on how deep the rules are nested.
-/
namespace GroovyTidy.Grammar

open scoped Computability
open Lookahead Production Rule

/-! ## Rules that contain one another -/

/-- The rules for what stands inside give what they are asked for. -/
structure Inner.Sound (inner : Inner) : Prop where
  expression : Yields inner.expression Production.expression
  body : Yields inner.body (nodeOf .statements)

section

variable {inner : Inner} (sound : inner.Sound)
include sound

theorem assigned_yields : Yields (token .assign ++ inner.expression) assigned :=
  (token_yields (by decide)).append sound.expression

theorem formalParameter_yields : Yields (formalParameter inner) (nodeOf .formalParameter) :=
  .node (((modifiers_yields.append (.when _ type_yields)).append identifier_yields).append
    (.when _ (assigned_yields sound)))

theorem formalParameters_yields : Yields (formalParameters inner) (nodeOf .formalParameters) :=
  .node (((token_yields (by decide)).append
    (.when _ (.commaSeparated (formalParameter_yields sound)))).append (token_yields (by decide)))

theorem optionalBody_yields : Yields (optionalBody inner) (1 + nodeOf .statements) :=
  .when _ sound.body

theorem block_yields : Yields (block inner) (nodeOf .block) :=
  .node
    ((((token_yields (by decide)).append separators_yields).append
      (optionalBody_yields sound)).append
      (token_yields (by decide)))

/-! ## Parameters of closures

The rule for parameters takes a comma after each of them if one is there. That none is missing and
none is left over is known from looking ahead before the first of them. -/

omit sound in
theorem modifiers_of_type {before after : Reading} {forest : List Tree}
    (typed : startsType (kindAt before.ahead 0) = true)
    (success : modifiers before = .ok forest after) : after = before := by
  refine (when_of_false ?_ success).2
  rw [starts]
  generalize kindAt before.ahead 0 = kind at typed
  cases kind with
  | modifier word => cases typed
  | _ => rfl

omit sound in
theorem identifier_single {before after : Reading} {forest : List Tree}
    (success : identifier before = .ok forest after) :
    ∃ name, name.kind.isIdentifier = true ∧ before.ahead = name :: after.ahead := by
  obtain ⟨children, done, -⟩ := node_eq_ok.mp success
  exact identifierToken_yields.single done

omit sound in
/-- A parameter stands where a type or a modifier may start. -/
theorem formalParameter_starts {before after : Reading} {forest : List Tree}
    (success : formalParameter inner before = .ok forest after) :
    extendsType (kindAt before.ahead 0) = false := by
  by_contra extended
  rw [Bool.not_eq_false] at extended
  have test_false : ∀ test : TokenKind → Bool, test .dot = false → test .less = false →
      test (.opening .bracket) = false → test (kindAt before.ahead 0) = false := by
    intro test dot less bracket
    simp only [extendsType, Bool.or_eq_true, beq_iff_eq] at extended
    rcases extended with (same | same) | same
    · rw [same, dot]
    · rw [same, less]
    · rw [same, bracket]
  obtain ⟨children, done, -⟩ := node_eq_ok.mp success
  obtain ⟨_, _, _, head, -, -⟩ := sequence_eq_ok.mp done
  obtain ⟨_, reached, _, declared, identified, -⟩ := sequence_eq_ok.mp head
  obtain ⟨_, start, _, modified, typed, -⟩ := sequence_eq_ok.mp declared
  obtain ⟨-, rfl⟩ := when_of_false (test_false TokenKind.isModifier rfl rfl rfl) modified
  have untyped : startsTyped (starts TokenKind.isIdentifier) start.ahead = false := by
    rw [startsTyped, afterType?_none (test_false startsType rfl rfl rfl), Option.any_none]
  obtain ⟨-, rfl⟩ := when_of_false untyped typed
  obtain ⟨name, isName, ahead⟩ := identifier_single identified
  have other := test_false TokenKind.isIdentifier rfl rfl rfl
  rw [ahead] at other
  exact Bool.false_ne_true (other.symm.trans isName)

omit sound in
/-- A parameter that lookahead has found ends where it was found to end, unless it breaks off inside
a type. -/
theorem formalParameter_scanned {before after : Reading} {forest : List Tree} {rest : List Token}
    (found : afterType? before.ahead = some rest)
    (plain : startsWith .assign (skipName rest) = false)
    (success : formalParameter inner before = .ok forest after) :
    after.ahead = skipName rest ∨ extendsType (kindAt after.ahead 0) = true := by
  obtain ⟨children, done, -⟩ := node_eq_ok.mp success
  obtain ⟨_, named, _, head, optional, -⟩ := sequence_eq_ok.mp done
  obtain ⟨_, reached, _, declared, identified, -⟩ := sequence_eq_ok.mp head
  obtain ⟨_, start, _, modified, typed, -⟩ := sequence_eq_ok.mp declared
  obtain rfl := modifiers_of_type (startsType_of_afterType? found) modified
  obtain ⟨name, isName, ahead⟩ := identifier_single identified
  have test : startsTyped (starts TokenKind.isIdentifier) start.ahead =
      starts TokenKind.isIdentifier rest := by
    rw [startsTyped, found, Option.any_some]
  cases typedName : starts TokenKind.isIdentifier rest with
  | true =>
    have scanned : reached.ahead = rest := by
      rcases when_eq_ok.mp typed with ⟨-, read⟩ | ⟨failed, -, -⟩
      · exact Option.some.inj ((type_scanned read).symm.trans found)
      · rw [test, typedName] at failed
        cases failed
    have ended : named.ahead = skipName rest := by
      rw [skipName, if_pos typedName, ← scanned, ahead, List.drop_one, List.tail_cons]
    obtain ⟨-, rfl⟩ := when_of_false (ended ▸ plain) optional
    exact .inl ended
  | false =>
    obtain ⟨-, rfl⟩ := when_of_false (test.trans typedName) typed
    cases extended : extendsType (kindAt named.ahead 0) with
    | false =>
      have ended : named.ahead = skipName rest := by
        rw [ahead, afterType?_name isName extended] at found
        rw [skipName, typedName]
        exact Option.some.inj found
      obtain ⟨-, rfl⟩ := when_of_false (ended ▸ plain) optional
      exact .inl ended
    | true =>
      have unassigned : startsWith .assign named.ahead = false := by
        rw [startsWith]
        generalize kindAt named.ahead 0 = kind at extended
        cases kind with
        | assign => cases extended
        | _ => rfl
      obtain ⟨-, rfl⟩ := when_of_false unassigned optional
      exact .inr extended

omit sound in
theorem commas_cons {item : Language Tree} {first rest : List Tree} (start : first ∈ item)
    {mark : Token} (comma : mark.kind = .comma) (more : rest ∈ commas item) :
    first ++ [.token mark] ++ rest ∈ commas item := by
  obtain ⟨next, here, others, repeated, rfl⟩ := Language.mem_mul.mp more
  have pair : [Tree.token mark] ++ next ∈ leaf .comma * item :=
    Language.append_mem_mul (mem_leaf.mpr ⟨mark, comma, rfl⟩) here
  have turns : [Tree.token mark] ++ next ++ others ∈ (leaf .comma * item)∗ := by
    rw [← Language.one_add_self_mul_kstar_eq_kstar]
    exact Or.inr (Language.append_mem_mul pair repeated)
  have whole : first ++ ([Tree.token mark] ++ next ++ others) ∈ commas item :=
    Language.append_mem_mul start turns
  simpa only [List.append_assoc] using whole

/-- The parameters that lookahead has found have commas between neighbours. The induction is on the
turns, each of which starts where lookahead finds parameters. -/
theorem closureParameters_word {before after : Reading} {turns : List (List Tree)}
    (repeated : Turns (fun ahead => !startsWith .arrow ahead)
      (formalParameter inner ++ Rule.when (startsWith .comma) (token .comma)) before turns after)
    (stopped : kindAt after.ahead 0 = .arrow) {bound : Nat}
    (lists : listsParameters bound before.ahead = true) :
    turns.flatten ∈ commas (nodeOf .formalParameter) := by
  induction repeated generalizing bound with
  | done reading =>
    obtain ⟨rest, found, -⟩ := listsParameters_eq_true lists
    have typed := startsType_of_afterType? found
    rw [stopped] at typed
    cases typed
  | @step before middle after rule first rest chosen given more ih =>
    obtain ⟨-, rfl⟩ := of_chosen chosen
    obtain ⟨parameter, reached, comma, read, optional, rfl⟩ := sequence_eq_ok.mp given
    obtain ⟨rest, found, next⟩ := listsParameters_eq_true lists
    have word := (formalParameter_yields sound _ _ _ read).word
    have plain : startsWith .assign (skipName rest) = false := by
      rcases next with ⟨mark, others, smaller, shape, kind, -⟩ | arrow
      · have same : kindAt (skipName rest) 0 = .comma := by rw [shape]; exact kind
        rw [startsWith, same]
        rfl
      · rw [startsWith, arrow]
        rfl
    rcases formalParameter_scanned found plain read with ended | stuck
    · rcases next with ⟨mark, others, smaller, shape, kind, listed⟩ | arrow
      · have separated : startsWith .comma reached.ahead = true := by
          rw [ended, shape]
          exact beq_iff_eq.mpr kind
        rcases when_eq_ok.mp optional with ⟨-, accepted⟩ | ⟨failed, -, -⟩
        · obtain ⟨consumed, isComma, -⟩ := token_yields (by decide) _ _ _ accepted
          obtain ⟨found, same, rfl⟩ := mem_leaf.mp isComma
          have ahead : found :: middle.ahead = mark :: others := by
            rw [← shape, ← ended, consumed.ahead]
            rfl
          have left : middle.ahead = others := (List.cons.inj ahead).2
          rw [List.flatten_cons]
          exact commas_cons word same (ih stopped (left ▸ listed))
        · rw [separated] at failed
          cases failed
      · have last : startsWith .comma reached.ahead = false := by
          rw [ended, startsWith, arrow]
          rfl
        obtain ⟨rfl, rfl⟩ := when_of_false last optional
        -- At the arrow no further turn is taken.
        cases more with
        | done =>
          simp only [List.append_nil, List.flatten_cons, List.flatten_nil]
          have alone :=
            Language.append_mem_mul word
              (Language.nil_mem_kstar (leaf .comma * nodeOf .formalParameter))
          rwa [List.append_nil] at alone
        | step chosen =>
          have passed := (of_chosen chosen).1
          simp only [startsWith, ended, arrow] at passed
          cases passed
    · have other : startsWith .comma reached.ahead = false := by
        rw [startsWith]
        generalize kindAt reached.ahead 0 = kind at stuck
        cases kind with
        | comma => cases stuck
        | _ => rfl
      obtain ⟨rfl, rfl⟩ := when_of_false other optional
      -- Inside a type there is neither an arrow nor another parameter.
      cases more with
      | done =>
        rw [stopped] at stuck
        cases stuck
      | step chosen again =>
        obtain ⟨-, rfl⟩ := of_chosen chosen
        obtain ⟨_, _, _, read, -, -⟩ := sequence_eq_ok.mp again
        rw [formalParameter_starts read] at stuck
        cases stuck

theorem closureParameters_yields {before after : Reading} {forest : List Tree}
    (head : startsClosureHead before.ahead = true)
    (success : closureParameters inner before = .ok forest after) :
    Accounts (1 + commas (nodeOf .formalParameter)) before forest after := by
  have turn : Yields (formalParameter inner ++ Rule.when (startsWith .comma) (token .comma))
      (nodeOf .formalParameter * (1 + leaf .comma)) :=
    (formalParameter_yields sound).append (.when _ (token_yields (by decide)))
  have accounted := turn.manyWhile _ _ _ _ success
  refine ⟨accounted.consumes, ?_, accounted.conforms⟩
  obtain ⟨turns, repeated, rfl⟩ := manyWhile_eq_ok success
  rcases Bool.or_eq_true_iff.mp head with arrow | lists
  · obtain ⟨rfl, -⟩ : turns = [] ∧ before = after := by
      rw [many_of_none (by simp [arrow])] at repeated
      cases repeated
      exact ⟨rfl, rfl⟩
    exact Or.inl Language.nil_mem_one
  · have stopped : startsWith .arrow after.ahead = true := by
      have none := many_stops (fun chosen done => by
        obtain ⟨-, rfl⟩ := of_chosen chosen
        exact (turn _ _ _ done).progress ((nodeOf_begins (by decide)).mul _)) repeated
      simpa using none
    exact Or.inr (closureParameters_word sound (many_repeats repeated)
      (beq_iff_eq.mp stopped) lists)

theorem closureHead_yields : Yields (Rule.when startsClosureHead
    (closureParameters inner ++ token .arrow ++ separators)) (1 + closureHead) := by
  refine .whenPassed fun before forest after head success => ?_
  obtain ⟨front, middle, back, opened, separated, rfl⟩ := sequence_eq_ok.mp success
  obtain ⟨parameters, reached, arrow, listed, pointed, rfl⟩ := sequence_eq_ok.mp opened
  exact ((closureParameters_yields sound head listed).append
    (token_yields (by decide) _ _ _ pointed)).append
    (separators_yields _ _ _ separated)

theorem closure_yields : Yields (closure inner) (nodeOf .closure) :=
  .node
    (((((token_yields (by decide)).append separators_yields).append
      (closureHead_yields sound)).append
      (optionalBody_yields sound)).append (token_yields (by decide)))

theorem argumentList_yields : Yields (argumentList inner) (nodeOf .argumentList) :=
  .node (.commaSeparated (.node sound.expression))

theorem expressionList_yields : Yields (expressionList inner) (nodeOf .expressionList) :=
  .node (.commaSeparated (.node sound.expression))

theorem arguments_yields : Yields (arguments inner) (nodeOf .arguments) :=
  .node (((token_yields (by decide)).append (.when _ (argumentList_yields sound))).append
    (token_yields (by decide)))

omit sound in
theorem literal_yields : Yields literal (nodeOf .literal) :=
  .node (accept_yields _ rfl)

theorem listPrimary_yields : Yields (listPrimary inner) (nodeOf .listPrimary) :=
  .node (((token_yields (by decide)).append (.when _ (expressionList_yields sound))).append
    (token_yields (by decide)))

theorem primary_yields : Yields (primary inner) (nodeWhere isPrimary) := by
  refine .lookingAhead fun ahead => ?_
  dsimp only
  split
  · exact .nodeWhere rfl identifier_yields
  · split
    · exact .nodeWhere rfl literal_yields
    · split
      · exact .nodeWhere rfl
          (((token_yields (by decide)).append sound.expression).append (token_yields (by decide)))
      · exact .nodeWhere rfl (closure_yields sound)
      · exact (listPrimary_yields sound).mono (nodeOf_le_nodeWhere rfl)
      · exact refuse_yields _ _

theorem pathStep_yields {trailer : PathTrailer} (longer : trailer ≠ .bare) :
    Yields (Grammar.pathStep inner trailer) (Production.pathStep trailer) := by
  cases trailer with
  | bare => exact absurd rfl longer
  | member => exact (accept_yields _ rfl).append identifier_yields
  | arguments => exact arguments_yields sound
  | closure => exact closure_yields sound
  | index =>
    exact ((token_yields (by decide)).append (expressionList_yields sound)).append
      (token_yields (by decide))

omit sound in
theorem pathStep_le {trailer : PathTrailer} :
    Production.pathStep trailer ≤ production .pathElement := by
  intro children word
  cases trailer with
  | bare => exact absurd word (Language.notMem_zero children)
  | member => exact Or.inl (Or.inl (Or.inl word))
  | arguments => exact Or.inl (Or.inl (Or.inr word))
  | closure => exact Or.inl (Or.inr word)
  | index => exact Or.inr word

omit sound in
theorem trailerAhead?_ne_bare {ahead : List Token} {trailer : PathTrailer}
    (found : trailerAhead? ahead = some trailer) : trailer ≠ .bare := by
  unfold trailerAhead? at found
  split at found
  · cases found
    decide
  · split at found <;> cases found <;> decide

/-- A step of a path accounts for itself, and it is what it is said to be. -/
theorem pathElement_accounts {before middle : Reading} {item : Parser (PathTrailer × List Tree)}
    {step : PathTrailer × List Tree}
    (chosen : (trailerAhead? before.ahead).map (Grammar.pathElement inner) = some item)
    (given : item before = .ok step middle) :
    Accounts (nodeOf .pathElement) before step.2 middle ∧
      step.1 ≠ .bare ∧ step.2 ∈ Production.pathElement step.1 := by
  obtain ⟨trailer, found, rfl⟩ := Option.map_eq_some_iff.mp chosen
  have longer := trailerAhead?_ne_bare found
  simp only [Grammar.pathElement, bind_eq_ok, pure_eq_ok] at given
  obtain ⟨forest, reached, done, rfl, rfl⟩ := given
  obtain ⟨children, inside, rfl⟩ := node_eq_ok.mp done
  have accounted := pathStep_yields sound longer _ _ _ inside
  exact ⟨accounted.node .pathElement pathStep_le, longer, children, accounted.word, rfl⟩

omit sound in
/-- The trailer of a path is that of its last step. -/
theorem path_mem_production {first : List Tree} (start : first ∈ nodeWhere isPrimary)
    {steps : List (PathTrailer × List Tree)}
    (known : ∀ step ∈ steps, step.1 ≠ .bare ∧ step.2 ∈ Production.pathElement step.1) :
    first ++ (steps.map Prod.snd).flatten ∈
      production (.pathExpression (steps.getLast?.elim .bare Prod.fst)) := by
  rcases List.eq_nil_or_concat steps with rfl | ⟨front, last, rfl⟩
  · simpa [production] using start
  · obtain ⟨longer, ending⟩ := known last (by simp)
    have front_word : (front.map Prod.snd).flatten ∈ (nodeOf .pathElement)∗ := by
      refine Language.join_mem_kstar ?_
      intro forest member
      obtain ⟨step, inFront, rfl⟩ := List.mem_map.mp member
      obtain ⟨children, -, shape⟩ := (known step (by simp [inFront])).2
      exact ⟨.pathElement, children, rfl, shape⟩
    have word := Language.append_mem_mul (Language.append_mem_mul start front_word) ending
    have shape : (nodeWhere isPrimary * (nodeOf .pathElement)∗ * Production.pathElement last.1) =
        production (.pathExpression last.1) := by
      rcases last with ⟨trailer, forest⟩
      cases trailer with
      | bare => exact absurd rfl longer
      | member | arguments | closure | index => rfl
    rw [shape] at word
    simpa using word

theorem pathExpression_yields : Yields (pathExpression inner) (nodeWhere isPath) := by
  intro before forest after success
  simp only [pathExpression, bind_eq_ok, pure_eq_ok] at success
  obtain ⟨first, middle, started, steps, reached, repeated, rfl, rfl⟩ := success
  have start := primary_yields sound _ _ _ started
  have turns := many_repeats repeated
  have rest : Accounts (nodeOf .pathElement)∗ middle (steps.map Prod.snd).flatten reached :=
    turns.accounts fun chosen given => (pathElement_accounts sound chosen given).1
  have known := turns.forall_mem fun chosen given => (pathElement_accounts sound chosen given).2
  have whole := start.append rest
  have path : Accounts (production (.pathExpression (steps.getLast?.elim .bare Prod.fst))) before
      (first ++ (steps.map Prod.snd).flatten) reached :=
    ⟨whole.consumes, path_mem_production start.word known, whole.conforms⟩
  exact (path.node _ le_rfl).mono (nodeOf_le_nodeWhere rfl)

theorem postfixExpression_yields : Yields (postfixExpression inner) (nodeOf .postfixExpression) :=
  .node ((pathExpression_yields sound).append (.when _ (accept_yields _ rfl)))

theorem expressionOver_yields : Yields (expressionOver inner) Production.expression := by
  intro before forest after success
  simp only [expressionOver, bind_eq_ok] at success
  obtain ⟨left, middle, started, rest⟩ := success
  have start := postfixExpression_yields sound _ _ _ started
  simp only [lookingAhead] at rest
  split at rest
  · obtain ⟨children, inside, rfl⟩ := node_eq_ok.mp rest
    obtain ⟨front, reached, value, opened, valued, rfl⟩ := sequence_eq_ok.mp inside
    obtain ⟨same, unmoved, sign, kept, signed, rfl⟩ := sequence_eq_ok.mp opened
    obtain ⟨rfl, rfl⟩ := pure_eq_ok.mp kept
    have equals := token_yields (by decide) _ _ _ signed
    have right := sound.expression _ _ _ valued
    exact (((start.append equals).append right).node .assignmentAlternative le_rfl).mono
      (nodeOf_le_nodeWhere rfl)
  · obtain ⟨children, inside, rfl⟩ := node_eq_ok.mp rest
    obtain ⟨rfl, rfl⟩ := pure_eq_ok.mp inside
    exact (start.node .postfixAlternative le_rfl).mono (nodeOf_le_nodeWhere rfl)

theorem commandArguments_yields (expression : List Tree) :
    Yields (commandArguments inner expression) (1 + nodeOf .argumentList) := by
  intro before forest after success
  rcases when_eq_ok.mp success with ⟨-, done⟩ | ⟨-, rfl, rfl⟩
  · obtain ⟨_, noted, asked, given⟩ := bind_eq_ok.mp done
    have same := note_eq_ok asked
    split at given
    · exact (nothing_yields (Or.inl Language.nil_mem_one) _ _ _ given).of_stream same
    · exact ((argumentList_yields sound _ _ _ given).mono le_add_self).of_stream same
  · exact .nil (Or.inl Language.nil_mem_one) rfl

theorem commandExpression_yields :
    Yields (commandExpression inner) (nodeOf .commandExpression) := by
  refine .node ?_
  intro before forest after success
  simp only [bind_eq_ok, pure_eq_ok] at success
  obtain ⟨expression, middle, started, rest, reached, given, rfl, rfl⟩ := success
  exact (expressionOver_yields sound _ _ _ started).append
    (commandArguments_yields sound _ _ _ _ given)

/-! ## Statements -/

omit sound in
theorem methodName_yields : Yields methodName nameOfMethod := by
  refine .lookingAhead fun ahead => ?_
  split
  · intro before forest after success
    obtain ⟨children, done, rfl⟩ := node_eq_ok.mp success
    have given := token_yields (by decide) _ _ _ done
    obtain ⟨found, same, rfl⟩ := given.word
    have string : leaf (.literal .string) ≤ production .literal := by
      rintro forest ⟨found, same, rfl⟩
      refine ⟨found, ?_, rfl⟩
      rw [beq_iff_eq.mp same]
      rfl
    have literal := given.node .literal string
    exact ⟨literal.consumes, .inl ⟨found, beq_iff_eq.mp same, rfl⟩, literal.conforms⟩
  · exact identifier_yields.mono le_add_self

/-! A declaration is read only where looking ahead has found a modifier or a type before the name.
Elsewhere the rules for it would take a name alone. -/

/-- A modifier is ahead, or a type before what passes the test. -/
def StartsHead (test : List Token → Bool) (ahead : List Token) : Prop :=
  starts TokenKind.isModifier ahead = true ∨ startsTyped test ahead = true

omit sound in
theorem startsHead_of_declaresMethod {ahead : List Token} (declared : declaresMethod ahead = true) :
    StartsHead startsMethodHead ahead := by
  cases modified : starts TokenKind.isModifier ahead with
  | true => exact .inl modified
  | false =>
    refine .inr ?_
    simp only [declaresMethod, skipModifiers_bare modified, Nat.lt_irrefl, decide_false,
      Bool.false_and] at declared
    cases scanned : (afterType? ahead).filter startsMethodHead with
    | none =>
      rw [scanned] at declared
      cases declared
    | some named =>
      obtain ⟨found, passed⟩ := Option.filter_eq_some_iff.mp scanned
      rw [startsTyped, found, Option.any_some, passed]

omit sound in
theorem startsHead_of_declaresVariable {ahead : List Token}
    (declared : declaresVariable ahead = true) :
    StartsHead (starts TokenKind.isIdentifier) ahead := by
  cases modified : starts TokenKind.isModifier ahead with
  | true => exact .inl modified
  | false =>
    refine .inr ?_
    simp only [declaresVariable, skipModifiers_bare modified, Nat.lt_irrefl, decide_false,
      Bool.false_and, Bool.or_false] at declared
    obtain ⟨named, found, declarator⟩ := (Option.any_eq_true _ _).mp declared
    rw [startsDeclarator, startsPair, Bool.and_eq_true] at declarator
    rw [startsTyped, found, Option.any_some]
    exact declarator.1

omit sound in
theorem declarationHead_accounts {test : List Token → Bool} {before after : Reading}
    {forest : List Tree} (headed : StartsHead test before.ahead)
    (success : (modifiers ++ Rule.when (startsTyped test) type) before = .ok forest after) :
    Accounts declarationHead before forest after := by
  obtain ⟨front, middle, back, modified, typed, rfl⟩ := sequence_eq_ok.mp success
  cases present : starts TokenKind.isModifier before.ahead with
  | true =>
    have first := modifiers_accounts present modified
    exact (first.append (Yields.when _ type_yields _ _ _ typed)).mono le_self_add
  | false =>
    obtain ⟨rfl, rfl⟩ := when_of_false present modified
    have found : startsTyped test middle.ahead = true := by
      rcases headed with modifier | found
      · rw [present] at modifier
        cases modifier
      · exact found
    rcases when_eq_ok.mp typed with ⟨-, read⟩ | ⟨missing, -, -⟩
    · exact (type_yields _ _ _ read).mono le_add_self
    · rw [found] at missing
      cases missing

theorem methodDeclaration_accounts {before after : Reading} {forest : List Tree}
    (headed : StartsHead startsMethodHead before.ahead)
    (success : methodDeclaration inner before = .ok forest after) :
    Accounts (nodeOf .methodDeclaration) before forest after := by
  obtain ⟨children, done, rfl⟩ := node_eq_ok.mp success
  obtain ⟨_, _, _, signature, body, rfl⟩ := sequence_eq_ok.mp done
  obtain ⟨_, _, _, named, parameters, rfl⟩ := sequence_eq_ok.mp signature
  obtain ⟨_, _, _, head, name, rfl⟩ := sequence_eq_ok.mp named
  have title := (declarationHead_accounts headed head).append (methodName_yields _ _ _ name)
  exact ((title.append (formalParameters_yields sound _ _ _ parameters)).append
    (block_yields sound _ _ _ body)).node .methodDeclaration le_rfl

theorem variableDeclarator_yields :
    Yields (variableDeclarator inner) (nodeOf .variableDeclarator) :=
  .node (identifier_yields.append (.when _ (assigned_yields sound)))

theorem localVariableDeclaration_accounts {before after : Reading} {forest : List Tree}
    (headed : StartsHead (starts TokenKind.isIdentifier) before.ahead)
    (success : localVariableDeclaration inner before = .ok forest after) :
    Accounts (nodeOf .localVariableDeclaration) before forest after := by
  obtain ⟨children, done, rfl⟩ := node_eq_ok.mp success
  obtain ⟨_, _, _, head, listed, rfl⟩ := sequence_eq_ok.mp done
  have declarators := Yields.commaSeparated (variableDeclarator_yields sound) _ _ _ listed
  exact ((declarationHead_accounts headed head).append declarators).node
    .localVariableDeclaration le_rfl

theorem returnStatement_yields : Yields (returnStatement inner) (nodeOf .returnStatement) :=
  .node ((token_yields (by decide)).append (.when _ sound.expression))

omit sound in
/-- A plain statement is what the two questions before it leave open. Asking them consumes
nothing. -/
theorem plainStatement_eq (inner : Inner) (before : Reading) :
    ∃ asked : Reading, asked.stream = before.stream ∧
      plainStatement inner before =
        (if !startsCall before.ahead && declaresMethod before.ahead then
          node .methodDeclarationStatement (methodDeclaration inner)
        else if !readsAsCommand before.stream.next before.ahead && declaresVariable
          before.ahead then
          node .localVariableDeclarationStatement (localVariableDeclaration inner)
        else node .expressionStatement (node .commandAlternative (commandExpression inner)))
          asked := by
  let asked : Reading := { before with
    decisions := ⟨.methodDeclaration, startsCall before.ahead, before.stream.next⟩ ::
      before.decisions }
  let askedAgain : Reading := { asked with
    decisions := ⟨.localVariableDeclaration, readsAsCommand before.stream.next before.ahead,
      before.stream.next⟩ :: asked.decisions }
  have first : methodAhead before =
      .ok (!startsCall before.ahead && declaresMethod before.ahead) asked := rfl
  have second : variableAhead asked =
      .ok (!readsAsCommand before.stream.next before.ahead && declaresVariable before.ahead)
        askedAgain := rfl
  unfold plainStatement
  rw [bind_of_ok first]
  split
  · exact ⟨asked, rfl, rfl⟩
  · exact ⟨askedAgain, rfl, bind_of_ok second⟩

theorem plainStatement_yields : Yields (plainStatement inner) Production.statement := by
  intro before forest after success
  obtain ⟨asked, same, shape⟩ := plainStatement_eq inner before
  have ahead : asked.ahead = before.ahead := congrArg TokenStream.pending same
  rw [shape] at success
  refine Accounts.of_stream same ?_
  split at success
  · rename_i decided
    rw [Bool.and_eq_true, ← ahead] at decided
    obtain ⟨children, done, rfl⟩ := node_eq_ok.mp success
    have declared := methodDeclaration_accounts sound (startsHead_of_declaresMethod decided.2) done
    exact (declared.node .methodDeclarationStatement le_rfl).mono (nodeOf_le_nodeWhere rfl)
  · split at success
    · rename_i decided
      rw [Bool.and_eq_true, ← ahead] at decided
      obtain ⟨children, done, rfl⟩ := node_eq_ok.mp success
      have declared :=
        localVariableDeclaration_accounts sound (startsHead_of_declaresVariable decided.2) done
      exact (declared.node .localVariableDeclarationStatement le_rfl).mono (nodeOf_le_nodeWhere rfl)
    · exact Yields.nodeWhere rfl (.node (commandExpression_yields sound)) _ _ _ success

theorem statement_yields : Yields (Grammar.statement inner) Production.statement := by
  refine .lookingAhead fun ahead => ?_
  split
  · exact .nodeWhere rfl importDeclaration_yields
  · split
    · exact (returnStatement_yields sound).mono (nodeOf_le_nodeWhere rfl)
    · exact plainStatement_yields sound

end

end GroovyTidy.Grammar
