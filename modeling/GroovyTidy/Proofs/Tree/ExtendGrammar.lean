import GroovyTidy.Proofs.Tree.Coverage
import GroovyTidy.Proofs.Tree.Extends

set_option autoImplicit false

/-!
The rules of the grammar in front of more tokens: a statement that is read up to the end of the
tokens ahead is read in the same way in front of a separator. Rules that contain others extend if
these do, whatever they are bounded by.
-/
namespace GroovyTidy.Grammar

open Lookahead Rule

variable {tail : List Token}

/-! ## Separators -/

theorem separators_extends : Extends tail false 0 separators separators := by
  intro before right forest after extended success
  obtain ⟨gap, ahead, all, rfl, stops⟩ := separators_eq_ok success
  rw [extended.eq, ahead]
  refine ⟨List.suffix_append _ _, by simp, fun wanted => ?_⟩
  rw [List.append_assoc]
  apply separators_reads all
  cases rest : after.ahead with
  | nil => simp [rest] at wanted
  | cons first others =>
    rw [rest] at stops
    exact stops

theorem separatorsAfter_extends : Extends tail false 1 separatorsAfter separatorsAfter :=
  (accept_extends TokenKind.isSeparator rfl _).append separators_extends

/-! ## Names, types and modifiers -/

theorem identifierToken_extends : Extends tail true 1 identifierToken identifierToken :=
  accept_extends TokenKind.isIdentifier rfl _

theorem identifier_extends : Extends tail true 1 identifier identifier :=
  identifierToken_extends.node _

theorem qualifiedName_extends : Extends tail true 1 qualifiedName qualifiedName :=
  (identifier_extends.append (((token_extends .dot rfl).append identifier_extends).manyPairs
    (· == .dot) TokenKind.isIdentifier rfl rfl)).node _

theorem packageDeclaration_extends : Extends tail true 1 packageDeclaration packageDeclaration :=
  ((token_extends .packageWord rfl).append qualifiedName_extends).node _

theorem importTail_extends : Extends tail true 0 importTail importTail := by
  refine .lookingAhead fun left right extended => ?_
  rw [← Lockstep.startsPair_eq extended (· == .dot) (· == .star) rfl rfl]
  split
  · exact ((token_extends .dot rfl).append (token_extends .star rfl)).mono (Nat.zero_le _)
  · exact ((token_extends .asWord rfl).append identifier_extends).whenKind .asWord rfl

theorem importDeclaration_extends : Extends tail true 1 importDeclaration importDeclaration :=
  ((((token_extends .importWord rfl).append
    ((token_extends (.modifier .staticWord) rfl).whenKind (.modifier .staticWord) rfl)).append
    qualifiedName_extends).append importTail_extends).node _

theorem modifiers_extends : Extends tail true 0 modifiers modifiers :=
  (((accept_extends TokenKind.isModifier rfl _).manyWhile fun _ _ extended =>
    Lockstep.starts_eq extended TokenKind.isModifier rfl).node _).whenStarts
      TokenKind.isModifier rfl

theorem typeArguments_extends {type other : Rule} (given : Extends tail true 1 type other) :
    Extends tail true 1 (typeArguments type) (typeArguments other) :=
  (((token_extends .less rfl).append given.commaSeparated).append (token_extends .greater rfl)).node
    _

theorem namedType_extends {type other : Rule} (given : Extends tail true 1 type other) :
    Extends tail true 1 (namedType type) (namedType other) :=
  (identifierToken_extends.append
    (((token_extends .dot rfl).append identifierToken_extends).manyPairs
      (· == .dot) TokenKind.isIdentifier rfl rfl)).append
        ((typeArguments_extends given).whenKind .less rfl)

theorem typeWithin_extends {bound otherBound : Nat} (more : bound ≤ otherBound) :
    Extends tail true 1 (typeWithin bound) (typeWithin otherBound) := by
  induction bound generalizing otherBound with
  | zero => exact refuse_extends
  | succ bound ih =>
    obtain ⟨otherBound, rfl⟩ := Nat.exists_eq_succ_of_ne_zero (Nat.ne_zero_of_lt more)
    have word : Extends tail true 1
        (lookingAhead fun ahead =>
          if starts TokenKind.isPrimitiveType ahead then
            accept TokenKind.isPrimitiveType .identifier
          else namedType (typeWithin bound))
        (lookingAhead fun ahead =>
          if starts TokenKind.isPrimitiveType ahead then
            accept TokenKind.isPrimitiveType .identifier
          else namedType (typeWithin otherBound)) := by
      refine .lookingAhead fun left right extended => ?_
      rw [← Lockstep.starts_eq extended TokenKind.isPrimitiveType rfl]
      split
      · exact accept_extends TokenKind.isPrimitiveType rfl _
      · exact namedType_extends (ih (Nat.le_of_succ_le_succ more))
    exact (word.append (((token_extends (.opening .bracket) rfl).append
      (token_extends (.closing .bracket) rfl)).manyPairs (· == .opening .bracket)
        (· == .closing .bracket) rfl rfl)).node _

theorem type_extends : Extends tail true 1 type type := by
  refine .lookingAhead fun left right extended => typeWithin_extends ?_
  rw [extended.eq, List.length_append]
  omega

/-- A type, if a name follows one. -/
theorem namedAhead_extends :
    Extends tail true 0 (Rule.when (startsTyped (starts TokenKind.isIdentifier)) type)
    (Rule.when (startsTyped (starts TokenKind.isIdentifier)) type) :=
  type_extends.when fun _ _ extended => Lockstep.startsTyped_eq extended fun _ _ extended =>
    Lockstep.starts_eq extended TokenKind.isIdentifier rfl

/-! ## Expressions -/

/-- The rules for what stands inside extend. A body leaves the brace that closes it. -/
structure Inner.Extends (tail : List Token) (inner other : Inner) : Prop where
  expression : Rule.Extends tail true 1 inner.expression other.expression
  body : Rule.Extends tail false 1 inner.body other.body

section

variable {inner other : Inner} (inside : Inner.Extends tail inner other)
include inside

theorem assigned_extends :
    Extends tail true 0 (Rule.when (startsWith .assign) (token .assign ++ inner.expression))
    (Rule.when (startsWith .assign) (token .assign ++ other.expression)) :=
  ((token_extends .assign rfl).append inside.expression).whenKind .assign rfl

theorem formalParameter_extends :
    Extends tail true 1 (formalParameter inner) (formalParameter other) :=
  (((modifiers_extends.append namedAhead_extends).prepend identifier_extends).append
    (assigned_extends inside)).node _

theorem formalParameters_extends :
    Extends tail true 1 (formalParameters inner) (formalParameters other) :=
  (((token_extends (.opening .paren) rfl).append
    ((formalParameter_extends inside).commaSeparated.unlessKind (.closing .paren) rfl)).append
    (token_extends (.closing .paren) rfl)).node _

theorem optionalBody_extends : Extends tail false 0 (optionalBody inner) (optionalBody other) :=
  inside.body.unlessKind (.closing .brace) rfl

theorem block_extends : Extends tail true 1 (block inner) (block other) :=
  ((((token_extends (.opening .brace) rfl).append separators_extends).append
    (optionalBody_extends inside)).close
    (token_extends (.closing .brace) rfl)).node _

theorem closureParameters_extends :
    Extends tail true 0 (closureParameters inner) (closureParameters other) :=
  ((formalParameter_extends inside).append
    ((token_extends .comma rfl).whenKind .comma rfl)).manyWhile
    fun _ _ extended => congrArg not (Lockstep.startsWith_eq extended .arrow rfl)

theorem closure_extends : Extends tail true 1 (closure inner) (closure other) := by
  have head : Extends tail false 0
      (Rule.when startsClosureHead (closureParameters inner ++ token .arrow ++ separators))
      (Rule.when startsClosureHead (closureParameters other ++ token .arrow ++ separators)) :=
    (((closureParameters_extends inside).inside.append (token_extends .arrow rfl)).append
      separators_extends).when
      fun _ _ extended => Lockstep.startsClosureHead_eq extended
  exact (((((token_extends (.opening .brace) rfl).append separators_extends).append head).append
    (optionalBody_extends inside)).close (token_extends (.closing .brace) rfl)).node _

theorem argumentList_extends : Extends tail true 1 (argumentList inner) (argumentList other) :=
  ((inside.expression.node _).commaSeparated).node _

theorem expressionList_extends :
    Extends tail true 1 (expressionList inner) (expressionList other) :=
  ((inside.expression.node _).commaSeparated).node _

theorem arguments_extends : Extends tail true 1 (arguments inner) (arguments other) :=
  (((token_extends (.opening .paren) rfl).append
    ((argumentList_extends inside).unlessKind (.closing .paren) rfl)).append
    (token_extends (.closing .paren) rfl)).node _

theorem listPrimary_extends : Extends tail true 1 (listPrimary inner) (listPrimary other) :=
  (((token_extends (.opening .bracket) rfl).append
    ((expressionList_extends inside).unlessKind (.closing .bracket) rfl)).append
    (token_extends (.closing .bracket) rfl)).node _

theorem primary_extends : Extends tail true 1 (primary inner) (primary other) := by
  refine .lookingAhead fun left right extended => ?_
  dsimp only
  rcases Lockstep.next_kind extended with same | ⟨leftEnds, rightEnds⟩
  · rw [← same]
    split
    · exact identifier_extends.node _
    · split
      · exact ((accept_extends TokenKind.isLiteral rfl _).node _).node _
      · split
        · exact (((token_extends (.opening .paren) rfl).append inside.expression).append
            (token_extends (.closing .paren) rfl)).node _
        · exact (closure_extends inside).node _
        · exact listPrimary_extends inside
        · exact refuse_extends
  · rcases isBoundary_cases leftEnds with kind | kind | kind <;>
    · rw [kind]
      exact refuse_extends

theorem pathStep_extends {trailer : PathTrailer} (longer : trailer ≠ .bare) :
    Extends tail true 1 (pathStep inner trailer) (pathStep other trailer) := by
  cases trailer with
  | bare => exact absurd rfl longer
  | member => exact (accept_extends TokenKind.isMemberAccess rfl _).append identifier_extends
  | arguments => exact arguments_extends inside
  | closure => exact closure_extends inside
  | index =>
    exact ((token_extends (.opening .bracket) rfl).append (expressionList_extends inside)).append
      (token_extends (.closing .bracket) rfl)

theorem pathExpression_extends :
    Extends tail true 1 (pathExpression inner) (pathExpression other) := by
  refine (primary_extends inside).bind (fun first => ?_) (fun _ => ⟨rfl, .inl rfl⟩)
    (Nat.le_add_right 1 0)
  refine Extends.map (.many fun left right extended => ?_) _
  rw [← Lockstep.trailerAhead?_eq extended]
  cases found : trailerAhead? left with
  | none => exact .none
  | some trailer =>
    exact .some (((pathStep_extends inside (trailerAhead?_ne_bare found)).node _).map fun step =>
      (trailer, step))

theorem postfixExpression_extends :
    Extends tail true 1 (postfixExpression inner) (postfixExpression other) :=
  ((pathExpression_extends inside).append
    ((accept_extends isStep rfl _).whenStarts isStep rfl)).node _

theorem expressionOver_extends :
    Extends tail true 1 (expressionOver inner) (expressionOver other) := by
  refine (postfixExpression_extends inside).bind (fun left => ?_) (fun _ => ⟨rfl, .inl rfl⟩)
    (Nat.le_add_right 1 0)
  refine .lookingAhead fun ahead right extended => ?_
  rw [← Lockstep.startsWith_eq extended .assign rfl]
  split
  · exact ((((pure_extends left).append (token_extends .assign rfl)).append inside.expression).node
      _)
  · exact (pure_extends left).node _

/-! ## Statements -/

theorem commandArguments_extends (expression : List Tree) :
    Extends tail true 0 (commandArguments inner expression)
      (commandArguments other expression) := by
  have asked : ∀ ruledOut : Bool, Extends tail true 0
      (do note .commandArguments ruledOut; if ruledOut then nothing else argumentList inner)
      (do note .commandArguments ruledOut; if ruledOut then nothing else argumentList other) := by
    intro ruledOut
    refine (note_extends _ _).bind (fun _ => ?_) (fun _ => ⟨rfl, .inl rfl⟩) (Nat.le_refl (0 + 0))
    cases ruledOut with
    | true => exact nothing_extends
    | false => exact (argumentList_extends inside).mono (Nat.zero_le _)
  exact (asked _).whenStarts TokenKind.startsExpression rfl

theorem commandExpression_extends :
    Extends tail true 1 (commandExpression inner) (commandExpression other) := by
  refine Extends.node ?_ _
  refine (expressionOver_extends inside).bind (fun expression => ?_) (fun _ => ⟨rfl, .inl rfl⟩)
    (Nat.le_add_right 1 0)
  exact (commandArguments_extends inside expression).map (expression ++ ·)

omit inside in
theorem methodName_extends : Extends tail true 1 methodName methodName := by
  refine .lookingAhead fun left right extended => ?_
  rw [← Lockstep.startsWith_eq extended (.literal .string) rfl]
  split
  · exact (token_extends (.literal .string) rfl).node _
  · exact identifier_extends

theorem methodDeclaration_extends :
    Extends tail true 1 (methodDeclaration inner) (methodDeclaration other) :=
  ((((modifiers_extends.append (type_extends.when fun _ _ extended =>
    Lockstep.startsTyped_eq extended fun _ _ extended =>
      Lockstep.startsMethodHead_eq extended)).prepend
    methodName_extends).append (formalParameters_extends inside)).append
      (block_extends inside)).node _

theorem variableDeclarator_extends :
    Extends tail true 1 (variableDeclarator inner) (variableDeclarator other) :=
  (identifier_extends.append (assigned_extends inside)).node _

theorem localVariableDeclaration_extends :
    Extends tail true 1 (localVariableDeclaration inner) (localVariableDeclaration other) :=
  ((modifiers_extends.append namedAhead_extends).prepend
    (variableDeclarator_extends inside).commaSeparated).node _

theorem returnStatement_extends :
    Extends tail true 1 (returnStatement inner) (returnStatement other) :=
  ((token_extends .returnWord rfl).append
    (inside.expression.whenStarts TokenKind.startsExpression rfl)).node _

theorem plainStatement_extends :
    Extends tail true 1 (plainStatement inner) (plainStatement other) := by
  have chosen : ∀ isMethod isVariable : Bool, Extends tail true 1
      (if isMethod then node .methodDeclarationStatement (methodDeclaration inner)
        else if isVariable then
          node .localVariableDeclarationStatement (localVariableDeclaration inner)
        else node .expressionStatement (node .commandAlternative (commandExpression inner)))
      (if isMethod then node .methodDeclarationStatement (methodDeclaration other)
        else if isVariable then
          node .localVariableDeclarationStatement (localVariableDeclaration other)
        else node .expressionStatement (node .commandAlternative (commandExpression other))) := by
    intro isMethod isVariable
    split
    · exact (methodDeclaration_extends inside).node _
    · split
      · exact (localVariableDeclaration_extends inside).node _
      · exact ((commandExpression_extends inside).node _).node _
  intro before right forest after extended success
  obtain ⟨asked, stream, shape⟩ := plainStatement_eq inner before
  have ahead : asked.ahead = before.ahead := congrArg TokenStream.pending stream
  rw [shape] at success
  have known := chosen _ _ (show ExtendedBy tail asked.ahead right from ahead ▸ extended) success
  rw [ahead] at known
  refine ⟨known.suffix, known.shorter, fun wanted start same => ?_⟩
  -- The same questions are asked in front of more tokens, and they are answered in the same way.
  obtain ⟨otherAsked, otherStream, otherShape⟩ := plainStatement_eq other start
  have both : ExtendedBy tail before.ahead start.ahead := same ▸ extended
  have call : startsCall before.ahead = startsCall start.ahead := Lockstep.startsMethodHead_eq both
  rw [otherShape, ← call, ← both.declaresMethod_eq, ← Lockstep.variableAhead_eq both]
  exact known.reads wanted otherAsked ((congrArg TokenStream.pending otherStream).trans same)

theorem statement_extends :
    Extends tail true 1 (Grammar.statement inner) (Grammar.statement other) := by
  refine .lookingAhead fun left right extended => ?_
  rw [← Lockstep.startsWith_eq extended .importWord rfl,
    ← Lockstep.startsWith_eq extended .returnWord rfl]
  split
  · exact importDeclaration_extends.node _
  · split
    · exact returnStatement_extends inside
    · exact plainStatement_extends inside

/-- Statements up to a token that does not end a statement itself. -/
theorem statements_extends {stop : TokenKind} (internal : Internal (· == stop)) :
    Extends tail false 1 (statements inner stop) (statements other stop) :=
  ((statement_extends inside).inside.append ((separatorsAfter_extends.append
    ((statement_extends inside).inside.unlessKind stop internal)).manyWhile fun _ _ extended =>
      congrArg not (Lockstep.startsWith_eq extended stop internal))).node _

end

theorem innerWithin_extends {bound otherBound : Nat} (more : bound ≤ otherBound) :
    Inner.Extends tail (innerWithin bound) (innerWithin otherBound) := by
  induction bound generalizing otherBound with
  | zero => exact ⟨refuse_extends, refuse_extends⟩
  | succ bound ih =>
    obtain ⟨otherBound, rfl⟩ := Nat.exists_eq_succ_of_ne_zero (Nat.ne_zero_of_lt more)
    have inside := ih (Nat.le_of_succ_le_succ more)
    exact ⟨expressionOver_extends inside, statements_extends inside rfl⟩

end GroovyTidy.Grammar
