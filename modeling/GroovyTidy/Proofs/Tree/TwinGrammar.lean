import GroovyTidy.Proofs.Tree.Coverage
import GroovyTidy.Proofs.Tree.Twins

set_option autoImplicit false

/-!
The rules of the grammar are twins of themselves: on tokens ahead that are alike, each of them fails
twice or gives the same trees up to separators and places. Rules that contain others are twins if
these are, as long as there is room for the tokens.
-/
namespace GroovyTidy.Grammar

open Lookahead Rule

variable {room : Room}

/-! ## Separators -/

theorem strippedForest_separators {gap : List Token}
    (all : ∀ token ∈ gap, token.kind.isSeparator = true) :
    Tree.strippedForest (gap.map Tree.token) = [] := by
  induction gap with
  | nil => rfl
  | cons first gap ih =>
    obtain ⟨here, later⟩ := List.forall_mem_cons.mp all
    rw [List.map_cons, Tree.strippedForest, Tree.stripped, if_pos here, ih later]
    rfl

theorem sameForest_separators {gap otherGap : List Token}
    (all : ∀ token ∈ gap, token.kind.isSeparator = true)
    (otherAll : ∀ token ∈ otherGap, token.kind.isSeparator = true) :
    SameForest (gap.map Tree.token) (otherGap.map Tree.token) :=
  (strippedForest_separators all).trans (strippedForest_separators otherAll).symm

theorem settled_stops {left right : List Token} (settled : Alike.Settled left right) :
    starts TokenKind.isSeparator left = false ∧ starts TokenKind.isSeparator right = false := by
  cases settled with
  | ended => exact ⟨rfl, rfl⟩
  | @going first second left right spelled inside rest =>
    have kind : second.kind = first.kind := (congrArg Prod.fst spelled).symm
    have filled : first.kind.isSeparator = false := (Bool.or_eq_false_iff.mp inside).1
    have otherFilled : second.kind.isSeparator = false := by rw [kind, filled]
    exact ⟨filled, otherFilled⟩

/-- After separators stands something else. -/
theorem separators_stops {before after : Reading} {forest : List Tree}
    (success : separators before = .ok forest after) :
    starts TokenKind.isSeparator after.ahead = false := by
  obtain ⟨gap, -, -, -, stops⟩ := separators_eq_ok success
  exact stops

theorem separatorsAfter_stops {before after : Reading} {forest : List Tree}
    (success : separatorsAfter before = .ok forest after) :
    starts TokenKind.isSeparator after.ahead = false := by
  obtain ⟨gap, -, -, -, -, stops⟩ := separatorsAfter_eq_ok success
  exact stops

section

variable {before otherBefore : Reading} {gap rest otherGap otherRest : List Token}
  (ahead : before.ahead = gap ++ rest) (otherAhead : otherBefore.ahead = otherGap ++ otherRest)
  (all : ∀ token ∈ gap, token.kind.isSeparator = true)
  (otherAll : ∀ token ∈ otherGap, token.kind.isSeparator = true)
  (settled : Alike.Settled rest otherRest)
include ahead otherAhead all otherAll settled

/-- Separators are passed over, whatever they are. -/
theorem separators_agree :
    Agree SameForest 0 before otherBefore (separators before) (separators otherBefore) := by
  obtain ⟨stops, otherStops⟩ := settled_stops settled
  refine .of_reads (separators_reads all stops) (separators_reads otherAll otherStops)
    (sameForest_separators all otherAll) settled.alike ?_ ?_ ahead otherAhead
  · exact List.length_append ▸ Nat.le_add_left _ _
  · exact List.length_append ▸ Nat.le_add_left _ _

theorem separatorsAfter_agree (some : gap ≠ []) (otherSome : otherGap ≠ []) :
    Agree SameForest 1 before otherBefore (separatorsAfter before)
      (separatorsAfter otherBefore) := by
  obtain ⟨stops, otherStops⟩ := settled_stops settled
  have filled := List.length_pos_of_ne_nil some
  have otherFilled := List.length_pos_of_ne_nil otherSome
  refine .of_reads (separatorsAfter_reads all stops some)
    (separatorsAfter_reads otherAll otherStops otherSome) (sameForest_separators all otherAll)
    settled.alike ?_ ?_ ahead otherAhead
  · rw [List.length_append]
    omega
  · rw [List.length_append]
    omega

end

theorem separators_twins : TwinRules room 0 separators separators := by
  intro before otherBefore abreast
  obtain ⟨gap, rest, otherGap, otherRest, ahead, otherAhead, all, otherAll, settled⟩ :=
    abreast.alike.settled
  exact separators_agree ahead otherAhead all otherAll settled

/-! ## Names, types and modifiers -/

theorem identifierToken_twins : TwinRules room 1 identifierToken identifierToken :=
  accept_twins TokenKind.isIdentifier rfl _

theorem identifier_twins : TwinRules room 1 identifier identifier :=
  identifierToken_twins.node _

theorem qualifiedName_twins : TwinRules room 1 qualifiedName qualifiedName :=
  (identifier_twins.append
    (((token_twins .dot rfl).append identifier_twins).manyPairs (· == .dot) TokenKind.isIdentifier
      rfl rfl)).node _

theorem packageDeclaration_twins : TwinRules room 1 packageDeclaration packageDeclaration :=
  ((token_twins .packageWord rfl).append qualifiedName_twins).node _

theorem importTail_twins : TwinRules room 0 importTail importTail := by
  refine .lookingAhead fun left right alike => ?_
  rw [← Lockstep.startsPair_eq alike (· == .dot) (· == .star) rfl rfl]
  split
  · exact ((token_twins .dot rfl).append (token_twins .star rfl)).mono (Nat.zero_le _)
  · exact ((token_twins .asWord rfl).append identifier_twins).whenKind .asWord rfl

theorem importDeclaration_twins : TwinRules room 1 importDeclaration importDeclaration :=
  ((((token_twins .importWord rfl).append
    ((token_twins (.modifier .staticWord) rfl).whenKind (.modifier .staticWord) rfl)).append
    qualifiedName_twins).append importTail_twins).node _

theorem modifiers_twins : TwinRules room 0 modifiers modifiers :=
  ((Twins.manyWhile (fun _ _ alike => Lockstep.starts_eq alike TokenKind.isModifier rfl)
    (accept_twins TokenKind.isModifier rfl _)).node _).whenStarts TokenKind.isModifier rfl

theorem typeArguments_twins {type other : Rule} {eaten : Nat}
    (given : TwinRules room eaten type other) :
    TwinRules room.more 1 (typeArguments type) (typeArguments other) :=
  (((token_twins .less rfl).guard given.commaSeparated).append (token_twins .greater rfl)).node _

theorem namedType_twins {type other : Rule} {eaten : Nat}
    (given : TwinRules room eaten type other) :
    TwinRules room.more 1 (namedType type) (namedType other) :=
  (identifierToken_twins.append
    (((token_twins .dot rfl).append identifierToken_twins).manyPairs (· == .dot)
      TokenKind.isIdentifier rfl rfl)).append
    ((typeArguments_twins given).whenKind .less rfl)

theorem typeWithin_twins (bound otherBound : Nat) :
    TwinRules ⟨bound, otherBound⟩ 1 (typeWithin bound) (typeWithin otherBound) := by
  induction bound generalizing otherBound with
  | zero =>
    intro before otherBefore abreast
    exact absurd abreast.short (Nat.not_lt_zero _)
  | succ bound ih =>
    cases otherBound with
    | zero =>
      intro before otherBefore abreast
      exact absurd abreast.otherShort (Nat.not_lt_zero _)
    | succ otherBound =>
      have word : TwinRules (Room.more ⟨bound, otherBound⟩) 1
          (lookingAhead fun ahead =>
            if starts TokenKind.isPrimitiveType ahead then
              accept TokenKind.isPrimitiveType .identifier
            else namedType (typeWithin bound))
          (lookingAhead fun ahead =>
            if starts TokenKind.isPrimitiveType ahead then
              accept TokenKind.isPrimitiveType .identifier
            else namedType (typeWithin otherBound)) := by
        refine .lookingAhead fun left right alike => ?_
        rw [← Lockstep.starts_eq alike TokenKind.isPrimitiveType rfl]
        split
        · exact accept_twins TokenKind.isPrimitiveType rfl _
        · exact namedType_twins (ih otherBound)
      exact (word.append
        (((token_twins (.opening .bracket) rfl).append
          (token_twins (.closing .bracket) rfl)).manyPairs
          (· == .opening .bracket) (· == .closing .bracket) rfl rfl)).node _

theorem type_twins : TwinRules room 1 type type := by
  intro before otherBefore abreast
  exact typeWithin_twins _ _ ⟨abreast.alike, Nat.lt_succ_self _, Nat.lt_succ_self _⟩

/-- A type, if a name follows one. -/
theorem namedAhead_twins :
    TwinRules room 0 (Rule.when (startsTyped (starts TokenKind.isIdentifier)) type)
    (Rule.when (startsTyped (starts TokenKind.isIdentifier)) type) :=
  .when (fun _ _ alike => Lockstep.startsTyped_eq alike fun _ _ alike =>
    Lockstep.starts_eq alike TokenKind.isIdentifier rfl) type_twins

/-! ## Expressions -/

/-- The rules for what stands inside are twins. -/
structure Inner.Paired (room : Room) (inner other : Inner) : Prop where
  expression : TwinRules room 0 inner.expression other.expression
  body : TwinRules room 0 inner.body other.body

section

variable {inner other : Inner} (paired : Inner.Paired room inner other)
include paired

theorem assigned_twins :
    TwinRules room 0 (Rule.when (startsWith .assign) (token .assign ++ inner.expression))
    (Rule.when (startsWith .assign) (token .assign ++ other.expression)) :=
  ((token_twins .assign rfl).append paired.expression).whenKind .assign rfl

theorem formalParameter_twins : TwinRules room 1 (formalParameter inner) (formalParameter other) :=
  (((modifiers_twins.append namedAhead_twins).prepend identifier_twins).append
    (assigned_twins paired)).node _

theorem formalParameters_twins :
    TwinRules room.more 1 (formalParameters inner) (formalParameters other) :=
  (((token_twins (.opening .paren) rfl).guard
    ((formalParameter_twins paired).commaSeparated.unlessKind (.closing .paren) rfl)).append
    (token_twins (.closing .paren) rfl)).node _

theorem optionalBody_twins : TwinRules room 0 (optionalBody inner) (optionalBody other) :=
  paired.body.unlessKind (.closing .brace) rfl

theorem block_twins : TwinRules room.more 1 (block inner) (block other) :=
  ((((token_twins (.opening .brace) rfl).append separators_twins).guard
    (optionalBody_twins paired)).append
    (token_twins (.closing .brace) rfl)).node _

theorem closureParameters_twins :
    TwinRules room 0 (closureParameters inner) (closureParameters other) :=
  .manyWhile (fun _ _ alike => congrArg not (Lockstep.startsWith_eq alike .arrow rfl))
    ((formalParameter_twins paired).append ((token_twins .comma rfl).whenKind .comma rfl))

theorem closure_twins : TwinRules room.more 1 (closure inner) (closure other) :=
  (((((token_twins (.opening .brace) rfl).append separators_twins).guard
    (.when (fun _ _ alike => Lockstep.startsClosureHead_eq alike)
      (((closureParameters_twins paired).append (token_twins .arrow rfl)).append
        separators_twins))).guard
    (optionalBody_twins paired)).append (token_twins (.closing .brace) rfl)).node _

theorem argumentList_twins : TwinRules room 0 (argumentList inner) (argumentList other) :=
  ((paired.expression.node _).commaSeparated).node _

theorem expressionList_twins : TwinRules room 0 (expressionList inner) (expressionList other) :=
  ((paired.expression.node _).commaSeparated).node _

theorem arguments_twins : TwinRules room.more 1 (arguments inner) (arguments other) :=
  (((token_twins (.opening .paren) rfl).guard
    ((argumentList_twins paired).unlessKind (.closing .paren) rfl)).append
    (token_twins (.closing .paren) rfl)).node _

theorem listPrimary_twins : TwinRules room.more 1 (listPrimary inner) (listPrimary other) :=
  (((token_twins (.opening .bracket) rfl).guard
    ((expressionList_twins paired).unlessKind (.closing .bracket) rfl)).append
    (token_twins (.closing .bracket) rfl)).node _

theorem primary_twins : TwinRules room.more 1 (primary inner) (primary other) := by
  refine .lookingAhead fun left right alike => ?_
  dsimp only
  rcases Lockstep.next_kind alike with same | ⟨leftEnds, rightEnds⟩
  · rw [← same]
    split
    · exact identifier_twins.node _
    · split
      · exact ((accept_twins TokenKind.isLiteral rfl _).node _).node _
      · split
        · exact (((token_twins (.opening .paren) rfl).guard paired.expression).append
            (token_twins (.closing .paren) rfl)).node _
        · exact (closure_twins paired).node _
        · exact listPrimary_twins paired
        · exact refuse_twins
  · rcases isBoundary_cases leftEnds with left | left | left <;>
      rcases isBoundary_cases rightEnds with right | right | right <;> rw [left, right] <;>
        exact refuse_twins

theorem pathStep_twins {trailer : PathTrailer} (longer : trailer ≠ .bare) :
    TwinRules room.more 1 (pathStep inner trailer) (pathStep other trailer) := by
  cases trailer with
  | bare => exact absurd rfl longer
  | member => exact (accept_twins TokenKind.isMemberAccess rfl _).append identifier_twins
  | arguments => exact arguments_twins paired
  | closure => exact closure_twins paired
  | index =>
    exact ((token_twins (.opening .bracket) rfl).guard (expressionList_twins paired)).append
      (token_twins (.closing .bracket) rfl)

/-- Steps of a path that are of the same kind. -/
def SameStep (step other : PathTrailer × List Tree) : Prop :=
  step.1 = other.1 ∧ SameForest step.2 other.2

theorem pathElement_twins {trailer : PathTrailer} (longer : trailer ≠ .bare) :
    Twins room.more 1 SameStep (pathElement inner trailer) (pathElement other trailer) :=
  ((pathStep_twins paired longer).node _).map fun same => ⟨rfl, same⟩

omit paired in
/-- Paths of the same steps after the same primary expression. -/
theorem samePath {first otherFirst : List Tree} (start : SameForest first otherFirst)
    {steps otherSteps : List (PathTrailer × List Tree)}
    (each : List.Forall₂ SameStep steps otherSteps) :
    SameForest
      [.node (.pathExpression ((steps.getLast?).elim .bare Prod.fst))
        (first ++ (steps.map Prod.snd).flatten)]
      [.node (.pathExpression ((otherSteps.getLast?).elim .bare Prod.fst))
        (otherFirst ++ (otherSteps.map Prod.snd).flatten)] := by
  have trailers : steps.map Prod.fst = otherSteps.map Prod.fst := by
    rw [← List.forall₂_eq_eq_eq, List.forall₂_map_left_iff, List.forall₂_map_right_iff]
    exact each.imp fun _ _ same => same.1
  have forests : List.Forall₂ SameForest (steps.map Prod.snd) (otherSteps.map Prod.snd) := by
    rw [List.forall₂_map_left_iff, List.forall₂_map_right_iff]
    exact each.imp fun _ _ same => same.2
  have last : (steps.getLast?).elim PathTrailer.bare Prod.fst =
      (otherSteps.getLast?).elim .bare Prod.fst := by
    have ends := congrArg (fun kinds => kinds.getLast?.elim PathTrailer.bare id) trailers
    simpa only [List.getLast?_map, Option.elim_map, Function.id_comp] using ends
  rw [last]
  exact (start.append (SameForest.flatten forests)).node _

theorem pathExpression_twins :
    TwinRules room.more 1 (pathExpression inner) (pathExpression other) := by
  refine (primary_twins paired).bind (Nat.le_add_right _ _) (Nat.le_add_right _ _)
    (Nat.le_add_right 1 0)
    fun start => ?_
  refine Twins.map (Twins.many fun left right alike => ?_) fun each => samePath start each
  rw [← Lockstep.trailerAhead?_eq alike]
  cases found : trailerAhead? left with
  | none => exact .none
  | some trailer => exact .some (pathElement_twins paired (trailerAhead?_ne_bare found))

theorem postfixExpression_twins :
    TwinRules room.more 1 (postfixExpression inner) (postfixExpression other) :=
  ((pathExpression_twins paired).append ((accept_twins isStep rfl _).whenStarts isStep rfl)).node _

theorem expressionOver_twins :
    TwinRules room.more 1 (expressionOver inner) (expressionOver other) := by
  refine (postfixExpression_twins paired).bind (Nat.le_refl _) (Nat.le_refl _)
    (Nat.le_add_right 1 0) fun same => ?_
  refine .lookingAhead fun left right alike => ?_
  rw [← Lockstep.startsWith_eq alike .assign rfl]
  split
  · exact (((pure_twins same).append (token_twins .assign rfl)).append paired.expression).node _
  · exact (pure_twins same).node _

end

/-! ## Commands -/

/-- Whether an expression ends in a call is seen without separators and places. -/
theorem endsInCall_stripped {tree : Tree} (conforms : tree.Conforms) :
    tree.stripped.any endsInCall = endsInCall tree := by
  cases tree with
  | token leaf =>
    rw [Tree.stripped]
    split <;> rfl
  | node kind children =>
    rw [Tree.stripped, List.any_cons, List.any_nil, Bool.or_false]
    cases kind with
    | postfixAlternative =>
      obtain ⟨below, rfl⟩ := Production.mem_nodeOf.mp conforms.word
      have word := (conforms.children _ List.mem_cons_self).word
      obtain ⟨path, ⟨kind, steps, isPath, rfl⟩, tail, last, rfl⟩ := Language.mem_mul.mp word
      have trailer : ∃ trailer, kind = .pathExpression trailer := by
        cases kind with
        | pathExpression trailer => exact ⟨trailer, rfl⟩
        | _ => cases isPath
      obtain ⟨trailer, rfl⟩ := trailer
      rcases last with none | ⟨token, step, rfl⟩
      · cases none
        cases trailer <;> rfl
      · have filled : token.kind.isSeparator = false := by
          cases kind : token.kind with
          | increment | decrement => rfl
          | _ =>
            rw [kind] at step
            cases step
        have shown : Tree.strippedForest
            ([.node (.pathExpression trailer) steps] ++ [.token token]) =
            [.node (.pathExpression trailer) (Tree.strippedForest steps),
              .token token.unplaced] := by
          rw [Tree.strippedForest_append, Tree.strippedForest_singleton,
            Tree.strippedForest_singleton, Tree.stripped, Tree.stripped, filled]
          rfl
        rw [Tree.strippedForest_singleton, Tree.stripped, shown]
        cases trailer <;> rfl
    | _ => rfl

theorem any_endsInCall_eq {forest other : List Tree} (same : SameForest forest other)
    (conforms : ∀ tree ∈ forest, tree.Conforms) (otherConforms : ∀ tree ∈ other, tree.Conforms) :
    forest.any endsInCall = other.any endsInCall := by
  have stripped : ∀ {forest : List Tree}, (∀ tree ∈ forest, tree.Conforms) →
      (Tree.strippedForest forest).any endsInCall = forest.any endsInCall := by
    intro forest conforms
    induction forest with
    | nil => rfl
    | cons tree forest ih =>
      obtain ⟨here, later⟩ := List.forall_mem_cons.mp conforms
      rw [Tree.strippedForest, List.any_append, endsInCall_stripped here, ih later, List.any_cons]
  rw [← stripped conforms, ← stripped otherConforms, same]

section

variable {inner other : Inner} (paired : Inner.Paired room inner other) (sound : inner.Sound)
  (otherSound : other.Sound)

include paired in
theorem commandArguments_twins {expression otherExpression : List Tree}
    (same : expression.any endsInCall = otherExpression.any endsInCall) :
    TwinRules room 0 (commandArguments inner expression)
      (commandArguments other otherExpression) := by
  have asked : ∀ ruledOut : Bool, TwinRules room 0
      (do note .commandArguments ruledOut; if ruledOut then nothing else argumentList inner)
      (do note .commandArguments ruledOut; if ruledOut then nothing else argumentList other) := by
    intro ruledOut
    refine note_twins.bind (Nat.le_refl _) (Nat.le_refl _) (Nat.le_add_right 0 0) fun _ => ?_
    cases ruledOut with
    | true => exact nothing_twins
    | false => exact argumentList_twins paired
  unfold commandArguments
  rw [← same]
  exact (asked _).whenStarts TokenKind.startsExpression rfl

include paired sound otherSound

theorem commandExpression_twins :
    TwinRules room.more 1 (commandExpression inner) (commandExpression other) := by
  have conforms : ∀ {inner : Inner}, inner.Sound →
      Meets (expressionOver inner) fun _ forest _ => ∀ tree ∈ forest, tree.Conforms :=
    fun sound before forest after success =>
      (expressionOver_yields sound before forest after success).conforms
  refine Twins.node ?_ _
  refine ((expressionOver_twins paired).meeting (conforms sound) (conforms otherSound)).bind
    (Nat.le_refl _) (Nat.le_refl _) (Nat.le_add_right 1 0) fun known => ?_
  obtain ⟨same, below, otherBelow⟩ := known
  exact (commandArguments_twins paired (any_endsInCall_eq same below otherBelow)).map fun rest =>
    same.append rest

/-! ## Statements -/

omit paired sound otherSound in
theorem methodName_twins : TwinRules room 1 methodName methodName := by
  refine .lookingAhead fun left right alike => ?_
  rw [← Lockstep.startsWith_eq alike (.literal .string) rfl]
  split
  · exact (token_twins (.literal .string) rfl).node _
  · exact identifier_twins

omit sound otherSound in
theorem methodDeclaration_twins :
    TwinRules room.more 1 (methodDeclaration inner) (methodDeclaration other) :=
  ((((modifiers_twins.append
    (.when (fun _ _ alike => Lockstep.startsTyped_eq alike fun _ _ alike =>
      Lockstep.startsMethodHead_eq alike)
      type_twins)).prepend methodName_twins).append (formalParameters_twins paired)).append
        (block_twins paired)).node _

omit sound otherSound in
theorem variableDeclarator_twins :
    TwinRules room.more 1 (variableDeclarator inner) (variableDeclarator other) :=
  (identifier_twins.guard (assigned_twins paired)).node _

omit sound otherSound in
theorem localVariableDeclaration_twins :
    TwinRules room.more 1 (localVariableDeclaration inner) (localVariableDeclaration other) :=
  ((modifiers_twins.append namedAhead_twins).prepend
    (variableDeclarator_twins paired).commaSeparated).node _

omit sound otherSound in
theorem returnStatement_twins :
    TwinRules room.more 1 (returnStatement inner) (returnStatement other) :=
  ((token_twins .returnWord rfl).guard
    (paired.expression.whenStarts TokenKind.startsExpression rfl)).node _

theorem plainStatement_twins :
    TwinRules room.more 1 (plainStatement inner) (plainStatement other) := by
  intro before otherBefore abreast
  obtain ⟨asked, stream, shape⟩ := plainStatement_eq inner before
  obtain ⟨otherAsked, otherStream, otherShape⟩ := plainStatement_eq other otherBefore
  have alike := abreast.alike
  have call : startsCall before.ahead = startsCall otherBefore.ahead :=
    Lockstep.startsMethodHead_eq alike
  rw [shape, otherShape, ← call, ← alike.declaresMethod_eq, ← Lockstep.variableAhead_eq alike]
  refine Twins.of_stream ?_ abreast stream otherStream
  split
  · exact (methodDeclaration_twins paired).node _
  · split
    · exact (localVariableDeclaration_twins paired).node _
    · exact ((commandExpression_twins paired sound otherSound).node _).node _

theorem statement_twins :
    TwinRules room.more 1 (Grammar.statement inner) (Grammar.statement other) := by
  refine .lookingAhead fun left right alike => ?_
  rw [← Lockstep.startsWith_eq alike .importWord rfl,
    ← Lockstep.startsWith_eq alike .returnWord rfl]
  split
  · exact importDeclaration_twins.node _
  · split
    · exact returnStatement_twins paired
    · exact plainStatement_twins paired sound otherSound

/-! ## Lists of statements -/

omit paired sound otherSound in
theorem statementTurn_refused {stop : TokenKind} {before : Reading}
    (filled : starts TokenKind.isSeparator before.ahead = false) (forest : List Tree)
    (after : Reading) : statementTurn inner stop before ≠ .ok forest after := by
  intro success
  obtain ⟨seps, middle, rest, separated, -, -⟩ := sequence_eq_ok.mp success
  rw [separatorsAfter_starts separated] at filled
  cases filled

omit paired otherSound in
/-- Where a list of statements is not to stop at the end of input, it fails there. -/
theorem statementTurn_spent {stop : TokenKind} (inside : isBoundary stop = false) {before : Reading}
    (all : ∀ token ∈ before.ahead, token.kind.isSeparator = true) (forest : List Tree)
    (after : Reading) : statementTurn inner stop before ≠ .ok forest after := by
  intro success
  obtain ⟨seps, middle, rest, separated, optional, -⟩ := sequence_eq_ok.mp success
  have some : before.ahead ≠ [] := by
    intro none
    have start := separatorsAfter_starts separated
    rw [none] at start
    cases start
  have whole : Reads separatorsAfter (before.ahead ++ []) _ [] := separatorsAfter_reads all rfl some
  obtain ⟨reached, done, ended⟩ := whole before (List.append_nil _).symm
  rw [done] at separated
  cases separated
  rcases when_eq_ok.mp optional with ⟨-, stated⟩ | ⟨stopped, -, -⟩
  · have shorter := (statement_yields sound _ _ _ stated).progress Production.statement_begins
    rw [ended] at shorter
    cases shorter
  · rw [ended, Bool.not_eq_false'] at stopped
    have same : TokenKind.endOfInput = stop := beq_iff_eq.mp stopped
    rw [← same] at inside
    cases inside

/-- After a statement: only separators are left where the end of input stops the list, or both lists
stop, or both go on in the same way. -/
theorem statementTurn_agrees {stop : TokenKind} (filled : stop.isSeparator = false)
    {before otherBefore : Reading} (abreast : Abreast room.more before otherBefore) :
    (stop = .endOfInput ∧ (∀ token ∈ before.ahead, token.kind.isSeparator = true) ∧
        ∀ token ∈ otherBefore.ahead, token.kind.isSeparator = true) ∨
      (startsWith stop before.ahead = true ∧ startsWith stop otherBefore.ahead = true) ∨
      (startsWith stop before.ahead = false ∧ startsWith stop otherBefore.ahead = false ∧
        Agree SameForest 1 before otherBefore (statementTurn inner stop before)
          (statementTurn other stop otherBefore)) := by
  obtain ⟨alike, short, otherShort⟩ := abreast
  generalize ahead : before.ahead = left at alike ⊢
  generalize otherAhead : otherBefore.ahead = right at alike ⊢
  cases alike with
  | spent leftAll rightAll =>
    by_cases ended : stop = .endOfInput
    · exact .inl ⟨ended, leftAll, rightAll⟩
    · have inside : isBoundary stop = false := by
        rw [isBoundary, filled, Bool.false_or]
        exact beq_eq_false_iff_ne.mpr ended
      have goesOn : ∀ {tokens : List Token}, (∀ token ∈ tokens, token.kind.isSeparator = true) →
          startsWith stop tokens = false := by
        intro tokens all
        refine beq_eq_false_iff_ne.mpr fun same => ?_
        have ends := isBoundary_of_separators all
        rw [same, inside] at ends
        cases ends
      refine .inr (.inr ⟨goesOn leftAll, goesOn rightAll, .of_ne_ok ?_ ?_⟩)
      · exact statementTurn_spent sound inside (by rwa [ahead])
      · exact statementTurn_spent otherSound inside (by rwa [otherAhead])
  | @same first second left right spelled inside rest =>
    have same : startsWith stop (second :: right) = startsWith stop (first :: left) :=
      congrArg (fun spelling : Spelling => spelling.1 == stop) spelled.symm
    rw [same]
    cases startsWith stop (first :: left) with
    | true => exact .inr (.inl ⟨rfl, rfl⟩)
    | false =>
      obtain ⟨stops, otherStops⟩ := settled_stops (.going spelled inside rest)
      refine .inr (.inr ⟨rfl, rfl, .of_ne_ok ?_ ?_⟩)
      · exact statementTurn_refused (by rwa [ahead])
      · exact statementTurn_refused (by rwa [otherAhead])
  | @apart first second leftGap rightGap left right leftSome leftAll rightSome rightAll spelled
    inside rest =>
    have settled : Alike.Settled (first :: left) (second :: right) := .going spelled inside rest
    refine .inr (.inr ⟨startsWith_separators leftAll leftSome filled _,
      startsWith_separators rightAll rightSome filled _, ?_⟩)
    refine (separatorsAfter_agree ahead otherAhead leftAll rightAll settled leftSome
      rightSome).append
      (Nat.le_add_right 1 0) fun done otherDone alike shorter otherShorter => ?_
    have reached :=
      alike.settled_of_stops (separatorsAfter_stops done) (separatorsAfter_stops otherDone)
    refine (statement_twins paired sound otherSound).whenAt ⟨alike, by omega, by omega⟩ ?_
    rw [reached.startsWith_eq]

/-- The lists are in the end the same trees up to separators and places, in however many turns they
were read. -/
def SameTurns (turns otherTurns : List (List Tree)) : Prop :=
  SameForest turns.flatten otherTurns.flatten

/-- Statements after a first one, turn by turn. The induction is on the bound of the first run. -/
theorem statementTurns_agree {stop : TokenKind} (filled : stop.isSeparator = false)
    {bound otherBound : Nat} {before otherBefore : Reading}
    (abreast : Abreast room.more before otherBefore) (enough : before.ahead.length < bound)
    (otherEnough : otherBefore.ahead.length < otherBound) :
    Agree SameTurns 0 before otherBefore
      (repeatWithin (fun ahead =>
        if !startsWith stop ahead then some (statementTurn inner stop) else none) bound before)
      (repeatWithin (fun ahead =>
        if !startsWith stop ahead then some (statementTurn other stop) else none) otherBound
        otherBefore) := by
  induction bound generalizing otherBound before otherBefore with
  | zero => cases enough
  | succ bound ih =>
    obtain ⟨rfl, leftAll, rightAll⟩ | ⟨stopped, otherStopped⟩ | ⟨goesOn, otherGoesOn, first⟩ :=
      statementTurn_agrees paired sound otherSound filled abreast
    · -- Separators before the end of input may take a turn in one of the runs only.
      obtain ⟨turns, rounds, flat⟩ := separators_rounds leftAll inner
      obtain ⟨otherTurns, otherRounds, otherFlat⟩ := separators_rounds rightAll other
      obtain ⟨after, done, afterAhead⟩ := rounds.chain.repeatWithin enough _ rfl
      obtain ⟨otherAfter, otherDone, otherAfterAhead⟩ :=
        otherRounds.chain.repeatWithin otherEnough _ rfl
      have same : SameTurns turns otherTurns := by
        rw [SameTurns, flat, otherFlat]
        exact sameForest_separators leftAll rightAll
      have passed :
          Agree SameTurns 0 before otherBefore (.ok turns after) (.ok otherTurns otherAfter) := by
        refine .passed same ?_ ?_ ?_
        · rw [afterAhead, otherAfterAhead]
          exact Alike.Settled.ended.alike
        · rw [afterAhead]
          exact Nat.zero_le _
        · rw [otherAfterAhead]
          exact Nat.zero_le _
      rw [← done, ← otherDone] at passed
      exact passed
    · cases otherBound with
      | zero => cases otherEnough
      | succ otherBound =>
        rw [repeatWithin_none (by rw [stopped]; rfl), repeatWithin_none (by rw [otherStopped]; rfl)]
        exact .passed rfl abreast.alike (Nat.le_refl _) (Nat.le_refl _)
    · cases otherBound with
      | zero => cases otherEnough
      | succ otherBound =>
        have short := abreast.short
        have otherShort := abreast.otherShort
        rw [repeatWithin_some (by rw [goesOn]; rfl), repeatWithin_some (by rw [otherGoesOn]; rfl)]
        refine first.turn (fun same more => same.append more) fun alike shorter otherShorter => ?_
        exact ih ⟨alike, by omega, by omega⟩ (by omega) (by omega)

theorem statements_twins {stop : TokenKind} (filled : stop.isSeparator = false) :
    TwinRules room.more 1 (statements inner stop) (statements other stop) := by
  have turns :
      TwinRules room.more 0 (manyWhile (fun ahead => !startsWith stop ahead)
        (statementTurn inner stop))
      (manyWhile (fun ahead => !startsWith stop ahead) (statementTurn other stop)) := by
    unfold manyWhile
    rw [← bind_pure_comp, ← bind_pure_comp]
    have looped : Twins room.more 0 SameTurns (many _) (many _) := fun _ _ abreast =>
      statementTurns_agree paired sound otherSound filled abreast (Nat.lt_succ_self _)
        (Nat.lt_succ_self _)
    exact looped.map fun same => same
  exact ((statement_twins paired sound otherSound).append turns).node _

end

theorem innerWithin_paired (bound otherBound : Nat) :
    Inner.Paired ⟨bound, otherBound⟩ (innerWithin bound) (innerWithin otherBound) := by
  induction bound generalizing otherBound with
  | zero =>
    constructor <;>
    · intro before otherBefore abreast
      exact absurd abreast.short (Nat.not_lt_zero _)
  | succ bound ih =>
    cases otherBound with
    | zero =>
      constructor <;>
      · intro before otherBefore abreast
        exact absurd abreast.otherShort (Nat.not_lt_zero _)
    | succ otherBound =>
      have paired := ih otherBound
      exact ⟨(expressionOver_twins paired).mono (Nat.zero_le _),
        (statements_twins paired (innerWithin_sound bound) (innerWithin_sound otherBound) rfl).mono
          (Nat.zero_le _)⟩

/-! ## Compilation units -/

/-- What follows a package: separators, or the end of input. -/
def packageTail : Rule :=
  lookingAhead fun ahead => if startsWith .endOfInput ahead then nothing else separatorsAfter

theorem packageTail_eq_ok {before after : Reading} {forest : List Tree}
    (success : packageTail before = .ok forest after) :
    ∃ gap, before.ahead = gap ++ after.ahead ∧ (∀ token ∈ gap, token.kind.isSeparator = true) ∧
      forest = gap.map Tree.token ∧ starts TokenKind.isSeparator after.ahead = false ∧
      isBoundary (kindAt before.ahead 0) = true := by
  unfold packageTail lookingAhead at success
  dsimp only at success
  split at success
  · rename_i ended
    obtain ⟨rfl, rfl⟩ := pure_eq_ok.mp success
    refine ⟨[], rfl, List.forall_mem_nil _, rfl, ?_⟩
    rw [starts, beq_iff_eq.mp ended]
    exact ⟨rfl, rfl⟩
  · have start : (kindAt before.ahead 0).isSeparator = true := separatorsAfter_starts success
    obtain ⟨gap, -, ahead, all, rfl, stops⟩ := separatorsAfter_eq_ok success
    refine ⟨gap, ahead, all, rfl, stops, ?_⟩
    rw [isBoundary, start]
    rfl

theorem packageTail_reads {gap rest : List Token}
    (all : ∀ token ∈ gap, token.kind.isSeparator = true)
    (stops : starts TokenKind.isSeparator rest = false) (apart : gap = [] → rest = []) :
    Reads packageTail (gap ++ rest) (gap.map Tree.token) rest := by
  refine .lookingAhead ?_
  by_cases none : gap = []
  · rw [none, apart none]
    exact nothing_reads []
  · rw [startsWith_separators all none rfl]
    exact separatorsAfter_reads all stops none

theorem packageTail_twins : TwinRules room 0 packageTail packageTail := by
  intro before otherBefore abreast
  have alike := abreast.alike
  generalize ahead : before.ahead = left at alike
  generalize otherAhead : otherBefore.ahead = right at alike
  cases alike with
  | spent leftAll rightAll =>
    rw [← List.append_nil left] at ahead
    rw [← List.append_nil right] at otherAhead
    exact .of_reads (packageTail_reads leftAll rfl fun _ => rfl)
      (packageTail_reads rightAll rfl fun _ => rfl) (sameForest_separators leftAll rightAll)
      Alike.Settled.ended.alike (Nat.zero_le _) (Nat.zero_le _) ahead otherAhead
  | @same first second left right spelled inside rest =>
    have otherInside : isBoundary second.kind = false := by
      rw [← show first.kind = second.kind from congrArg Prod.fst spelled]
      exact inside
    refine .of_ne_ok (fun forest after success => ?_) fun forest after success => ?_
    · obtain ⟨gap, -, -, -, -, ends⟩ := packageTail_eq_ok success
      rw [ahead, show kindAt (first :: left) 0 = first.kind from rfl, inside] at ends
      cases ends
    · obtain ⟨gap, -, -, -, -, ends⟩ := packageTail_eq_ok success
      rw [otherAhead, show kindAt (second :: right) 0 = second.kind from rfl, otherInside] at ends
      cases ends
  | apart leftSome leftAll rightSome rightAll spelled inside rest =>
    have settled := Alike.Settled.going spelled inside rest
    obtain ⟨stops, otherStops⟩ := settled_stops settled
    refine .of_reads (packageTail_reads leftAll stops fun none => absurd none leftSome)
      (packageTail_reads rightAll otherStops fun none => absurd none rightSome)
      (sameForest_separators leftAll rightAll) settled.alike ?_ ?_ ahead otherAhead
    · exact List.length_append ▸ Nat.le_add_left _ _
    · exact List.length_append ▸ Nat.le_add_left _ _

theorem packageHead_twins : TwinRules room 1 packageHead packageHead :=
  packageDeclaration_twins.append packageTail_twins

/-- The separators at the start of a unit, and the package with what follows it. -/
def unitHead : Rule :=
  separators ++ Rule.when (startsWith .packageWord) packageHead

theorem unitHead_stops {before after : Reading} {forest : List Tree}
    (success : unitHead before = .ok forest after) :
    starts TokenKind.isSeparator after.ahead = false := by
  obtain ⟨seps, middle, head, separated, packaged, -⟩ := sequence_eq_ok.mp success
  rcases when_eq_ok.mp packaged with ⟨-, declared⟩ | ⟨-, -, rfl⟩
  · obtain ⟨declaration, reached, tail, -, tailDone, -⟩ := sequence_eq_ok.mp declared
    obtain ⟨gap, -, -, -, stops, -⟩ := packageTail_eq_ok tailDone
    exact stops
  · exact separators_stops separated

/-- All of a unit before the end of input. -/
def unitInside (inner : Inner) : Rule :=
  unitHead ++ Rule.when (fun ahead => !startsWith .endOfInput ahead) (statements inner .endOfInput)

section

variable {inner : Inner} (sound : inner.Sound)
include sound

theorem unitInside_stops {before after : Reading} {forest : List Tree}
    (success : unitInside inner before = .ok forest after) :
    startsWith .endOfInput after.ahead = true := by
  obtain ⟨head, middle, tail, -, optional, -⟩ := sequence_eq_ok.mp success
  rcases when_eq_ok.mp optional with ⟨-, stated⟩ | ⟨ended, -, rfl⟩
  · obtain ⟨children, -, -, stopped⟩ :=
      statements_accounts sound (fun done _ => statement_yields sound _ _ _ done) stated
    exact stopped
  · simpa using ended

theorem unitInside_consumes {before after : Reading} {forest : List Tree}
    (success : unitInside inner before = .ok forest after) :
    before.Consumes (Tree.forestTokens forest) after := by
  have tail : Yields packageTail (1 + Production.separatorRun) := by
    refine .lookingAhead fun ahead => ?_
    split
    · exact nothing_yields (Or.inl Language.nil_mem_one)
    · exact separatorsAfter_yields.mono le_add_self
  have head :=
    separators_yields.append (Yields.when (startsWith .packageWord)
      (packageDeclaration_yields.append tail))
  exact (head.append (.when _ (statements_yields sound .endOfInput)) _ _ _ success).consumes

end

theorem unitInside_agrees {inner other : Inner} (paired : Inner.Paired room inner other)
    (sound : inner.Sound) (otherSound : other.Sound) {before otherBefore : Reading}
    {gap rest otherGap otherRest : List Token} (ahead : before.ahead = gap ++ rest)
    (otherAhead : otherBefore.ahead = otherGap ++ otherRest)
    (all : ∀ token ∈ gap, token.kind.isSeparator = true)
    (otherAll : ∀ token ∈ otherGap, token.kind.isSeparator = true)
    (settled : Alike.Settled rest otherRest) (short : before.ahead.length < room.more.left)
    (otherShort : otherBefore.ahead.length < room.more.right) :
    Agree SameForest 0 before otherBefore (unitInside inner before)
      (unitInside other otherBefore) := by
  have head : Agree SameForest 0 before otherBefore (unitHead before) (unitHead otherBefore) := by
    refine (separators_agree ahead otherAhead all otherAll settled).append (Nat.zero_le (0 + 0))
      fun _ _ alike shorter otherShorter => ?_
    exact packageHead_twins.whenAt (⟨alike, by omega, by omega⟩ : Abreast room.more _ _)
      (Lockstep.startsWith_eq alike .packageWord rfl)
  refine head.append (Nat.zero_le (0 + 0)) fun done otherDone alike shorter otherShorter => ?_
  have reached := alike.settled_of_stops (unitHead_stops done) (unitHead_stops otherDone)
  refine (statements_twins paired sound otherSound rfl).whenAt ⟨alike, by omega, by omega⟩ ?_
  rw [reached.startsWith_eq]

theorem token_endOfInput {reading : Reading} (ended : reading.ahead = []) :
    ∃ after, token .endOfInput reading = .ok [.token reading.stream.final] after ∧
      after.ahead = [] := by
  have pending : reading.stream.pending = [] := ended
  have next : reading.stream.next = reading.stream.final := by
    rw [TokenStream.next, pending]
    rfl
  have accepted : (reading.stream.next.kind == .endOfInput) = true := by
    rw [next, reading.stream.final_kind]
    rfl
  refine ⟨_, accept_eq_ok.mpr ⟨accepted, by rw [next], rfl⟩, ?_⟩
  simp only [Reading.ahead, TokenStream.advance, pending]

/-- Units that are laid out differently are both refused, or both read as the same tree up to
separators and places. -/
theorem compilationUnit_agrees {before otherBefore : Reading}
    {gap rest otherGap otherRest : List Token} (ahead : before.ahead = gap ++ rest)
    (otherAhead : otherBefore.ahead = otherGap ++ otherRest)
    (all : ∀ token ∈ gap, token.kind.isSeparator = true)
    (otherAll : ∀ token ∈ otherGap, token.kind.isSeparator = true)
    (settled : Alike.Settled rest otherRest)
    (ends : before.stream.final.spelling = otherBefore.stream.final.spelling) :
    Agree SameForest 0 before otherBefore (compilationUnit before)
      (compilationUnit otherBefore) := by
  have sound := innerWithin_sound (before.ahead.length + 1)
  have otherSound := innerWithin_sound (otherBefore.ahead.length + 1)
  have body :=
    unitInside_agrees (innerWithin_paired (before.ahead.length + 1) (otherBefore.ahead.length + 1))
      sound otherSound ahead otherAhead all otherAll settled
      (Nat.lt_succ_of_lt (Nat.lt_succ_self _))
      (Nat.lt_succ_of_lt (Nat.lt_succ_self _))
  refine (body.append (Nat.zero_le (0 + 0)) fun done otherDone alike _ _ => ?_).node
    .compilationUnit
  obtain ⟨ended, otherEnded⟩ :=
    alike.both_ended (unitInside_stops sound done) (unitInside_stops otherSound otherDone)
  obtain ⟨after, read, afterAhead⟩ := token_endOfInput ended
  obtain ⟨otherAfter, otherRead, otherAfterAhead⟩ := token_endOfInput otherEnded
  have same : SameForest [.token before.stream.final] [.token otherBefore.stream.final] :=
    .token ends
  rw [read, otherRead, (unitInside_consumes sound done).final,
    (unitInside_consumes otherSound otherDone).final]
  refine .passed same ?_ ?_ ?_
  · rw [afterAhead, otherAfterAhead]
    exact Alike.Settled.ended.alike
  · rw [afterAhead]
    exact Nat.zero_le _
  · rw [otherAfterAhead]
    exact Nat.zero_le _

end GroovyTidy.Grammar
