import GroovyTidy.Proofs.Tree.Depth
import GroovyTidy.Proofs.Tree.Scan

set_option autoImplicit false

/-!
Progress. Past the end of a stream the end of input is seen for ever, and to consume it changes
nothing, so a loop that does not move on would never end. None does: what gives a node has consumed
the tokens of the node and there is at least one, every turn of a loop consumes a token, and looking
ahead stops at the end of input. So neither loops nor rules that contain one another go on for
longer than there are tokens.
-/
namespace GroovyTidy

open Lookahead Production

/-! ## Loops -/

namespace Rule

section

variable {α : Type} {choose : List Token → Option (Parser α)}

/-- Every turn consumes a token. -/
theorem Repeats.length_le (takes : ∀ ahead item, choose ahead = some item → Takes 1 item)
    {before after : Reading} {values : List α} (turns : Repeats choose before values after) :
    values.length + after.ahead.length ≤ before.ahead.length := by
  induction turns with
  | done reading => simp
  | step chosen given more ih =>
    have shorter := takes _ _ chosen _ _ _ given
    rw [List.length_cons]
    omega

end

end Rule

namespace Grammar

open Rule

/-- The loops of the grammar. -/
inductive Loop where
  | separators
  /-- The dots and names of a qualified name. -/
  | names
  | modifiers
  /-- The dots and names of a type. -/
  | typeNames
  /-- The pairs of brackets after a type. -/
  | brackets
  | typeArguments
  | formalParameters
  | closureParameters
  | declarators
  | arguments
  | expressions
  /-- The steps of a path. -/
  | path
  /-- Statements up to a token of a kind. -/
  | statements (stop : TokenKind)

namespace Loop

/-- What a turn of a loop gives. -/
def Item : Loop → Type
  | path => PathTrailer × List Tree
  | _ => List Tree

/-- What is done in front of the tokens ahead, if the loop goes on. -/
def choose : (loop : Loop) → List Token → Option (Parser loop.Item)
  | separators, ahead =>
    if starts TokenKind.isSeparator ahead then some (accept TokenKind.isSeparator .separator)
    else none
  | names, ahead =>
    if startsPair (· == .dot) TokenKind.isIdentifier ahead then some (token .dot ++ identifier)
    else none
  | modifiers, ahead =>
    if starts TokenKind.isModifier ahead then some (accept TokenKind.isModifier .identifier)
    else none
  | typeNames, ahead =>
    if startsPair (· == .dot) TokenKind.isIdentifier ahead then some (token .dot ++ identifierToken)
    else none
  | brackets, ahead =>
    if startsPair (· == .opening .bracket) (· == .closing .bracket) ahead then
      some (token (.opening .bracket) ++ token (.closing .bracket))
    else none
  | typeArguments, ahead => if startsWith .comma ahead then some (token .comma ++ type) else none
  | formalParameters, ahead =>
    if startsWith .comma ahead then some (token .comma ++ formalParameter unbounded) else none
  | closureParameters, ahead =>
    if !startsWith .arrow ahead then
      some (formalParameter unbounded ++ Rule.when (startsWith .comma) (token .comma))
    else none
  | declarators, ahead =>
    if startsWith .comma ahead then some (token .comma ++ variableDeclarator unbounded) else none
  | arguments, ahead =>
    if startsWith .comma ahead then
      some (token .comma ++ node .argumentListElement unbounded.expression)
    else none
  | expressions, ahead =>
    if startsWith .comma ahead then
      some (token .comma ++ node .expressionListElement unbounded.expression)
    else none
  | path, ahead => (trailerAhead? ahead).map (pathElement unbounded)
  | statements stop, ahead =>
    if !startsWith stop ahead then some (statementTurn unbounded stop) else none

/-- The rule of the grammar in which a loop stands. -/
def rule : Loop → Rule
  | separators => Grammar.separators
  | names => qualifiedName
  | modifiers => Grammar.modifiers
  | typeNames => namedType type
  | brackets => typeOver type
  | typeArguments => Grammar.typeArguments type
  | formalParameters => Grammar.formalParameters unbounded
  | closureParameters => Grammar.closureParameters unbounded
  | declarators => localVariableDeclaration unbounded
  | arguments => argumentList unbounded
  | expressions => expressionList unbounded
  | path => pathExpression unbounded
  | statements stop => Grammar.statements unbounded stop

/-- What stands around a loop. -/
def around : (loop : Loop) → Parser (List loop.Item) → Rule
  | separators, turns | closureParameters, turns => List.flatten <$> turns
  | names, turns => node .qualifiedName (identifier ++ List.flatten <$> turns)
  | modifiers, turns =>
    Rule.when (starts TokenKind.isModifier) (node .modifiers (List.flatten <$> turns))
  | typeNames, turns =>
    identifierToken ++ List.flatten <$> turns ++
      Rule.when (startsWith .less) (Grammar.typeArguments type)
  | brackets, turns =>
    node .type
      ((lookingAhead fun ahead =>
          if starts TokenKind.isPrimitiveType ahead then
            accept TokenKind.isPrimitiveType .identifier
          else namedType type) ++
        List.flatten <$> turns)
  | typeArguments, turns =>
    node .typeArguments (token .less ++ (type ++ List.flatten <$> turns) ++ token .greater)
  | formalParameters, turns =>
    node .formalParameters
      (token (.opening .paren) ++
        Rule.when (fun ahead => !startsWith (.closing .paren) ahead)
          (formalParameter unbounded ++ List.flatten <$> turns) ++
        token (.closing .paren))
  | declarators, turns =>
    node .localVariableDeclaration
      (Grammar.modifiers ++ Rule.when (startsTyped (starts TokenKind.isIdentifier)) type ++
        (variableDeclarator unbounded ++ List.flatten <$> turns))
  | arguments, turns =>
    node .argumentList (node .argumentListElement unbounded.expression ++ List.flatten <$> turns)
  | expressions, turns =>
    node .expressionList (node .expressionListElement unbounded.expression ++
      List.flatten <$> turns)
  | path, turns => do
    let first ← primary unbounded
    let steps ← turns
    return [.node (.pathExpression ((steps.getLast?).elim .bare Prod.fst))
      (first ++ (steps.map Prod.snd).flatten)]
  | statements _, turns => node .statements (statement unbounded ++ List.flatten <$> turns)

end Loop

/-- A token in front of a rule is consumed. -/
theorem takes_after_token {kind : TokenKind} (inside : kind ≠ .endOfInput) {rule : Rule}
    {language : Language Tree} (given : Yields rule language) : Takes 1 (token kind ++ rule) :=
  (token_takes inside).append given.takes

/-- Every turn of a loop consumes a token. -/
theorem Loop.takes (loop : Loop) {ahead : List Token} {item : Parser loop.Item}
    (chosen : loop.choose ahead = some item) : Takes 1 item := by
  have only {test : Bool} {rule : Rule} {item : Rule} (takes : Takes 1 rule)
      (chosen : (if test then some rule else none) = some item) : Takes 1 item := by
    obtain ⟨-, rfl⟩ := of_chosen chosen
    exact takes
  have sound := unbounded_sound
  cases loop with
  | separators | modifiers => exact only (accept_takes _ rfl) chosen
  | names => exact only (takes_after_token (by decide) identifier_yields) chosen
  | typeNames => exact only (takes_after_token (by decide) identifierToken_yields) chosen
  | brackets => exact only (takes_after_token (by decide) (token_yields (by decide))) chosen
  | typeArguments => exact only (takes_after_token (by decide) type_yields) chosen
  | formalParameters =>
    exact only (takes_after_token (by decide) (formalParameter_yields sound)) chosen
  | declarators =>
    exact only (takes_after_token (by decide) (variableDeclarator_yields sound)) chosen
  | arguments =>
    have element :
        Yields (node .argumentListElement unbounded.expression) (nodeOf .argumentListElement) :=
      .node sound.expression
    exact only (takes_after_token (by decide) element) chosen
  | expressions =>
    have element :
        Yields (node .expressionListElement unbounded.expression) (nodeOf .expressionListElement) :=
      .node sound.expression
    exact only (takes_after_token (by decide) element) chosen
  | closureParameters =>
    have comma : Yields (token .comma) (leaf .comma) := token_yields (by decide)
    have parameter := (formalParameter_yields sound).takes_one (nodeOf_begins (by decide))
    exact only (parameter.append (Yields.when _ comma).takes) chosen
  | path => exact pathElement_takes sound chosen
  | statements stop =>
    refine only ?_ chosen
    intro before forest after success
    exact statementTurn_progress sound success

/-! ## Procedures -/

/-- The rules that give a node. -/
inductive Procedure where
  | compilationUnit
  | packageDeclaration
  | qualifiedName
  | statements (stop : TokenKind)
  | statement
  | returnStatement
  | importDeclaration
  | modifiers
  | methodDeclaration
  | methodName
  | formalParameters
  | formalParameter
  | localVariableDeclaration
  | variableDeclarator
  | type
  | typeArguments
  | block
  | commandExpression
  | expression
  | postfixExpression
  | pathExpression
  | arguments
  | argumentList
  | expressionList
  | primary
  | closure
  | identifier

namespace Procedure

/-- The rule of a procedure, given the rules for what stands inside and for the types in type
arguments. -/
def ruleOver (inner : Inner) (argument : Rule) : Procedure → Rule
  | compilationUnit => compilationUnitOver inner
  | packageDeclaration => Grammar.packageDeclaration
  | qualifiedName => Grammar.qualifiedName
  | statements stop => Grammar.statements inner stop
  | statement => Grammar.statement inner
  | returnStatement => Grammar.returnStatement inner
  | importDeclaration => Grammar.importDeclaration
  | modifiers => Grammar.modifiers
  | methodDeclaration => Grammar.methodDeclaration inner
  | methodName => Grammar.methodName
  | formalParameters => Grammar.formalParameters inner
  | formalParameter => Grammar.formalParameter inner
  | localVariableDeclaration => Grammar.localVariableDeclaration inner
  | variableDeclarator => Grammar.variableDeclarator inner
  | type => typeOver argument
  | typeArguments => Grammar.typeArguments argument
  | block => Grammar.block inner
  | commandExpression => Grammar.commandExpression inner
  | expression => expressionOver inner
  | postfixExpression => Grammar.postfixExpression inner
  | pathExpression => Grammar.pathExpression inner
  | arguments => Grammar.arguments inner
  | argumentList => Grammar.argumentList inner
  | expressionList => Grammar.expressionList inner
  | primary => Grammar.primary inner
  | closure => Grammar.closure inner
  | identifier => Grammar.identifier

/-- The rule of a procedure. -/
def rule (procedure : Procedure) : Rule :=
  procedure.ruleOver unbounded Grammar.type

end Procedure

end Grammar

/-! ## Looking ahead -/

namespace Scan

variable (stream : TokenStream) (k : Nat)

end Scan

end GroovyTidy
