import GroovyTidy.Token.Source
import GroovyTidy.Tree.Rule

set_option autoImplicit false

/-!
The grammar.

* A compilation unit is a package declaration and statements, each of them optional, with
  separators.
* A statement is an import, a return, the declaration of a method or of variables, or a command: an
  expression that may have arguments after it without parentheses.
* An expression is a path of calls, closures, members and indices after a primary expression,
  perhaps with an increment or a decrement, and perhaps with a value assigned to it.
-/
namespace GroovyTidy.Grammar

open Lookahead Rule

def separators : Rule :=
  manyWhile (starts TokenKind.isSeparator) (accept TokenKind.isSeparator .separator)

def separatorsAfter : Rule :=
  accept TokenKind.isSeparator .separator ++ separators

def identifierToken : Rule :=
  accept TokenKind.isIdentifier .identifier

def identifier : Rule :=
  node .identifier identifierToken

def qualifiedName : Rule :=
  node .qualifiedName
    (identifier ++ manyWhile (startsPair (· == .dot) TokenKind.isIdentifier)
      (token .dot ++ identifier))

def packageDeclaration : Rule :=
  node .packageDeclaration (token .packageWord ++ qualifiedName)

/-- After an imported name: all of its members, or a name of its own for it. -/
def importTail : Rule :=
  lookingAhead fun ahead =>
    if startsPair (· == .dot) (· == .star) ahead then token .dot ++ token .star
    else when (startsWith .asWord) (token .asWord ++ identifier)

def importDeclaration : Rule :=
  node .importDeclaration
    (token .importWord ++
      when (startsWith (.modifier .staticWord)) (token (.modifier .staticWord)) ++ qualifiedName ++
      importTail)

/-! ## Types and modifiers -/

/-- A node for the modifiers ahead, if there are any. -/
def modifiers : Rule :=
  when (starts TokenKind.isModifier)
    (node .modifiers
      (manyWhile (starts TokenKind.isModifier) (accept TokenKind.isModifier .identifier)))

def typeArguments (type : Rule) : Rule :=
  node .typeArguments (token .less ++ commaSeparated type ++ token .greater)

/-- A name of a type with its arguments, given the rule for these. -/
def namedType (type : Rule) : Rule :=
  identifierToken ++
    manyWhile (startsPair (· == .dot) TokenKind.isIdentifier) (token .dot ++ identifierToken) ++
    when (startsWith .less) (typeArguments type)

/-- A type whose arguments are nested less deep than a bound. -/
def typeWithin : Nat → Rule
  | 0 => refuse .identifier
  | bound + 1 => fun reading =>
    node .type
      ((lookingAhead fun ahead =>
          if starts TokenKind.isPrimitiveType ahead then
            accept TokenKind.isPrimitiveType .identifier
          else namedType (typeWithin bound)) ++
        manyWhile (startsPair (· == .opening .bracket) (· == .closing .bracket))
          (token (.opening .bracket) ++ token (.closing .bracket)))
      reading

/-- A type. Arguments inside one another take a token each, so they are not nested deeper than the
number of tokens. -/
def type : Rule :=
  lookingAhead fun ahead => typeWithin (ahead.length + 1)

/-! ## Rules that contain one another -/

/-- The rules for what stands inside a delimiter or after an assignment. -/
structure Inner where
  expression : Rule
  /-- Statements up to a closing brace. -/
  body : Rule

def formalParameter (inner : Inner) : Rule :=
  node .formalParameter
    (modifiers ++ when (startsTyped (starts TokenKind.isIdentifier)) type ++ identifier ++
      when (startsWith .assign) (token .assign ++ inner.expression))

def formalParameters (inner : Inner) : Rule :=
  node .formalParameters
    (token (.opening .paren) ++
      when (fun ahead => !startsWith (.closing .paren) ahead)
        (commaSeparated (formalParameter inner)) ++
      token (.closing .paren))

/-- Statements up to a closing brace, if there are any. -/
def optionalBody (inner : Inner) : Rule :=
  when (fun ahead => !startsWith (.closing .brace) ahead) inner.body

def block (inner : Inner) : Rule :=
  node .block (token (.opening .brace) ++ separators ++ optionalBody inner ++
    token (.closing .brace))

/-- Parameters of a closure, up to its arrow. -/
def closureParameters (inner : Inner) : Rule :=
  manyWhile (fun ahead => !startsWith .arrow ahead)
    (formalParameter inner ++ when (startsWith .comma) (token .comma))

def closure (inner : Inner) : Rule :=
  node .closure
    (token (.opening .brace) ++ separators ++
      when startsClosureHead (closureParameters inner ++ token .arrow ++ separators) ++
      optionalBody inner ++ token (.closing .brace))

def argumentList (inner : Inner) : Rule :=
  node .argumentList (commaSeparated (node .argumentListElement inner.expression))

def expressionList (inner : Inner) : Rule :=
  node .expressionList (commaSeparated (node .expressionListElement inner.expression))

def arguments (inner : Inner) : Rule :=
  node .arguments
    (token (.opening .paren) ++
      when (fun ahead => !startsWith (.closing .paren) ahead) (argumentList inner) ++
      token (.closing .paren))

def literal : Rule :=
  node .literal (accept TokenKind.isLiteral .expression)

def listPrimary (inner : Inner) : Rule :=
  node .listPrimary
    (token (.opening .bracket) ++
      when (fun ahead => !startsWith (.closing .bracket) ahead) (expressionList inner) ++
      token (.closing .bracket))

def primary (inner : Inner) : Rule :=
  lookingAhead fun ahead =>
    let kind := kindAt ahead 0
    if kind.isIdentifier then node .identifierPrimary identifier
    else if kind.isLiteral then node .literalPrimary literal
    else
      match kind with
      | .opening .paren =>
        node .parenthesizedPrimary
          (token (.opening .paren) ++ inner.expression ++ token (.closing .paren))
      | .opening .brace => node .closurePrimary (closure inner)
      | .opening .bracket => listPrimary inner
      | _ => refuse .expression

/-- What the tokens ahead go on a path with, if they do. -/
def trailerAhead? (ahead : List Token) : Option PathTrailer :=
  if startsPair TokenKind.isMemberAccess TokenKind.isIdentifier ahead then some .member
  else
    match kindAt ahead 0 with
    | .opening .paren => some .arguments
    | .opening .brace => some .closure
    | .opening .bracket => some .index
    | _ => none

/-- The inside of one step of a path. -/
def pathStep (inner : Inner) : PathTrailer → Rule
  | .bare => nothing
  | .member => accept TokenKind.isMemberAccess .identifier ++ identifier
  | .arguments => arguments inner
  | .closure => closure inner
  | .index => token (.opening .bracket) ++ expressionList inner ++ token (.closing .bracket)

/-- A step of a path together with what it is. -/
def pathElement (inner : Inner) (trailer : PathTrailer) : Parser (PathTrailer × List Tree) := do
  return (trailer, ← node .pathElement (pathStep inner trailer))

def pathExpression (inner : Inner) : Rule := do
  let first ← primary inner
  let steps ← many fun ahead => (trailerAhead? ahead).map (pathElement inner)
  let trailer := (steps.getLast?).elim .bare Prod.fst
  return [.node (.pathExpression trailer) (first ++ (steps.map Prod.snd).flatten)]

def isStep (kind : TokenKind) : Bool :=
  kind == .increment || kind == .decrement

def postfixExpression (inner : Inner) : Rule :=
  node .postfixExpression (pathExpression inner ++ when (starts isStep) (accept isStep .expression))

/-- An expression, given the rules for what stands inside it. -/
def expressionOver (inner : Inner) : Rule := do
  let left ← postfixExpression inner
  lookingAhead fun ahead =>
    if startsWith .assign ahead then
      node .assignmentAlternative (pure left ++ token .assign ++ inner.expression)
    else node .postfixAlternative (pure left)

/-- The expression is a path that ends in a call or a closure, so that it takes no more
arguments. -/
def endsInCall : Tree → Bool
  | .node .postfixAlternative [.node .postfixExpression [.node (.pathExpression .arguments) _]] =>
    true
  | .node .postfixAlternative [.node .postfixExpression [.node (.pathExpression .closure) _]] =>
    true
  | _ => false

/-- Arguments without parentheses after an expression that can take them. -/
def commandArguments (inner : Inner) (expression : List Tree) : Rule :=
  when (starts TokenKind.startsExpression) do
    let ruledOut := expression.any endsInCall
    note .commandArguments ruledOut
    if ruledOut then nothing else argumentList inner

def commandExpression (inner : Inner) : Rule :=
  node .commandExpression do
    let expression ← expressionOver inner
    let rest ← commandArguments inner expression
    return expression ++ rest

/-! ## Statements -/

def methodName : Rule :=
  lookingAhead fun ahead =>
    if startsWith (.literal .string) ahead then node .literal (token (.literal .string))
    else identifier

def methodDeclaration (inner : Inner) : Rule :=
  node .methodDeclaration
    (modifiers ++ when (startsTyped startsMethodHead) type ++ methodName ++
      formalParameters inner ++ block inner)

def variableDeclarator (inner : Inner) : Rule :=
  node .variableDeclarator (identifier ++
    when (startsWith .assign) (token .assign ++ inner.expression))

def localVariableDeclaration (inner : Inner) : Rule :=
  node .localVariableDeclaration
    (modifiers ++ when (startsTyped (starts TokenKind.isIdentifier)) type ++
      commaSeparated (variableDeclarator inner))

def returnStatement (inner : Inner) : Rule :=
  node .returnStatement (token .returnWord ++
    when (starts TokenKind.startsExpression) inner.expression)

def methodAhead : Parser Bool := do
  let reading ← get
  let ruledOut := startsCall reading.ahead
  note .methodDeclaration ruledOut
  return !ruledOut && declaresMethod reading.ahead

def variableAhead : Parser Bool := do
  let reading ← get
  let ruledOut := readsAsCommand reading.stream.next reading.ahead
  note .localVariableDeclaration ruledOut
  return !ruledOut && declaresVariable reading.ahead

/-- A statement that starts with no word of its own. -/
def plainStatement (inner : Inner) : Rule := do
  if ← methodAhead then node .methodDeclarationStatement (methodDeclaration inner)
  else if ← variableAhead then
    node .localVariableDeclarationStatement (localVariableDeclaration inner)
  else node .expressionStatement (node .commandAlternative (commandExpression inner))

def statement (inner : Inner) : Rule :=
  lookingAhead fun ahead =>
    if startsWith .importWord ahead then node .importStatement importDeclaration
    else if startsWith .returnWord ahead then returnStatement inner
    else plainStatement inner

/-- Statements up to a token of a kind, which is not consumed. -/
def statements (inner : Inner) (stop : TokenKind) : Rule :=
  node .statements
    (statement inner ++
      manyWhile (fun ahead => !startsWith stop ahead)
        (separatorsAfter ++ when (fun ahead => !startsWith stop ahead) (statement inner)))

/-- The rules for what is nested less deep than a bound. -/
def innerWithin : Nat → Inner
  | 0 => ⟨refuse .expression, refuse .expression⟩
  | bound + 1 =>
    ⟨expressionOver (innerWithin bound), statements (innerWithin bound) (.closing .brace)⟩

def packageHead : Rule :=
  packageDeclaration ++
    lookingAhead fun ahead => if startsWith .endOfInput ahead then nothing else separatorsAfter

/-- A compilation unit, given the rules for what stands inside it. -/
def compilationUnitOver (inner : Inner) : Rule :=
  node .compilationUnit
    (separators ++ when (startsWith .packageWord) packageHead ++
      when (fun ahead => !startsWith .endOfInput ahead) (statements inner .endOfInput) ++
        token .endOfInput)

/-- A compilation unit. What is nested takes a token at each level, so nothing is nested deeper than
the number of tokens. -/
def compilationUnit : Rule :=
  lookingAhead fun ahead => compilationUnitOver (innerWithin (ahead.length + 1))

end GroovyTidy.Grammar
