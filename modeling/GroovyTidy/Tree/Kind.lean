set_option autoImplicit false

/-!
Kinds of nodes: one for every rule of the grammar, with its alternatives.
-/
namespace GroovyTidy

/-- What a path expression ends with. -/
inductive PathTrailer where
  /-- Nothing follows the primary expression. -/
  | bare
  | member
  | arguments
  | closure
  | index
  deriving DecidableEq, Repr

/-- What a node stands for. -/
inductive NodeKind where
  | compilationUnit
  | packageDeclaration
  | qualifiedName
  | statements
  | importStatement
  | methodDeclarationStatement
  | localVariableDeclarationStatement
  | returnStatement
  | expressionStatement
  | importDeclaration
  | methodDeclaration
  | localVariableDeclaration
  | modifiers
  | type
  | typeArguments
  | formalParameters
  | formalParameter
  | variableDeclarator
  | block
  | commandAlternative
  | commandExpression
  | postfixAlternative
  | assignmentAlternative
  | postfixExpression
  | pathExpression (trailer : PathTrailer)
  | pathElement
  | arguments
  | identifierPrimary
  | literalPrimary
  | parenthesizedPrimary
  | closurePrimary
  | listPrimary
  | closure
  | expressionList
  | argumentList
  | argumentListElement
  | expressionListElement
  | identifier
  | literal
  deriving DecidableEq, Repr

namespace PathTrailer

def name : PathTrailer → String
  | .bare => "None"
  | .member => "Member"
  | .arguments => "Arguments"
  | .closure => "Closure"
  | .index => "Index"

def all : List PathTrailer := [.bare, .member, .arguments, .closure, .index]

def ofName? (name : String) : Option PathTrailer :=
  all.find? fun trailer => trailer.name == name

end PathTrailer

namespace NodeKind

/-- The name of a kind, the same one for all path expressions. -/
def name : NodeKind → String
  | .compilationUnit => "CompilationUnit"
  | .packageDeclaration => "PackageDeclaration"
  | .qualifiedName => "QualifiedName"
  | .statements => "Statements"
  | .importStatement => "ImportStatement"
  | .methodDeclarationStatement => "MethodDeclarationStatement"
  | .localVariableDeclarationStatement => "LocalVariableDeclarationStatement"
  | .returnStatement => "ReturnStatement"
  | .expressionStatement => "ExpressionStatement"
  | .importDeclaration => "ImportDeclaration"
  | .methodDeclaration => "MethodDeclaration"
  | .localVariableDeclaration => "LocalVariableDeclaration"
  | .modifiers => "Modifiers"
  | .type => "Type"
  | .typeArguments => "TypeArguments"
  | .formalParameters => "FormalParameters"
  | .formalParameter => "FormalParameter"
  | .variableDeclarator => "VariableDeclarator"
  | .block => "Block"
  | .commandAlternative => "CommandExprAlt"
  | .commandExpression => "CommandExpression"
  | .postfixAlternative => "PostfixExprAlt"
  | .assignmentAlternative => "AssignmentExprAlt"
  | .postfixExpression => "PostfixExpression"
  | .pathExpression _ => "PathExpression"
  | .pathElement => "PathElement"
  | .arguments => "Arguments"
  | .identifierPrimary => "IdentifierPrimary"
  | .literalPrimary => "LiteralPrimary"
  | .parenthesizedPrimary => "ParenPrimary"
  | .closurePrimary => "ClosurePrimary"
  | .listPrimary => "ListPrimary"
  | .closure => "Closure"
  | .expressionList => "ExpressionList"
  | .argumentList => "EnhancedArgumentList"
  | .argumentListElement => "EnhancedArgumentListElement"
  | .expressionListElement => "ExpressionListElement"
  | .identifier => "Identifier"
  | .literal => "Literal"

def plain : List NodeKind :=
  [.compilationUnit, .packageDeclaration, .qualifiedName, .statements, .importStatement,
    .methodDeclarationStatement, .localVariableDeclarationStatement, .returnStatement,
    .expressionStatement, .importDeclaration, .methodDeclaration, .localVariableDeclaration,
    .modifiers, .type, .typeArguments, .formalParameters, .formalParameter, .variableDeclarator,
    .block, .commandAlternative, .commandExpression, .postfixAlternative, .assignmentAlternative,
    .postfixExpression, .pathElement, .arguments, .identifierPrimary, .literalPrimary,
    .parenthesizedPrimary, .closurePrimary, .listPrimary, .closure, .expressionList, .argumentList,
    .argumentListElement, .expressionListElement, .identifier, .literal]

def ofName? (name : String) : Option NodeKind :=
  plain.find? fun kind => kind.name == name

/-- The name of a kind, with the trailer of a path expression in parentheses. -/
def fullName : NodeKind → String
  | .pathExpression trailer => "PathExpression(" ++ trailer.name ++ ")"
  | kind => kind.name

def isStatement : NodeKind → Bool
  | .importStatement | .methodDeclarationStatement | .localVariableDeclarationStatement
  | .returnStatement | .expressionStatement => true
  | _ => false

end NodeKind

end GroovyTidy
