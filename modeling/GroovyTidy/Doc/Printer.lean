import GroovyTidy.Doc.Basic
import GroovyTidy.Tree.Basic

set_option autoImplicit false

/-!
Documents of trees. Each kind of node has a rule that chooses some of its children and puts their
documents together; a kind without a rule is printed as nothing.
-/
namespace GroovyTidy.Printer

/-- How the documents of the chosen children are put together. -/
inductive Rule where
  /-- The children on lines of their own, with a line break at the end. -/
  | unit
  /-- The children on lines of their own. -/
  | lines
  /-- An expression with its arguments, if any, after a space. -/
  | command
  /-- The only child. -/
  | through
  /-- The first token. -/
  | leaf
  /-- The children with a text between neighbours. -/
  | separated (separator : String)
  /-- A word before the only child. -/
  | afterWord (word : String)
  deriving DecidableEq, Repr

def rule? : NodeKind → Option Rule
  | .compilationUnit => some .unit
  | .statements => some .lines
  | .commandExpression => some .command
  | .expressionStatement | .commandAlternative | .postfixAlternative | .postfixExpression
  | .pathExpression _ | .identifierPrimary | .literalPrimary | .argumentListElement
  | .expressionListElement => some .through
  | .identifier | .literal => some .leaf
  | .argumentList => some (.separated ", ")
  | .packageDeclaration => some (.afterWord "package ")
  | .qualifiedName => some (.separated ".")
  | _ => none

/-- The children that are printed, of all child nodes with what was found for each. -/
def chosen {α : Type} (kind : NodeKind) (below : List (Node × α)) : List (Node × α) :=
  match kind with
  | .compilationUnit =>
    below.filter fun child => child.1.kind == .packageDeclaration || child.1.kind == .statements
  | .statements => below.filter fun child => child.1.kind.isStatement
  | .argumentList => below.filter fun child => child.1.kind == .argumentListElement
  | .qualifiedName => below.filter fun child => child.1.kind == .identifier
  | .commandExpression => below.take 2
  | .identifier | .literal => []
  | kind => if (rule? kind).isSome then below.take 1 else []

/-- The document that a rule makes of the documents of the chosen children. -/
def build (rule : Rule) (node : Node) (parts : List Doc) : Doc :=
  match rule with
  | .unit => .concat [.join .hardline parts, .hardline]
  | .lines => .join .hardline parts
  | .command =>
    match parts with
    | expression :: arguments :: _ => .concat [expression, .text " ", arguments]
    | [expression] => expression
    | [] => .empty
  | .through => parts.headD .empty
  | .leaf => node.firstToken?.elim .empty fun token => .text token.text
  | .separated separator => .join (.text separator) parts
  | .afterWord word => parts.head?.elim .empty fun part => .concat [.text word, part]

def printNode (node : Node) (below : List (Node × Doc)) : Doc :=
  match rule? node.kind with
  | some rule => build rule node ((chosen node.kind below).map Prod.snd)
  | none => .empty

def print (node : Node) : Doc :=
  node.fold printNode

/-- The document of a node, with a function for its children. -/
def printWith (node : Node) (printChild : Node → Doc) : Doc :=
  printNode node (node.childNodes.map fun child => (child, printChild child))

/-- The kinds of the nodes that printing reaches and has no rule for, in the order in which it
reaches them. -/
def unprinted (node : Node) : List NodeKind :=
  node.fold fun node below =>
    if (rule? node.kind).isSome then ((chosen node.kind below).map Prod.snd).flatten
    else [node.kind]

end GroovyTidy.Printer
