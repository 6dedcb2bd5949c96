import GroovyTidy.Tree.Basic

set_option autoImplicit false

/-!
Diagrams of trees for the eye: a line for every node, with lines drawn from parents to children.
-/
namespace GroovyTidy.Diagram

/-- What a diagram shows besides the nodes. -/
structure Options where
  tokens : Bool
  lineNumbers : Bool
  deriving DecidableEq, Repr

def Options.plain : Options where
  tokens := false
  lineNumbers := false

/-- A switch is on if it is set to anything but the word for off. -/
def isOn (parameters : List (String × String)) (name : String) : Bool :=
  (parameters.lookup name).any (· != "false")

def Options.ofParameters (parameters : List (String × String)) : Options where
  tokens := isOn parameters "show-tokens"
  lineNumbers := isOn parameters "show-linum"

def icon (kind : NodeKind) : String :=
  match kind with
  | .compilationUnit => "⧉"
  | .statements | .argumentList | .expressionList | .formalParameters => "☰"
  | .methodDeclaration => "ƒ"
  | .localVariableDeclaration | .variableDeclarator | .assignmentAlternative => "≔"
  | .closure => "λ"
  | .identifier => "•"
  | .literal => "#"
  | _ => if kind.isStatement then "§" else "○"

/-- A character of a label. Ends of lines are shown by a letter. -/
def labelChar (c : Char) : List Char :=
  if c = '\n' then ['\\', 'n'] else if c = '\r' then ['\\', 'r'] else [c]

/-- The first thirty characters of a text, and dots if there are more. -/
def shortened (text : List Char) : List Char :=
  if 30 < text.length then text.take 30 ++ ['.', '.', '.'] else text

def label (text : String) : String :=
  String.ofList (shortened (text.toList.flatMap labelChar))

/-- Names and literals are shown by their text alone. -/
def isLeaf (kind : NodeKind) : Bool :=
  kind == .identifier || kind == .literal

def nodeLabel (node : Node) : String :=
  if isLeaf node.kind then label (node.firstToken?.elim "" Token.text)
  else if node.kind = .pathExpression .bare then node.kind.name
  else node.kind.fullName

def tokenLabel (token : Token) : String :=
  token.kind.name ++ " " ++ label token.text

/-- A line number in at least two digits, or blanks in its place. -/
def lineNumber (line : Option Nat) : String :=
  match line with
  | none => "   "
  | some line => (if line < 10 then "0" else "") ++ toString line ++ " "

/-- One line of a diagram below the first. -/
def row (options : Options) (line : Option Nat) (margin : String) (last : Bool)
    (icon label : String) : String :=
  (if options.lineNumbers then lineNumber line else "") ++ margin ++
    (if last then "└─" else "├─") ++ " " ++ icon ++
    " " ++ label ++ "\n"

/-- A tree is shown if it is a node or tokens are. -/
def isShown (options : Options) : Tree → Bool
  | .node _ _ => true
  | .token _ => options.tokens

mutual

/-- The lines of a tree below the first line of a diagram. -/
def below (options : Options) (margin : String) (last : Bool) : Tree → String
  | .node kind children =>
    row options ((Tree.forestTokens children).head?.map Token.line) margin last (icon kind)
        (nodeLabel ⟨kind, children⟩) ++
      (if isLeaf kind then "" else forest options (margin ++ if last then "  " else "│ ") children)
  | .token leaf => row options (some leaf.line) margin last "◦" (tokenLabel leaf)

def forest (options : Options) (margin : String) : List Tree → String
  | [] => ""
  | tree :: rest =>
    (if isShown options tree then below options margin (!rest.any (isShown options)) tree
      else "") ++
      forest options margin rest

end

def draw (options : Options) (node : Node) : String :=
  icon node.kind ++ " " ++ nodeLabel node ++ "\n" ++
    if isLeaf node.kind then "" else forest options "" node.children

end GroovyTidy.Diagram
