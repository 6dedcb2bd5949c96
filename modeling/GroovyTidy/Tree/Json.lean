import GroovyTidy.Json
import GroovyTidy.Tree.Basic

set_option autoImplicit false

/-!
Tokens and trees as JSON.
-/
namespace GroovyTidy

def Span.json (span : Span) : Json :=
  .object [("start", .number span.start), ("end", .number span.stop)]

def Token.json (token : Token) : Json :=
  .object [("kind", .text token.kind.name), ("text", .text token.text), ("span", token.span.json),
    ("line", .number token.line), ("column", .number token.column)]

/-- A kind by its name; a path expression is an object with its trailer. -/
def NodeKind.json : NodeKind → Json
  | .pathExpression trailer => .object [("PathExpression", .text trailer.name)]
  | kind => .text kind.name

mutual

/-- A tree as an object that says whether it is a node or a token. -/
def Tree.json : Tree → Json
  | .node kind children =>
    .object
      [("Node", .object [("kind", kind.json), ("children", .array (Tree.forestJson children))])]
  | .token leaf => .object [("Token", leaf.json)]

def Tree.forestJson : List Tree → List Json
  | [] => []
  | tree :: forest => tree.json :: Tree.forestJson forest

end

def Node.json (node : Node) : Json :=
  .object [("kind", node.kind.json), ("children", .array (Tree.forestJson node.children))]

def tokensToJson (tokens : List Token) : String :=
  (Json.array (tokens.map Token.json)).pretty 0

def Node.toJson (node : Node) : String :=
  node.json.pretty 0

end GroovyTidy
