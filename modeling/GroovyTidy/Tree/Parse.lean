import GroovyTidy.Tree.Grammar

set_option autoImplicit false

/-!
Trees of sources.
-/
namespace GroovyTidy

/-- How a list of tokens was read: the tree or the reason why there is none, and the decisions on
the way. -/
structure ParseReport where
  outcome : Except SyntaxError Node
  decisions : List Decision

/-- Reads a list of tokens as a compilation unit. -/
def readTokens (tokens : List Token) : ParseReport :=
  match Grammar.compilationUnit (.ofTokens tokens) with
  | .ok trees reading =>
    { outcome := .ok ((trees.filterMap Tree.node?).headD ⟨.compilationUnit, []⟩)
      decisions := reading.decisions.reverse }
  | .error error reading => { outcome := .error error, decisions := reading.decisions.reverse }

def parseTokens (tokens : List Token) : Except SyntaxError Node :=
  (readTokens tokens).outcome

def parse (source : String) : Except SyntaxError Node := do
  parseTokens (← tokenize source)

def Node.statementCount (unit : Node) : Nat :=
  let blocks := unit.childNodes.filter fun child => child.kind = .statements
  blocks.foldr (fun block count => block.childNodes.length + count) 0

end GroovyTidy
