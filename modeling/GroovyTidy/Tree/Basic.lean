import GroovyTidy.Token.Basic
import GroovyTidy.Tree.Kind

set_option autoImplicit false

/-!
Trees. A tree keeps every token it was made from, in the order of the source, under a node for every
rule of the grammar that was used.
-/
namespace GroovyTidy

/-- A node with its children, or a token. -/
inductive Tree where
  | node (kind : NodeKind) (children : List Tree)
  | token (token : Token)
  deriving Repr

/-- A tree that is not a lone token. -/
structure Node where
  kind : NodeKind
  children : List Tree
  deriving Repr

namespace Tree

def node? : Tree → Option Node
  | .node kind children => some ⟨kind, children⟩
  | .token _ => none

def token? : Tree → Option Token
  | .node _ _ => none
  | .token leaf => some leaf

mutual

def tokens : Tree → List Token
  | .node _ children => forestTokens children
  | .token leaf => [leaf]

def forestTokens : List Tree → List Token
  | [] => []
  | tree :: forest => tree.tokens ++ forestTokens forest

end

@[simp] theorem forestTokens_append (left right : List Tree) :
    forestTokens (left ++ right) = forestTokens left ++ forestTokens right := by
  induction left with
  | nil => simp only [forestTokens, List.nil_append]
  | cons tree forest ih => simp only [List.cons_append, forestTokens, ih, List.append_assoc]

end Tree

namespace Node

def tree (node : Node) : Tree :=
  .node node.kind node.children

def childNodes (node : Node) : List Node :=
  node.children.filterMap Tree.node?

def firstNode? (node : Node) : Option Node :=
  node.childNodes.head?

def firstToken? (node : Node) : Option Token :=
  (node.children.filterMap Tree.token?).head?

def tokens (node : Node) : List Token :=
  Tree.forestTokens node.children

/-- Texts of tokens after a byte offset, with a space wherever the source has a gap. -/
def spaced : Option Nat → List Token → String
  | _, [] => ""
  | stop, token :: rest =>
    if token.text.isEmpty then spaced stop rest
    else
      (if stop.any (· < token.span.start) then " " else "") ++ token.text ++
        spaced (some token.span.stop) rest

/-- The text of a node, with one space for every gap between its tokens. -/
def text (node : Node) : String :=
  spaced none node.tokens

mutual

/-- What a function gives for the nodes at the top of a tree, if it is not a token. -/
def foldTree {α : Type} (f : Node → List (Node × α) → α) : Tree → List (Node × α)
  | .node kind children => [(⟨kind, children⟩, f ⟨kind, children⟩ (foldForest f children))]
  | .token _ => []

/-- What a function gives for the nodes at the top of a list of trees. -/
def foldForest {α : Type} (f : Node → List (Node × α) → α) : List Tree → List (Node × α)
  | [] => []
  | tree :: forest => foldTree f tree ++ foldForest f forest

end

/-- Applies a function from the leaves up to each node and what it gave for the child nodes. -/
def fold {α : Type} (f : Node → List (Node × α) → α) (node : Node) : α :=
  f node (foldForest f node.children)

/-- A node and all nodes under it, each before those under it. -/
def preorder (node : Node) : List Node :=
  node.fold fun node below => node :: (below.map Prod.snd).flatten

end Node

end GroovyTidy
