import GroovyTidy.Proofs.Doc.Rigid
import GroovyTidy.Proofs.Tree.Lookahead
import GroovyTidy.Proofs.Tree.Production

set_option autoImplicit false

/-!
Trees without separators and without the places of their tokens. Printing a tree that conforms to
the grammar uses nothing else of it.
-/
namespace GroovyTidy

/-- The token at the start of a source. -/
def Token.unplaced (token : Token) : Token :=
  .place token.kind token.text 0 1 1

namespace Tree

mutual

/-- What is left of a tree without separators and places. Nothing is left of a separator. -/
def stripped : Tree → List Tree
  | .node kind children => [.node kind (strippedForest children)]
  | .token leaf => if leaf.kind.isSeparator then [] else [.token leaf.unplaced]

/-- What is left of a list of trees without separators and places. -/
def strippedForest : List Tree → List Tree
  | [] => []
  | tree :: forest => tree.stripped ++ strippedForest forest

end

@[simp] theorem strippedForest_append (left right : List Tree) :
    strippedForest (left ++ right) = strippedForest left ++ strippedForest right := by
  induction left with
  | nil => rfl
  | cons tree forest ih =>
    rw [List.cons_append, strippedForest, strippedForest, ih, List.append_assoc]

theorem strippedForest_singleton (tree : Tree) : strippedForest [tree] = tree.stripped := by
  rw [strippedForest, strippedForest, List.append_nil]

end Tree

namespace Node

/-- A node without separators and places below it. -/
def stripped (node : Node) : Node where
  kind := node.kind
  children := Tree.strippedForest node.children

theorem filterMap_strippedForest (forest : List Tree) :
    (Tree.strippedForest forest).filterMap Tree.node? =
      (forest.filterMap Tree.node?).map stripped := by
  induction forest with
  | nil => rfl
  | cons tree forest ih =>
    rw [Tree.strippedForest, List.filterMap_append, ih]
    cases tree with
    | node kind children => rfl
    | token leaf =>
      rw [Tree.stripped]
      split <;> rfl

theorem stripped_childNodes (node : Node) :
    node.stripped.childNodes = node.childNodes.map stripped :=
  filterMap_strippedForest node.children

end Node

/-! ## Printing -/

namespace Printer

/-- Which children are printed depends on their kinds only. -/
theorem chosen_map {α : Type} (f : Node × α → Node × α)
    (kept : ∀ child, (f child).1.kind = child.1.kind) (kind : NodeKind) (below : List (Node × α)) :
    chosen kind (below.map f) = (chosen kind below).map f := by
  have filtered : ∀ test : NodeKind → Bool,
      (below.map f).filter (fun child => test child.1.kind) =
        (below.filter fun child => test child.1.kind).map f := by
    intro test
    rw [List.filter_map]
    refine congrArg _ (List.filter_congr fun child _ => ?_)
    exact congrArg test (kept child)
  unfold chosen
  split
  · exact filtered fun kind => kind == .packageDeclaration || kind == .statements
  · exact filtered NodeKind.isStatement
  · exact filtered (· == .argumentListElement)
  · exact filtered (· == .identifier)
  · exact List.map_take.symm
  · rfl
  · rfl
  · split
    · exact List.map_take.symm
    · rfl

/-- A node that is printed as its first token has nothing but this token. -/
theorem leaf_children {node : Node} (conforms : node.tree.Conforms)
    (leaf : rule? node.kind = some .leaf) :
    ∃ token : Token, node.children = [.token token] ∧ token.kind.isSeparator = false := by
  obtain ⟨kind, children⟩ := node
  have word : children ∈ production kind := conforms.word
  cases kind with
  | identifier =>
    obtain ⟨token, name, rfl⟩ := word
    have simple : (token.kind.isIdentifier || token.kind.isLiteral) = true :=
      Bool.or_eq_true_iff.mpr (.inl name)
    exact ⟨token, rfl, TokenKind.eq_false_of_simple simple _ rfl rfl fun _ => rfl⟩
  | literal =>
    obtain ⟨token, value, rfl⟩ := word
    have simple : (token.kind.isIdentifier || token.kind.isLiteral) = true :=
      Bool.or_eq_true_iff.mpr (.inr value)
    exact ⟨token, rfl, TokenKind.eq_false_of_simple simple _ rfl rfl fun _ => rfl⟩
  | _ => cases leaf

theorem build_stripped {node : Node} (conforms : node.tree.Conforms) {rule : Rule}
    (given : rule? node.kind = some rule) (parts : List Doc) :
    build rule node.stripped parts = build rule node parts := by
  cases rule with
  | leaf =>
    obtain ⟨token, shape, filled⟩ := leaf_children conforms given
    have whole : node.stripped.children = [.token token.unplaced] := by
      show Tree.strippedForest node.children = _
      rw [shape, Tree.strippedForest_singleton, Tree.stripped, filled]
      rfl
    simp only [build, Node.firstToken?, whole, shape]
    rfl
  | _ => rfl

/-- Printing a tree that conforms to the grammar uses neither separators nor places. -/
theorem print_stripped {node : Node} (conforms : node.tree.Conforms) :
    print node.stripped = print node := by
  induction node using Node.induction with
  | step node ih =>
    let strip : Node × Doc → Node × Doc := fun child => (child.1.stripped, child.2)
    have below : (node.stripped.childNodes.map fun child => (child, print child)) =
        (node.childNodes.map fun child => (child, print child)).map strip := by
      rw [Node.stripped_childNodes, List.map_map, List.map_map]
      refine List.map_congr_left fun child member => ?_
      have inside := conforms.children child.tree (Node.mem_childNodes member)
      exact congrArg (Prod.mk child.stripped) (ih child member inside)
    have parts :
        (chosen node.kind ((node.childNodes.map fun child => (child, print child)).map strip)).map
          Prod.snd =
        (chosen node.kind (node.childNodes.map fun child => (child, print child))).map
          Prod.snd := by
      rw [chosen_map strip fun _ => rfl, List.map_map]
      rfl
    rw [print_eq, print_eq node, printWith, printWith, printNode, printNode, below,
      show node.stripped.kind = node.kind from rfl]
    cases given : rule? node.kind with
    | none => rfl
    | some rule =>
      dsimp only
      rw [build_stripped conforms given, parts]

end Printer

end GroovyTidy
