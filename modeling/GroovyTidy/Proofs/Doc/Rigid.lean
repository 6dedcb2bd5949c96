import GroovyTidy.Doc.Layout
import GroovyTidy.Doc.Printer
import Mathlib.Data.List.Forall2

set_option autoImplicit false

/-!
Rigid documents: texts, line breaks and what they are put together from, without groups, indentation
and line breaks that may stay away. Their layout leaves nothing to choose, so it is the same for all
options. Every document that printing makes of a tree is rigid.
-/
namespace GroovyTidy

/-- The document has one layout. -/
inductive Doc.Rigid : Doc → Prop where
  | text (value : String) : Doc.Rigid (.text value)
  | hardline : Doc.Rigid .hardline
  | concat (parts : List Doc) (all : ∀ part ∈ parts, Doc.Rigid part) : Doc.Rigid (.concat parts)
  | join (separator : Doc) (items : List Doc) (between : Doc.Rigid separator)
      (all : ∀ item ∈ items, Doc.Rigid item) : Doc.Rigid (.join separator items)

namespace Layout

/-- The pieces are texts and line breaks that together read as a text. -/
inductive Plain : List Piece → List Char → Prop where
  | nil : Plain [] []
  | text {pieces : List Piece} {rest : List Char} (value : String) (more : Plain pieces rest) :
      Plain (.text value :: pieces) (value.toList ++ rest)
  | hardline {pieces : List Piece} {rest : List Char} (more : Plain pieces rest) :
      Plain (.hardline :: pieces) ('\n' :: rest)

theorem Plain.append {left right : List Piece} {front back : List Char} (first : Plain left front)
    (second : Plain right back) : Plain (left ++ right) (front ++ back) := by
  induction first with
  | nil => exact second
  | text value more ih =>
    rw [List.cons_append, List.append_assoc]
    exact .text value ih
  | hardline more ih => exact .hardline ih

theorem Plain.flatten {pieces : List (List Piece)} {texts : List (List Char)}
    (each : List.Forall₂ Plain pieces texts) : Plain pieces.flatten texts.flatten := by
  induction each with
  | nil => exact .nil
  | cons first rest ih => exact first.append ih

theorem Plain.separated {between : List Piece} {separator : List Char}
    (given : Plain between separator) {pieces : List (List Piece)} {texts : List (List Char)}
    (each : List.Forall₂ Plain pieces texts) :
    Plain (Layout.separated between pieces) (separator.intercalate texts) := by
  induction each with
  | nil => exact .nil
  | @cons item text items texts first rest ih =>
    cases rest with
    | nil =>
      rw [List.intercalate_singleton]
      exact first
    | cons second others =>
      rw [List.intercalate_cons_cons]
      exact (first.append given).append ih

theorem textPieces_plain (line : List Char) : Plain (textPieces line) line := by
  unfold textPieces
  split
  · rename_i empty
    rw [List.isEmpty_iff.mp empty]
    exact .nil
  · have written : Plain [.text (String.ofList line)] ((String.ofList line).toList ++ []) :=
      .text _ .nil
    rwa [List.append_nil, String.toList_ofList] at written

theorem intercalate_splitAt (separator : Char) (text : List Char) :
    [separator].intercalate (Text.splitAt separator text) = text := by
  fun_induction Text.splitAt separator text with
  | case1 => rfl
  | case2 rest ih =>
    rw [List.intercalate_cons_of_ne_nil (Text.splitAt_ne_nil separator rest), ih]
    rfl
  | case3 c rest differs none ih => exact absurd none (Text.splitAt_ne_nil separator rest)
  | case4 c rest differs piece pieces shape ih =>
    rw [List.intercalate_cons_cons_left, ← shape, ih]

/-- The lines of a text with line breaks between them read as the text. -/
theorem lines_plain (value : String) :
    Plain (separated [.hardline] ((Text.splitAt '\n' value.toList).map textPieces))
      value.toList := by
  have lines : List.Forall₂ Plain ((Text.splitAt '\n' value.toList).map textPieces)
      (Text.splitAt '\n' value.toList) := by
    rw [List.forall₂_map_left_iff]
    exact List.forall₂_same.mpr fun line _ => textPieces_plain line
  have joined := Plain.separated (.hardline .nil) lines
  rwa [intercalate_splitAt] at joined

/-- At the outermost level a text is laid out as it is, also over several lines. -/
theorem textBlock_plain (value : String) : Plain (textBlock 0 value) value.toList := by
  unfold textBlock
  dsimp only
  split
  · exact textPieces_plain _
  · rw [Int.neg_zero, nested, if_pos rfl]
    exact lines_plain value

/-- Plain pieces are laid out as their text, since all lines start at the first column. -/
theorem layAll_plain {pieces : List Piece} {text : List Char} (plain : Plain pieces text)
    (width : Nat) (flat : Bool) (page : Page) :
    (layAll width flat 0 [] page pieces).text = page.text ++ String.ofList text := by
  induction plain generalizing page with
  | nil => simp [layAll]
  | text value more ih =>
    rw [layAll, ih, lay, Page.write]
    simp [String.append_assoc]
  | @hardline pieces rest more ih =>
    have column : nextIndent 0 [⟨0, pieces⟩] = 0 := by
      unfold nextIndent
      rw [List.find?_singleton]
      split <;> rfl
    have feed : String.ofList ('\n' :: rest) = "\n" ++ String.ofList rest := by
      rw [← String.toList_inj]
      simp
    rw [layAll, ih, lay, column, Page.breakLine, feed]
    simp [String.append_assoc]

end Layout

open Layout in
theorem Doc.piecesOf_plain {level : Int} {docs : List Doc}
    (each : ∀ doc ∈ docs, Plain (pieces level 0 doc) doc.flat.toList) :
    List.Forall₂ Plain (piecesOf level 0 docs) ((Doc.flatParts docs).map String.toList) := by
  induction docs with
  | nil => exact .nil
  | cons doc docs ih =>
    obtain ⟨first, rest⟩ := List.forall_mem_cons.mp each
    rw [piecesOf, Doc.flatParts, List.map_cons]
    exact .cons first (ih rest)

open Layout in
/-- The pieces of a rigid document read as its flat text. -/
theorem Doc.Rigid.pieces_plain {doc : Doc} (rigid : doc.Rigid) (level : Int) :
    Plain (pieces level 0 doc) doc.flat.toList := by
  induction rigid with
  | text value => exact textBlock_plain value
  | hardline => exact .hardline .nil
  | concat parts all ih =>
    rw [pieces, Doc.flat, String.toList_join, List.flatMap_def]
    exact .flatten (piecesOf_plain ih)
  | join separator items between all ihSeparator ih =>
    rw [pieces, Doc.flat, String.toList_intercalate]
    exact .separated ihSeparator (piecesOf_plain ih)

/-- A rigid document is laid out flat, whatever the options. -/
theorem Doc.Rigid.render_eq_flat {doc : Doc} (rigid : doc.Rigid) (options : LayoutOptions) :
    doc.render options = doc.flat := by
  unfold Doc.render
  rw [Layout.layAll_plain (rigid.pieces_plain _)]
  simp

/-! ## Printed trees -/

namespace Node

theorem mem_childNodes {node child : Node} (member : child ∈ node.childNodes) :
    child.tree ∈ node.children := by
  obtain ⟨tree, inside, shape⟩ := List.mem_filterMap.mp member
  cases tree with
  | node kind children =>
    cases shape
    exact inside
  | token leaf => cases shape

/-- What holds of a node if it holds of its child nodes holds of every node. -/
theorem induction {motive : Node → Prop}
    (step : ∀ node : Node, (∀ child ∈ node.childNodes, motive child) → motive node) (node : Node) :
    motive node := by
  refine step node fun child member => ?_
  have smaller : sizeOf child.children < sizeOf node.children := by
    have inside := List.sizeOf_lt_of_mem (mem_childNodes member)
    have below : sizeOf child.tree = 1 + sizeOf child.kind + sizeOf child.children := by
      simp [tree]
    omega
  exact induction step child
termination_by sizeOf node.children

theorem foldForest_eq {α : Type} (f : Node → List (Node × α) → α) (forest : List Tree) :
    foldForest f forest = (forest.filterMap Tree.node?).map fun child => (child, child.fold f) := by
  induction forest with
  | nil => rfl
  | cons tree forest ih =>
    cases tree with
    | node kind children =>
      rw [foldForest, foldTree, ih, List.filterMap_cons]
      rfl
    | token leaf =>
      rw [foldForest, foldTree, ih, List.filterMap_cons]
      rfl

theorem fold_eq {α : Type} (f : Node → List (Node × α) → α) (node : Node) :
    node.fold f = f node (node.childNodes.map fun child => (child, child.fold f)) := by
  rw [fold, foldForest_eq, childNodes]

end Node

namespace Printer

theorem print_eq (node : Node) : print node = printWith node print :=
  Node.fold_eq printNode node

theorem chosen_sublist {α : Type} (kind : NodeKind) (below : List (Node × α)) :
    (chosen kind below).Sublist below := by
  unfold chosen
  split
  any_goals exact List.filter_sublist
  · exact List.take_sublist _ _
  · exact List.nil_sublist _
  · exact List.nil_sublist _
  · split
    · exact List.take_sublist _ _
    · exact List.nil_sublist _

theorem build_rigid {rule : Rule} {node : Node} {parts : List Doc}
    (all : ∀ part ∈ parts, part.Rigid) : (build rule node parts).Rigid := by
  have empty : Doc.empty.Rigid := .concat [] (by simp)
  cases rule with
  | unit => exact .concat _ (by simpa using ⟨.join _ _ .hardline all, .hardline⟩)
  | lines => exact .join _ _ .hardline all
  | command =>
    match parts with
    | [] => exact empty
    | [expression] => exact all expression (by simp)
    | expression :: arguments :: rest =>
      refine .concat _ ?_
      simp only [List.forall_mem_cons] at all ⊢
      exact ⟨all.1, .text _, all.2.1, by simp⟩
  | through =>
    match parts with
    | [] => exact empty
    | part :: rest => exact all part (by simp)
  | leaf =>
    unfold build
    cases node.firstToken? with
    | none => exact empty
    | some token => exact .text _
  | separated separator => exact .join _ _ (.text separator) all
  | afterWord word =>
    match parts with
    | [] => exact empty
    | part :: rest => exact .concat _ (by simpa using ⟨.text word, all part (by simp)⟩)

/-- Printing makes rigid documents only. -/
theorem print_rigid (node : Node) : (print node).Rigid := by
  induction node using Node.induction with
  | step node ih =>
    rw [print_eq, printWith, printNode]
    split
    · refine build_rigid ?_
      intro part member
      obtain ⟨⟨child, doc⟩, inside, rfl⟩ := List.mem_map.mp member
      obtain ⟨_, below, same⟩ := List.mem_map.mp ((chosen_sublist _ _).mem inside)
      cases same
      exact ih child below
    · exact .concat [] (by simp)

end Printer

end GroovyTidy
