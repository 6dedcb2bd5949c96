import GroovyTidy.Proofs.Text.Rows
import GroovyTidy.Tree.Diagram

set_option autoImplicit false

/-!
What a diagram shows. It has a line for each visible element of a tree, in the order of the tree.
The line says by its margin on which way the element is reached, in cells of two columns, and no
label can break it. So the margins alone give back the shape of what is visible.
-/
namespace GroovyTidy.Diagram

open Text

/-- Entries in the order of a tree, each with those below it. -/
inductive Shown (α : Type) where
  | item (entry : α) (below : List (Shown α))

namespace Shown

variable {α β γ : Type}

mutual

/-- Each entry before those below it, with the way to it: at each step, whether the last of the
entries is taken. -/
def entries (way : List Bool) : Shown α → List (List Bool × α)
  | .item entry below => (way, entry) :: entriesOf way below

def entriesOf (way : List Bool) : List (Shown α) → List (List Bool × α)
  | [] => []
  | tree :: trees => entries (way ++ [trees.isEmpty]) tree ++ entriesOf way trees

end

mutual

/-- The tree with a function applied to every entry. -/
def map (f : α → β) : Shown α → Shown β
  | .item entry below => .item (f entry) (mapAll f below)

def mapAll (f : α → β) : List (Shown α) → List (Shown β)
  | [] => []
  | tree :: trees => tree.map f :: mapAll f trees

end

/-- The tree without its entries. -/
def shape (tree : Shown α) : Shown Unit :=
  tree.map fun _ => ()

theorem isEmpty_mapAll (f : α → β) (trees : List (Shown α)) :
    (mapAll f trees).isEmpty = trees.isEmpty := by
  cases trees <;> rfl

mutual

theorem entries_map (f : α → β) (way : List Bool) (tree : Shown α) :
    (tree.map f).entries way = (tree.entries way).map fun entry => (entry.1, f entry.2) := by
  cases tree with
  | item entry below => rw [map, entries, entries, entriesOf_mapAll f way below, List.map_cons]

theorem entriesOf_mapAll (f : α → β) (way : List Bool) (trees : List (Shown α)) :
    entriesOf way (mapAll f trees) =
      (entriesOf way trees).map fun entry => (entry.1, f entry.2) := by
  cases trees with
  | nil => rfl
  | cons tree trees =>
    rw [mapAll, entriesOf, entriesOf, isEmpty_mapAll, entries_map f _ tree,
      entriesOf_mapAll f way trees, List.map_append]

end

mutual

theorem map_map (f : α → β) (g : β → γ) (tree : Shown α) :
    (tree.map f).map g = tree.map fun entry => g (f entry) := by
  cases tree with
  | item entry below => rw [map, map, map, mapAll_mapAll f g below]

theorem mapAll_mapAll (f : α → β) (g : β → γ) (trees : List (Shown α)) :
    mapAll g (mapAll f trees) = mapAll (fun entry => g (f entry)) trees := by
  cases trees with
  | nil => rfl
  | cons tree trees => rw [mapAll, mapAll, mapAll, map_map f g tree, mapAll_mapAll f g trees]

end

theorem shape_map (f : α → β) (tree : Shown α) : (tree.map f).shape = tree.shape :=
  tree.map_map f _

mutual

/-- Every way to an entry of a tree goes through the tree. -/
theorem prefix_of_mem_entries {way : List Bool} {tree : Shown α} {entry : List Bool × α}
    (member : entry ∈ tree.entries way) : way <+: entry.1 := by
  cases tree with
  | item first below =>
    rcases List.mem_cons.mp member with rfl | later
    · exact List.prefix_rfl
    · exact (prefix_of_mem_entriesOf later).1

theorem prefix_of_mem_entriesOf {way : List Bool} {trees : List (Shown α)} {entry : List Bool × α}
    (member : entry ∈ entriesOf way trees) : way <+: entry.1 ∧ entry.1 ≠ [] := by
  cases trees with
  | nil => cases member
  | cons tree trees =>
    rcases List.mem_append.mp member with inside | later
    · have through := prefix_of_mem_entries inside
      refine ⟨(List.prefix_append _ _).trans through, fun empty => ?_⟩
      rw [empty, List.prefix_nil] at through
      simp at through
    · exact prefix_of_mem_entriesOf later

end

/-! ## Ways give back the tree -/

/-- What follows starts no deeper than the end of a way. -/
def Leaves (way : List Bool) (after : List (List Bool × α)) : Prop :=
  ∀ entry ∈ after.head?, entry.1.length ≤ way.length

/-- Entries start with the way that they are below. -/
theorem entries_head (way : List Bool) (tree : Shown α) :
    ∃ entry rest, tree.entries way = (way, entry) :: rest := by
  cases tree with
  | item entry below => exact ⟨entry, _, rfl⟩

theorem leaves_entriesOf {way : List Bool} {after : List (List Bool × α)}
    (leaves : Leaves way after) (last : Bool) (trees : List (Shown α)) :
    Leaves (way ++ [last]) (entriesOf way trees ++ after) := by
  cases trees with
  | nil =>
    intro entry first
    exact Nat.le_trans (leaves entry first) (by simp)
  | cons tree trees =>
    obtain ⟨entry, rest, shape⟩ := entries_head (way ++ [trees.isEmpty]) tree
    intro other first
    rw [entriesOf, shape] at first
    obtain rfl := Option.some.inj first
    simp

theorem not_leaves_entriesOf (way : List Bool) (tree : Shown α) (trees : List (Shown α))
    (after : List (List Bool × α)) : ¬ Leaves way (entriesOf way (tree :: trees) ++ after) := by
  intro leaves
  obtain ⟨entry, rest, shape⟩ := entries_head (way ++ [trees.isEmpty]) tree
  rw [entriesOf, shape] at leaves
  have deep := leaves (way ++ [trees.isEmpty], entry) rfl
  exact absurd deep (by simp)

mutual

/-- A tree is found again in its entries, whatever follows that is not below it. -/
theorem eq_of_entries {way : List Bool} (left right : Shown α) {after behind : List (List Bool × α)}
    (same : left.entries way ++ after = right.entries way ++ behind) (leaves : Leaves way after)
    (leaves' : Leaves way behind) : left = right ∧ after = behind := by
  cases left with
  | item entry below =>
    cases right with
    | item entry' below' =>
      rw [entries, entries, List.cons_append, List.cons_append] at same
      obtain ⟨first, rest⟩ := List.cons.inj same
      obtain ⟨-, rfl⟩ := Prod.mk.inj first
      obtain ⟨rfl, rfl⟩ := eq_of_entriesOf below below' rest leaves leaves'
      exact ⟨rfl, rfl⟩

theorem eq_of_entriesOf {way : List Bool} (left right : List (Shown α))
    {after behind : List (List Bool × α)}
    (same : entriesOf way left ++ after = entriesOf way right ++ behind) (leaves : Leaves way after)
    (leaves' : Leaves way behind) : left = right ∧ after = behind := by
  cases left with
  | nil =>
    cases right with
    | nil => exact ⟨rfl, same⟩
    | cons tree trees =>
      rw [entriesOf, List.nil_append] at same
      rw [same] at leaves
      exact absurd leaves (not_leaves_entriesOf way tree trees behind)
  | cons tree trees =>
    cases right with
    | nil =>
      rw [entriesOf.eq_def way [], List.nil_append] at same
      rw [← same] at leaves'
      exact absurd leaves' (not_leaves_entriesOf way tree trees after)
    | cons tree' trees' =>
      have last : trees.isEmpty = trees'.isEmpty := by
        obtain ⟨entry, rest, shape⟩ := entries_head (way ++ [trees.isEmpty]) tree
        obtain ⟨entry', rest', shape'⟩ := entries_head (way ++ [trees'.isEmpty]) tree'
        rw [entriesOf, entriesOf, shape, shape'] at same
        simpa using congrArg Prod.fst (List.cons.inj same).1
      rw [entriesOf, entriesOf, ← last, List.append_assoc, List.append_assoc] at same
      obtain ⟨rfl, others⟩ := eq_of_entries tree tree' same (leaves_entriesOf leaves _ trees)
        (leaves_entriesOf leaves' _ trees')
      obtain ⟨rfl, rfl⟩ := eq_of_entriesOf trees trees' others leaves leaves'
      exact ⟨rfl, rfl⟩

end

end Shown

/-! ## Visible elements -/

mutual

/-- A node is shown with its children below it, if it is no name and no literal. -/
def shown (options : Options) : Tree → Shown Tree
  | .node kind children =>
    .item (.node kind children) (if isLeaf kind then [] else shownAll options children)
  | .token leaf => .item (.token leaf) []

/-- Nodes are shown, and tokens only if the options say so. -/
def shownAll (options : Options) : List Tree → List (Shown Tree)
  | [] => []
  | tree :: rest =>
    if isShown options tree then shown options tree :: shownAll options rest
    else shownAll options rest

end

theorem isEmpty_shownAll (options : Options) (trees : List Tree) :
    (shownAll options trees).isEmpty = !trees.any (isShown options) := by
  induction trees with
  | nil => rfl
  | cons tree rest ih =>
    by_cases visible : isShown options tree = true <;> simp [shownAll, visible, ih]

/-- The symbol and the label of an element. -/
def caption : Tree → List Char
  | .node kind children => (icon kind).toList ++ ' ' :: (nodeLabel ⟨kind, children⟩).toList
  | .token leaf => '◦' :: ' ' :: (tokenLabel leaf).toList

/-- The two columns below an element that is the last of its neighbours or not. -/
def cell (last : Bool) : List Char :=
  if last then [' ', ' '] else ['│', ' ']

/-- The connector to an element that is the last of its neighbours or not. -/
def connector (last : Bool) : List Char :=
  if last then ['└', '─', ' '] else ['├', '─', ' ']

/-- What stands before a caption: nothing on the first line, else a cell for each step but the last,
and a connector. -/
def lead : List Bool → List Char
  | [] => []
  | [last] => connector last
  | last :: next :: way => cell last ++ lead (next :: way)

theorem lead_append (way : List Bool) (last : Bool) :
    lead (way ++ [last]) = way.flatMap cell ++ connector last := by
  induction way with
  | nil => rfl
  | cons first way ih =>
    obtain ⟨next, more, shape⟩ :=
      List.exists_cons_of_ne_nil (List.append_ne_nil_of_right_ne_nil way (List.cons_ne_nil last []))
    rw [List.cons_append, shape, lead, ← shape, ih, List.flatMap_cons, List.append_assoc]

/-- The line of an entry, without its end. -/
def line (entry : List Bool × Tree) : List Char :=
  lead entry.1 ++ caption entry.2

variable {tokens : Bool}

theorem toList_row (number : Option Nat) {margin : String} {way : List Bool}
    (reached : margin.toList = way.flatMap cell) (last : Bool) (icon label : String) :
    (row ⟨tokens, false⟩ number margin last icon label).toList =
      lead (way ++ [last]) ++ (icon.toList ++ ' ' :: label.toList) ++ ['\n'] := by
  rw [lead_append, ← reached]
  cases last <;> simp [row, connector]

theorem toList_margin {margin : String} {way : List Bool}
    (reached : margin.toList = way.flatMap cell) (last : Bool) :
    (margin ++ if last then "  " else "│ ").toList = (way ++ [last]).flatMap cell := by
  rw [String.toList_append, reached, List.flatMap_append, List.flatMap_singleton]
  cases last <;> simp [cell]

mutual

/-- Below its first line a diagram has the lines of the entries. -/
theorem toList_below {margin : String} {way : List Bool}
    (reached : margin.toList = way.flatMap cell) (last : Bool) (tree : Tree) :
    (below ⟨tokens, false⟩ margin last tree).toList =
      ((shown ⟨tokens, false⟩ tree).entries (way ++ [last])).flatMap fun entry =>
        line entry ++ ['\n'] := by
  cases tree with
  | token leaf =>
    rw [below, toList_row _ reached, shown, Shown.entries, Shown.entriesOf, List.flatMap_singleton,
      line, caption]
    rfl
  | node kind children =>
    rw [below, String.toList_append, toList_row _ reached, shown, Shown.entries, List.flatMap_cons,
      line, caption]
    by_cases leaf : isLeaf kind = true
    · rw [if_pos leaf, if_pos leaf]
      rfl
    · rw [if_neg leaf, if_neg leaf, toList_forest (toList_margin reached last) children]

theorem toList_forest {margin : String} {way : List Bool}
    (reached : margin.toList = way.flatMap cell) (trees : List Tree) :
    (forest ⟨tokens, false⟩ margin trees).toList =
      (Shown.entriesOf way (shownAll ⟨tokens, false⟩ trees)).flatMap fun entry =>
        line entry ++ ['\n'] := by
  cases trees with
  | nil => rfl
  | cons tree rest =>
    rw [forest, String.toList_append, toList_forest reached rest, shownAll]
    by_cases visible : isShown ⟨tokens, false⟩ tree = true
    · rw [if_pos visible, if_pos visible, toList_below reached _ tree, Shown.entriesOf,
        isEmpty_shownAll, List.flatMap_append]
    · rw [if_neg visible, if_neg visible]
      rfl

end

theorem toList_draw (tokens : Bool) (node : Node) :
    (draw ⟨tokens, false⟩ node).toList =
      ((shown ⟨tokens, false⟩ node.tree).entries []).flatMap fun entry => line entry ++ ['\n'] := by
  have reached : "".toList = ([] : List Bool).flatMap cell := rfl
  rw [Node.tree, shown, Shown.entries, List.flatMap_cons, draw, line, caption, lead]
  by_cases leaf : isLeaf node.kind = true
  · simp [leaf, Shown.entriesOf]
  · simp [leaf, toList_forest reached node.children]

/-! ## Lines -/

theorem staysInLine_label (text : String) : staysInLine (label text).toList = true := by
  have shown : staysInLine (text.toList.flatMap labelChar) = true := by
    refine staysInLine_flatMap fun c _ => ?_
    unfold labelChar
    split
    · decide
    · split
      · decide
      · simp_all
  rw [label, String.toList_ofList, shortened]
  split
  · rw [staysInLine_append, Bool.and_eq_true]
    refine ⟨?_, by decide⟩
    rw [staysInLine_iff] at shown ⊢
    exact fun c member => shown c (List.mem_of_mem_take member)
  · exact shown

theorem staysInLine_icon (kind : NodeKind) : staysInLine (icon kind).toList = true := by
  cases kind with
  | pathExpression trailer => cases trailer <;> decide +kernel
  | _ => decide +kernel

theorem staysInLine_fullName (kind : NodeKind) : staysInLine kind.fullName.toList = true := by
  cases kind with
  | pathExpression trailer => cases trailer <;> decide +kernel
  | _ => decide +kernel

theorem staysInLine_kindName (kind : TokenKind) : staysInLine kind.name.toList = true := by
  cases kind with
  | literal part | modifier part | opening part | closing part => cases part <;> decide +kernel
  | _ => decide +kernel

theorem staysInLine_caption (tree : Tree) : staysInLine (caption tree) = true := by
  cases tree with
  | token leaf => simp [caption, tokenLabel, staysInLine_kindName, staysInLine_label]
  | node kind children =>
    have label : staysInLine (nodeLabel ⟨kind, children⟩).toList = true := by
      unfold nodeLabel
      split
      · exact staysInLine_label _
      · split
        · rename_i bare
          rw [bare]
          decide
        · exact staysInLine_fullName _
    simp [caption, staysInLine_icon, label]

theorem staysInLine_lead (way : List Bool) : staysInLine (lead way) = true := by
  fun_induction lead way with
  | case1 => rfl
  | case2 last => cases last <;> decide
  | case3 last next way ih =>
    rw [staysInLine_append, ih]
    cases last <;> decide

/-- Leads of ways that are not empty tell the ways apart, whatever stands behind them. -/
theorem lead_inj {first second : Bool} {way other : List Bool} {text after : List Char}
    (same : lead (first :: way) ++ text = lead (second :: other) ++ after) :
    first :: way = second :: other ∧ text = after := by
  induction way generalizing first second other with
  | nil =>
    cases other with
    | nil => cases first <;> cases second <;> simp_all [lead, connector]
    | cons next other => cases first <;> cases second <;> simp [lead, connector, cell] at same
  | cons next way ih =>
    cases other with
    | nil => cases first <;> cases second <;> simp [lead, connector, cell] at same
    | cons next' other =>
      rw [lead, lead, List.append_assoc, List.append_assoc] at same
      obtain ⟨cells, rest⟩ := List.append_inj same (by cases first <;> cases second <;> rfl)
      obtain ⟨ways, texts⟩ := ih rest
      cases first <;> cases second <;> simp_all [cell]

/-- Lines below the first tell ways and captions apart. -/
theorem map_line_inj {left right : List (List Bool × Tree)} (below : ∀ entry ∈ left, entry.1 ≠ [])
    (below' : ∀ entry ∈ right, entry.1 ≠ []) (same : left.map line = right.map line) :
    (left.map fun entry => (entry.1, caption entry.2)) =
      right.map fun entry => (entry.1, caption entry.2) := by
  induction left generalizing right with
  | nil => rw [List.map_eq_nil_iff.mp same.symm]
  | cons entry left ih =>
    cases right with
    | nil => cases same
    | cons other right =>
      obtain ⟨first, rest⟩ := List.cons.inj same
      obtain ⟨here, others⟩ := List.forall_mem_cons.mp below
      obtain ⟨here', others'⟩ := List.forall_mem_cons.mp below'
      obtain ⟨way, tree⟩ := entry
      obtain ⟨way', tree'⟩ := other
      obtain ⟨step, way, rfl⟩ := List.exists_cons_of_ne_nil here
      obtain ⟨step', way', rfl⟩ := List.exists_cons_of_ne_nil here'
      obtain ⟨ways, captions⟩ := lead_inj first
      rw [List.map_cons, List.map_cons, ih others others' rest, ways, captions]

theorem linesWithEnds_draw (tokens : Bool) (node : Node) :
    linesWithEnds (draw ⟨tokens, false⟩ node).toList =
      (((shown ⟨tokens, false⟩ node.tree).entries []).map line).map (· ++ ['\n']) ++ [[]] := by
  have text := toList_draw tokens node
  rw [← List.flatMap_map (f := line) (g := (· ++ ['\n']))] at text
  rw [text]
  refine linesWithEnds_rows fun row member => ?_
  obtain ⟨entry, -, rfl⟩ := List.mem_map.mp member
  rw [line, staysInLine_append, staysInLine_lead, staysInLine_caption]
  rfl

/-- Lines give back the captions and their order in the tree. The first line is that of the tree
itself, and those below it all have a lead. -/
theorem map_caption_eq_of_lines {left right : Shown Tree}
    (same : (left.entries []).map line = (right.entries []).map line) :
    left.map caption = right.map caption := by
  cases left with
  | item first below =>
    cases right with
    | item second others =>
      rw [Shown.entries, Shown.entries, List.map_cons, List.map_cons] at same
      obtain ⟨captions, rest⟩ := List.cons.inj same
      have entries := map_line_inj (fun _ member => (Shown.prefix_of_mem_entriesOf member).2)
        (fun _ member => (Shown.prefix_of_mem_entriesOf member).2) rest
      rw [← Shown.entriesOf_mapAll, ← Shown.entriesOf_mapAll] at entries
      have trees := Shown.eq_of_entriesOf (Shown.mapAll caption below) (Shown.mapAll caption others)
        (congrArg (· ++ []) entries) (by simp [Shown.Leaves]) (by simp [Shown.Leaves])
      rw [Shown.map, Shown.map, trees.1]
      exact congrArg (Shown.item · _) captions

/-- A diagram has one line for each visible element, in the order of the tree, whatever the texts of
tokens are. Nodes with the same diagram have the same shape of visible elements, with the same
symbols and labels. -/
theorem diagram_shows_shape (tokens : Bool) (node : Node) :
    linesWithEnds (draw ⟨tokens, false⟩ node).toList =
      (((shown ⟨tokens, false⟩ node.tree).entries []).map line).map (· ++ ['\n']) ++ [[]] ∧
    ∀ other : Node, draw ⟨tokens, false⟩ node = draw ⟨tokens, false⟩ other →
      (shown ⟨tokens, false⟩ node.tree).shape = (shown ⟨tokens, false⟩ other.tree).shape ∧
        (shown ⟨tokens, false⟩ node.tree).map caption =
          (shown ⟨tokens, false⟩ other.tree).map caption := by
  refine ⟨linesWithEnds_draw tokens node, fun other same => ?_⟩
  have lines := linesWithEnds_draw tokens node
  rw [same, linesWithEnds_draw] at lines
  have rows :=
    (List.map_inj_right fun _ _ => List.append_cancel_right).mp (List.append_cancel_right lines)
  have captions := map_caption_eq_of_lines rows.symm
  exact ⟨by rw [← Shown.shape_map caption, captions, Shown.shape_map], captions⟩

/-- A separator that is not shown makes no difference, and a line break in a text breaks no line. -/
theorem diagram_shows_shape_of_separator :
    draw ⟨false, false⟩ ⟨.block, [.node .identifier [.token ⟨.identifier, "a\nb", ⟨0, 3⟩, 1, 1⟩],
      .token ⟨.newline, "\n", ⟨3, 4⟩, 2, 2⟩, .node .closure []]⟩ =
        "○ Block\n├─ • a\\nb\n└─ λ Closure\n" ∧
    draw ⟨false, false⟩ ⟨.block,
      [.node .identifier [.token ⟨.identifier, "a\nb", ⟨0, 3⟩, 1, 1⟩], .node .closure []]⟩ =
      "○ Block\n├─ • a\\nb\n└─ λ Closure\n" ∧
    (shown ⟨false, false⟩
      (.node .block [.node .identifier [.token ⟨.identifier, "a\nb", ⟨0, 3⟩, 1, 1⟩],
        .token ⟨.newline, "\n", ⟨3, 4⟩, 2, 2⟩, .node .closure []])).shape =
      (shown ⟨false, false⟩
        (.node .block [.node .identifier [.token ⟨.identifier, "a\nb", ⟨0, 3⟩, 1, 1⟩],
          .node .closure []])).shape := by
  have left :
      draw ⟨false, false⟩ ⟨.block, [.node .identifier [.token ⟨.identifier, "a\nb", ⟨0, 3⟩, 1, 1⟩],
        .token ⟨.newline, "\n", ⟨3, 4⟩, 2, 2⟩, .node .closure []]⟩ =
          "○ Block\n├─ • a\\nb\n└─ λ Closure\n" := by
    decide +kernel
  have right :
      draw ⟨false, false⟩ ⟨.block, [.node .identifier [.token ⟨.identifier, "a\nb", ⟨0, 3⟩, 1, 1⟩],
        .node .closure []]⟩ = "○ Block\n├─ • a\\nb\n└─ λ Closure\n" := by
    decide +kernel
  exact ⟨left, right, ((diagram_shows_shape false _).2 _ (left.trans right.symm)).1⟩

end GroovyTidy.Diagram
