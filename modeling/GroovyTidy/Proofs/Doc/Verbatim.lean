import GroovyTidy.Proofs.Doc.Rigid

set_option autoImplicit false

/-!
Layout keeps texts. A layout shows the texts of a document in their order and each of them as it is,
also one of several lines, which goes on at the first column however deep it is nested. Between the
texts stand spaces and line feeds only, and nothing at all where no line may break.
-/
namespace GroovyTidy

namespace Doc

/-- What a document is made of: texts, and places where a line may break. -/
inductive Leaf where
  | text (value : String)
  | lineBreak
  deriving DecidableEq, Repr

namespace Leaf

def isText : Leaf → Bool
  | .text _ => true
  | .lineBreak => false

def text? : Leaf → Option String
  | .text value => some value
  | .lineBreak => none

end Leaf

mutual

/-- The leaves in the order of the document, those of a separator between any two neighbours. -/
def leaves : Doc → List Leaf
  | .text value => [.text value]
  | .concat parts => (leavesOf parts).flatten
  | .hardline | .line | .softline => [.lineBreak]
  | .group inner | .indent inner => inner.leaves
  | .join separator items => separator.leaves.intercalate (leavesOf items)

def leavesOf : List Doc → List (List Leaf)
  | [] => []
  | doc :: docs => doc.leaves :: leavesOf docs

end

/-- The texts in the order of the document. -/
def texts (doc : Doc) : List String :=
  doc.leaves.filterMap Leaf.text?

mutual

/-- How many levels of indentation are nested at most. -/
def depth : Doc → Nat
  | .text _ | .hardline | .line | .softline => 0
  | .concat parts => depthOf parts
  | .group inner => inner.depth
  | .indent inner => inner.depth + 1
  | .join separator items => max separator.depth (depthOf items)

def depthOf : List Doc → Nat
  | [] => 0
  | doc :: docs => max doc.depth (depthOf docs)

end

/-- What may stand between texts. -/
def Blank (gap : List Char) : Prop :=
  ∀ c ∈ gap, c = ' ' ∨ c = '\n'

/-- The text consists of the leaves, with something blank for each place where a line may break. -/
inductive Spaced : List Leaf → List Char → Prop where
  | nil : Spaced [] []
  | text {leaves : List Leaf} {rest : List Char} (value : String) (more : Spaced leaves rest) :
      Spaced (.text value :: leaves) (value.toList ++ rest)
  | lineBreak {leaves : List Leaf} {gap rest : List Char} (blank : Blank gap)
      (more : Spaced leaves rest) : Spaced (.lineBreak :: leaves) (gap ++ rest)

theorem Spaced.append {left right : List Leaf} {front back : List Char} (first : Spaced left front)
    (second : Spaced right back) : Spaced (left ++ right) (front ++ back) := by
  induction first with
  | nil => exact second
  | text value more ih =>
    rw [List.cons_append, List.append_assoc]
    exact .text value ih
  | lineBreak blank more ih =>
    rw [List.cons_append, List.append_assoc]
    exact .lineBreak blank ih

/-- What stands between two texts is blank, and it is empty if no line may break there. -/
structure Gap (run : List Leaf) (gap : String) : Prop where
  blank : Blank gap.toList
  tight : run = [] → gap = ""

/-- The gaps are found one by one: before the first text and after each of them. -/
theorem Spaced.gaps {leaves : List Leaf} {text : List Char} (spaced : Spaced leaves text) :
    ∃ first gaps, List.Forall₂ Gap (leaves.splitOnP Leaf.isText) (first :: gaps) ∧
      gaps.length = (leaves.filterMap Leaf.text?).length ∧
      String.ofList text =
        first ++ String.join (List.zipWith (· ++ ·) (leaves.filterMap Leaf.text?) gaps) := by
  have none : Gap [] "" := ⟨by simp [Blank], fun _ => rfl⟩
  induction spaced with
  | nil => exact ⟨"", [], by simpa using none, rfl, rfl⟩
  | @text leaves rest value more ih =>
    obtain ⟨first, gaps, each, count, shape⟩ := ih
    refine ⟨"", first :: gaps, ?_, ?_, ?_⟩
    · simp only [List.splitOnP_cons_eq_if_modifyHead, Leaf.isText, ↓reduceIte]
      exact .cons none each
    · simp [Leaf.text?, count]
    · simp [Leaf.text?, shape, String.append_assoc]
  | @lineBreak leaves gap rest blank more ih =>
    obtain ⟨first, gaps, each, count, shape⟩ := ih
    refine ⟨String.ofList gap ++ first, gaps, ?_, count, ?_⟩
    · simp only [List.splitOnP_cons_eq_if_modifyHead, Leaf.isText, Bool.false_eq_true, ↓reduceIte]
      generalize leaves.splitOnP Leaf.isText = runs at each
      cases each with
      | cons here others =>
        rw [List.modifyHead_cons]
        refine .cons ⟨?_, by simp⟩ others
        intro c member
        rw [String.toList_append, String.toList_ofList] at member
        rcases List.mem_append.mp member with early | late
        · exact blank c early
        · exact here.blank c late
    · rw [String.ofList_append, shape, String.append_assoc]
      rfl

end Doc

open Doc

namespace Layout

/-! ## Pieces -/

/-- Laid out at an indentation, with other pieces and frames after them, the pieces add a text that
consists of the leaves. -/
def Lays (indent : Nat) (pieces : List Piece) (leaves : List Leaf) : Prop :=
  ∀ (width : Nat) (flat : Bool) (rest : List Frame) (page : Page) (more : List Piece), ∃ next text,
    Spaced leaves text ∧ next.text = page.text ++ String.ofList text ∧
      layAll width flat indent rest page (pieces ++ more) = layAll width flat indent rest next more

section

variable {indent : Nat} {pieces : List Piece} {leaves : List Leaf}

theorem Lays.nil (indent : Nat) : Lays indent [] [] := by
  intro width flat rest page more
  exact ⟨page, [], .nil, by simp, rfl⟩

theorem Lays.append {right : List Piece} {others : List Leaf} (first : Lays indent pieces leaves)
    (second : Lays indent right others) : Lays indent (pieces ++ right) (leaves ++ others) := by
  intro width flat rest page more
  obtain ⟨middle, front, frontSpaced, frontAdded, frontLaid⟩ :=
    first width flat rest page (right ++ more)
  obtain ⟨next, back, backSpaced, backAdded, backLaid⟩ := second width flat rest middle more
  refine ⟨next, front ++ back, frontSpaced.append backSpaced, ?_, ?_⟩
  · rw [backAdded, frontAdded, String.ofList_append, String.append_assoc]
  · rw [List.append_assoc, frontLaid, backLaid]

theorem Lays.flatten {parts : List (List Piece)} {shown : List (List Leaf)}
    (each : List.Forall₂ (Lays indent) parts shown) : Lays indent parts.flatten shown.flatten := by
  induction each with
  | nil => exact .nil indent
  | cons first rest ih => exact first.append ih

/-- Pieces that nothing follows. -/
theorem Lays.layAll (lays : Lays indent pieces leaves) (width : Nat) (flat : Bool)
    (rest : List Frame) (page : Page) :
    ∃ text, Spaced leaves text ∧
      (layAll width flat indent rest page pieces).text = page.text ++ String.ofList text := by
  obtain ⟨next, text, spaced, added, laid⟩ := lays width flat rest page []
  rw [List.append_nil] at laid
  exact ⟨text, spaced, by rw [laid, Layout.layAll, added]⟩

theorem Lays.single {piece : Piece}
    (given : ∀ width flat rest page, ∃ text, Spaced leaves text ∧
      (lay width flat indent rest page piece).text = page.text ++ String.ofList text) :
    Lays indent [piece] leaves := by
  intro width flat rest page more
  obtain ⟨text, spaced, added⟩ := given width flat (⟨indent, more⟩ :: rest) page
  exact ⟨_, text, spaced, added, rfl⟩

/-- A step deeper or back, unless there is nothing to lay out. -/
theorem Lays.nested {columns : Int} (lays : Lays (shift indent columns) pieces leaves) :
    Lays indent (nested columns pieces) leaves := by
  unfold Layout.nested
  split
  · rename_i still
    simpa [still, shift] using lays
  · split
    · rename_i empty
      rw [List.isEmpty_iff] at empty
      subst empty
      intro width flat rest page more
      obtain ⟨text, spaced, added⟩ := lays.layAll width flat rest page
      exact ⟨page, text, spaced, added, rfl⟩
    · exact .single fun width flat rest page => lays.layAll width flat rest page

theorem Lays.group (lays : Lays indent pieces leaves) :
    Lays indent (if pieces.isEmpty then [] else [.group pieces]) leaves := by
  split
  · rename_i empty
    rw [List.isEmpty_iff] at empty
    exact empty ▸ lays
  · exact .single fun width flat rest page => lays.layAll width _ rest page

end

/-- A line break adds a line feed and the spaces of an indentation. -/
theorem breakLine_text (page : Page) (indent : Nat) :
    ∃ gap, Blank gap ∧ (page.breakLine indent).text = page.text ++ String.ofList gap := by
  refine ⟨'\n' :: List.replicate indent ' ', ?_, ?_⟩
  · intro c member
    rcases List.mem_cons.mp member with feed | space
    · exact .inr feed
    · exact .inl (List.eq_of_mem_replicate space)
  · rw [← String.toList_inj]
    simp [Page.breakLine]

theorem spaced_of_blank {gap : List Char} (blank : Blank gap) : Spaced [.lineBreak] gap := by
  simpa using Spaced.lineBreak blank .nil

theorem breakLine_spaced (page : Page) (indent : Nat) :
    ∃ text, Spaced [.lineBreak] text ∧
      (page.breakLine indent).text = page.text ++ String.ofList text := by
  obtain ⟨gap, blank, added⟩ := breakLine_text page indent
  exact ⟨gap, spaced_of_blank blank, added⟩

theorem hardline_lays (indent : Nat) : Lays indent [.hardline] [.lineBreak] :=
  .single fun _ _ rest page => breakLine_spaced page (nextIndent indent rest)

theorem line_lays (indent : Nat) : Lays indent [.line] [.lineBreak] := by
  apply Lays.single
  intro width flat rest page
  cases flat with
  | false => exact breakLine_spaced page (nextIndent indent rest)
  | true => exact ⟨[' '], spaced_of_blank (by simp [Blank]), rfl⟩

theorem softline_lays (indent : Nat) : Lays indent [.softline] [.lineBreak] := by
  apply Lays.single
  intro width flat rest page
  cases flat with
  | false => exact breakLine_spaced page (nextIndent indent rest)
  | true => exact ⟨[], spaced_of_blank (by simp [Blank]), by simp [lay]⟩

/-! ## Texts -/

theorem textPieces_lays (indent : Nat) (value : String) :
    Lays indent (textPieces value.toList) [.text value] := by
  have shown : Spaced [.text value] value.toList := by
    simpa using Spaced.text value .nil
  unfold textPieces
  split
  · rename_i empty
    rw [List.isEmpty_iff] at empty
    intro width flat rest page more
    exact ⟨page, value.toList, shown, by simp [empty], rfl⟩
  · apply Lays.single
    intro width flat rest page
    exact ⟨value.toList, shown, by simp [lay, Page.write]⟩

/-- At the first column plain pieces add their text, whatever follows them. A line break takes the
indentation of what follows it, which is one of these pieces, since the text does not end with a
line feed. -/
theorem Plain.layAll_append {pieces : List Piece} {text : List Char} (plain : Plain pieces text)
    (ended : text.getLast? ≠ some '\n') (width : Nat) (flat : Bool) (rest : List Frame)
    (page : Page) (more : List Piece) :
    ∃ next, next.text = page.text ++ String.ofList text ∧
      layAll width flat 0 rest page (pieces ++ more) = layAll width flat 0 rest next more := by
  induction plain generalizing page with
  | nil => exact ⟨page, by simp, rfl⟩
  | @text pieces after value plain ih =>
    have later : after.getLast? ≠ some '\n' := by
      intro feed
      exact ended (by rw [List.getLast?_append, feed, Option.some_or])
    obtain ⟨next, added, laid⟩ := ih later (page.write value)
    refine ⟨next, ?_, laid⟩
    rw [added, Page.write, String.ofList_append, String.ofList_toList, String.append_assoc]
  | @hardline pieces after plain ih =>
    have filled : after ≠ [] := by
      rintro rfl
      exact ended rfl
    have follows : pieces ≠ [] := by
      rintro rfl
      cases plain
      exact filled rfl
    have later : after.getLast? ≠ some '\n' := by
      rwa [List.getLast?_cons_of_ne_nil filled] at ended
    have column : nextIndent 0 (⟨0, pieces ++ more⟩ :: rest) = 0 := by
      simp [nextIndent, follows]
    obtain ⟨next, added, laid⟩ := ih later (page.breakLine 0)
    refine ⟨next, ?_, ?_⟩
    · rw [added, ← String.toList_inj]
      simp [Page.breakLine]
    · rw [List.cons_append, layAll, lay, column, laid]

/-- A text of several lines steps back from its depth to the first column. -/
theorem textBlock_lays (depth : Nat) {value : String} (ended : value.toList.getLast? ≠ some '\n') :
    Lays depth (textBlock depth value) [.text value] := by
  unfold textBlock
  dsimp only
  split
  · exact textPieces_lays depth value
  · apply Lays.nested
    have first : shift depth (-depth) = 0 := by
      rw [shift, Int.add_right_neg]
      rfl
    rw [first]
    intro width flat rest page more
    obtain ⟨next, added, laid⟩ := (lines_plain value).layAll_append ended width flat rest page more
    exact ⟨next, value.toList, by simpa using Spaced.text value .nil, added, laid⟩

/-! ## Documents -/

theorem Lays.separated {indent : Nat} {between : List Piece} {separator : List Leaf}
    {parts : List (List Piece)} {shown : List (List Leaf)}
    (each : List.Forall₂ (Lays indent) parts shown)
    (given : 2 ≤ shown.length → Lays indent between separator) :
    Lays indent (separated between parts) (separator.intercalate shown) := by
  induction each with
  | nil => exact .nil indent
  | cons first rest ih =>
    cases rest with
    | nil =>
      rw [List.intercalate_singleton]
      exact first
    | cons second others =>
      rw [List.intercalate_cons_cons]
      have lays := given (by simp)
      exact (first.append lays).append (ih fun _ => lays)

/-- A document stands so many levels deep and nests so many more. Those that it nests are as wide as
the options say, and no column gets too large for a signed word. -/
structure Room (level : Int) (width above depth : Nat) : Prop where
  columns : depth ≠ 0 → level = width
  bounded : (above + depth) * width < Nat.pow 2 63

theorem Room.mono {level : Int} {width above small large : Nat}
    (room : Room level width above large) (less : small ≤ large) :
    Room level width above small := by
  refine ⟨fun deep => room.columns (by omega), ?_⟩
  have product : (above + small) * width ≤ (above + large) * width :=
    Nat.mul_le_mul_right width (by omega)
  have bounded := room.bounded
  omega

theorem bmod_of_small {columns : Nat} (small : columns < Nat.pow 2 63) :
    Int.bmod columns (Nat.pow 2 64) = columns := by
  rw [Nat.pow_eq] at small ⊢
  apply Int.bmod_eq_of_le
  · omega
  · omega

/-- One level deeper the columns are still added up as they are. -/
theorem Room.deeper {level : Int} {width above depth : Nat}
    (room : Room level width above (depth + 1)) :
    Room level width (above + 1) depth ∧ level = width ∧
      Int.bmod ((above * width : Nat) + level) (Nat.pow 2 64) = ((above + 1) * width : Nat) := by
  have columns := room.columns (Nat.succ_ne_zero depth)
  have bounded : (above + 1 + depth) * width < Nat.pow 2 63 := by
    rw [Nat.add_assoc, Nat.add_comm 1 depth]
    exact room.bounded
  have here : (above + 1) * width ≤ (above + 1 + depth) * width :=
    Nat.mul_le_mul_right width (by omega)
  refine ⟨⟨fun _ => columns, bounded⟩, columns, ?_⟩
  have sum : ((above * width : Nat) : Int) + level = ((above + 1) * width : Nat) := by
    rw [columns, Nat.succ_mul]
    rfl
  rw [sum]
  exact bmod_of_small (by omega)

/-- No text among the leaves ends with a line feed. -/
def Ended (leaves : List Leaf) : Prop :=
  ∀ value, .text value ∈ leaves → value.toList.getLast? ≠ some '\n'

theorem ended_append {left right : List Leaf} (ended : Ended (left ++ right)) :
    Ended left ∧ Ended right := by
  constructor
  · intro value inside
    exact ended value (List.mem_append_left right inside)
  · intro value inside
    exact ended value (List.mem_append_right left inside)

/-- Items are always shown, and a separator is shown if there are several of them. -/
theorem ended_intercalate {separator : List Leaf} {parts : List (List Leaf)}
    (ended : Ended (separator.intercalate parts)) :
    (∀ part ∈ parts, Ended part) ∧ (2 ≤ parts.length → Ended separator) := by
  induction parts with
  | nil => simp
  | cons first rest ih =>
    cases rest with
    | nil =>
      rw [List.intercalate_singleton] at ended
      simpa using ended
    | cons second others =>
      rw [List.intercalate_cons_cons] at ended
      obtain ⟨front, back⟩ := ended_append ended
      obtain ⟨here, between⟩ := ended_append front
      exact ⟨List.forall_mem_cons.mpr ⟨here, (ih back).1⟩, fun _ => between⟩

mutual

/-- The pieces of a document show its leaves, at the depth that they are made for. -/
theorem pieces_lays {level : Int} {width above : Nat} (doc : Doc)
    (room : Room level width above doc.depth) (ended : Ended doc.leaves) :
    Lays (above * width) (pieces level (above * width : Nat) doc) doc.leaves := by
  cases doc with
  | text value => exact textBlock_lays _ (ended value (by simp [leaves]))
  | hardline => exact hardline_lays _
  | line => exact line_lays _
  | softline => exact softline_lays _
  | concat parts =>
    apply Lays.flatten
    apply piecesOf_lays parts room
    intro part member value inside
    exact ended value (List.mem_flatten_of_mem member inside)
  | group inner => exact (pieces_lays inner room ended).group
  | indent inner =>
    obtain ⟨deeper, columns, sum⟩ := room.deeper
    rw [pieces, sum]
    apply Lays.nested
    have reached : shift (above * width) level = (above + 1) * width := by
      rw [shift, columns, Nat.succ_mul]
      rfl
    rw [reached]
    exact pieces_lays inner deeper ended
  | join separator items =>
    have inner := room.mono (Nat.le_max_right separator.depth (depthOf items))
    have outer := room.mono (Nat.le_max_left separator.depth (depthOf items))
    obtain ⟨each, between⟩ := ended_intercalate ended
    apply Lays.separated
    · exact piecesOf_lays items inner each
    · intro several
      exact pieces_lays separator outer (between several)

theorem piecesOf_lays {level : Int} {width above : Nat} (docs : List Doc)
    (room : Room level width above (depthOf docs)) (ended : ∀ part ∈ leavesOf docs, Ended part) :
    List.Forall₂ (Lays (above * width)) (piecesOf level (above * width : Nat) docs)
      (leavesOf docs) := by
  cases docs with
  | nil => exact .nil
  | cons doc docs =>
    obtain ⟨first, others⟩ := List.forall_mem_cons.mp ended
    exact .cons (pieces_lays doc (room.mono (Nat.le_max_left _ _)) first)
      (piecesOf_lays docs (room.mono (Nat.le_max_right _ _)) others)

end

end Layout

/-- The width of an indentation is read as it is, if there is a level of it. -/
theorem Layout.room_of_options {depth : Nat} {options : LayoutOptions}
    (small : depth * options.indentWidth < Nat.pow 2 63) :
    Room (indentColumns options) options.indentWidth 0 depth := by
  constructor
  · intro deep
    have once : options.indentWidth ≤ depth * options.indentWidth :=
      Nat.le_mul_of_pos_left _ (by omega)
    exact bmod_of_small (by omega)
  · rw [Nat.zero_add]
    exact small

/-- A layout consists of the texts in their order, each as it is, with gaps before the first,
between neighbours and after the last. A gap has only spaces and line feeds in it, and it is empty
where no line may break. -/
theorem Doc.render_keeps_texts (doc : Doc) (options : LayoutOptions)
    (ended : ∀ value ∈ doc.texts, value.toList.getLast? ≠ some '\n')
    (small : doc.depth * options.indentWidth < Nat.pow 2 63) :
    ∃ first gaps, List.Forall₂ Gap (doc.leaves.splitOnP Leaf.isText) (first :: gaps) ∧
      gaps.length = doc.texts.length ∧
      doc.render options = first ++ String.join (List.zipWith (· ++ ·) doc.texts gaps) := by
  have leavesEnded : Layout.Ended doc.leaves := by
    intro value inside
    exact ended value (List.mem_filterMap.mpr ⟨_, inside, rfl⟩)
  have lays := Layout.pieces_lays doc (Layout.room_of_options small) leavesEnded
  rw [Nat.zero_mul] at lays
  obtain ⟨text, spaced, added⟩ := lays.layAll options.printWidth false [] ⟨"", 0⟩
  obtain ⟨first, gaps, each, count, shape⟩ := spaced.gaps
  refine ⟨first, gaps, each, count, ?_⟩
  rw [← String.empty_append (s := String.ofList text)] at shape
  exact added.trans shape

/-- A literal of several lines two levels deep, with an empty line in it, between line breaks that
are indented. -/
theorem Doc.render_keeps_texts_of_block :
    let doc : Doc := .concat [.text "a \x7b", .indent (.group (.indent (.concat
      [.line, .text "\n'''one\n  two\n\n'''", .softline, .text "b"]))), .hardline, .text "\x7d"]
    doc.render ⟨9, 2⟩ = "a \x7b\n    \n'''one\n  two\n\n'''\n    b\n\x7d" ∧
      doc.texts = ["a \x7b", "\n'''one\n  two\n\n'''", "b", "\x7d"] ∧
      doc.leaves.splitOnP Leaf.isText = [[], [.lineBreak], [.lineBreak], [.lineBreak], []] ∧
      ∃ first gaps, List.Forall₂ Gap (doc.leaves.splitOnP Leaf.isText) (first :: gaps) ∧
        gaps.length = doc.texts.length ∧
        doc.render ⟨9, 2⟩ = first ++ String.join (List.zipWith (· ++ ·) doc.texts gaps) := by
  intro doc
  exact ⟨by decide +kernel, by decide +kernel, by decide +kernel,
    doc.render_keeps_texts ⟨9, 2⟩ (by decide +kernel) (by decide +kernel)⟩

end GroovyTidy
