import GroovyTidy.Proofs.Doc.Rigid

set_option autoImplicit false

/-!
Documents that are laid out as nothing. A layout only adds to the page, so it is empty only if no
piece adds anything. What is told to be empty may still have soft line breaks. Inside a group they
stay away at every width, since nothing stands on the line that could be too long. A soft line break
that no group encloses always breaks the line.
-/
namespace GroovyTidy

mutual

/-- Every soft line break stands in a group. A separator counts if it is shown. -/
def Doc.softlinesGrouped : Doc → Bool
  | .text _ | .hardline | .line | .group _ => true
  | .softline => false
  | .concat parts => Doc.allGrouped parts
  | .indent inner => inner.softlinesGrouped
  | .join separator items =>
    Doc.allGrouped items && (items.length < 2 || separator.softlinesGrouped)

def Doc.allGrouped : List Doc → Bool
  | [] => true
  | doc :: docs => doc.softlinesGrouped && Doc.allGrouped docs

end

namespace Layout

mutual

/-- The piece adds nothing to a page where it is laid out flat, or where it is laid out with line
breaks and groups have room. -/
def idle (flat : Bool) : Piece → Bool
  | .text value => value.isEmpty
  | .hardline | .line => false
  | .softline => flat
  | .nest _ body => idleAll flat body
  | .group body => idleAll true body

def idleAll (flat : Bool) : List Piece → Bool
  | [] => true
  | piece :: pieces => idle flat piece && idleAll flat pieces

end

mutual

theorem idle_flat {flat : Bool} {piece : Piece} (still : idle flat piece = true) :
    idle true piece = true := by
  cases piece with
  | text value => exact still
  | hardline => exact still
  | line => exact still
  | softline => rfl
  | nest columns body =>
    have inside : idleAll flat body = true := still
    exact idleAll_flat inside
  | group body => exact still

theorem idleAll_flat {flat : Bool} {pieces : List Piece} (still : idleAll flat pieces = true) :
    idleAll true pieces = true := by
  cases pieces with
  | nil => rfl
  | cons piece pieces =>
    obtain ⟨first, others⟩ := Bool.and_eq_true_iff.mp still
    exact Bool.and_eq_true_iff.mpr ⟨idle_flat first, idleAll_flat others⟩

end

/-! ## What is added to a page -/

theorem breakLine_adds (page : Page) (indent : Nat) :
    ∃ added, (page.breakLine indent).text = page.text ++ added ∧ added ≠ "" := by
  refine ⟨"\n" ++ String.ofList (List.replicate indent ' '), ?_, ?_⟩
  · rw [Page.breakLine, String.append_assoc]
  · simp

mutual

/-- A piece only adds to the page, and it adds something unless it is idle. -/
theorem lay_adds (width : Nat) (flat : Bool) (indent : Nat) (rest : List Frame) (page : Page)
    (piece : Piece) :
    ∃ added, (lay width flat indent rest page piece).text = page.text ++ added ∧
      (added = "" → idle flat piece = true) := by
  have breaks : ∃ added, (page.breakLine (nextIndent indent rest)).text = page.text ++ added ∧
      (added = "" → idle flat piece = true) := by
    obtain ⟨added, shape, filled⟩ := breakLine_adds page (nextIndent indent rest)
    exact ⟨added, shape, fun empty => absurd empty filled⟩
  cases piece with
  | text value => exact ⟨value, rfl, fun empty => String.isEmpty_iff.mpr empty⟩
  | hardline => exact breaks
  | line =>
    cases flat with
    | false => exact breaks
    | true => exact ⟨" ", rfl, fun empty => absurd empty (by decide)⟩
  | softline =>
    cases flat with
    | false => exact breaks
    | true => exact ⟨"", String.append_empty.symm, fun _ => rfl⟩
  | nest columns body => exact layAll_adds width flat (shift indent columns) rest page body
  | group body =>
    obtain ⟨added, shape, still⟩ :=
      layAll_adds width (flat || fits width page.column body rest) indent rest page body
    exact ⟨added, shape, fun empty => idleAll_flat (still empty)⟩

theorem layAll_adds (width : Nat) (flat : Bool) (indent : Nat) (rest : List Frame) (page : Page)
    (pieces : List Piece) :
    ∃ added, (layAll width flat indent rest page pieces).text = page.text ++ added ∧
      (added = "" → idleAll flat pieces = true) := by
  cases pieces with
  | nil => exact ⟨"", String.append_empty.symm, fun _ => rfl⟩
  | cons piece pieces =>
    obtain ⟨front, frontShape, frontStill⟩ :=
      lay_adds width flat indent (⟨indent, pieces⟩ :: rest) page piece
    obtain ⟨back, backShape, backStill⟩ := layAll_adds width flat indent rest
      (lay width flat indent (⟨indent, pieces⟩ :: rest) page piece) pieces
    refine ⟨front ++ back, ?_, ?_⟩
    · rw [layAll, backShape, frontShape, String.append_assoc]
    · intro empty
      obtain ⟨noFront, noBack⟩ := String.append_eq_empty_iff.mp empty
      exact Bool.and_eq_true_iff.mpr ⟨frontStill noFront, backStill noBack⟩

end

/-! ## Groups of idle pieces have room -/

/-- Nothing is reached beyond the column. -/
def Reach.Stays (column : Nat) (reach : Reach) : Prop :=
  reach = .upTo column ∨ reach = .lineBreak

theorem Reach.Stays.andThen {column : Nat} {reach : Reach} {next : Nat → Reach}
    (first : reach.Stays column) (second : (next column).Stays column) :
    (reach.andThen next).Stays column := by
  rcases first with rfl | rfl
  · exact second
  · exact .inr rfl

mutual

theorem reach_stays {width column : Nat} (room : column ≤ width) (flat : Bool) {piece : Piece}
    (still : idle true piece = true) : (reach width flat column piece).Stays column := by
  cases piece with
  | text value =>
    obtain rfl := String.isEmpty_iff.mp still
    left
    exact if_neg (Nat.not_lt.mpr room)
  | hardline => cases still
  | line => cases still
  | softline =>
    cases flat with
    | false => exact .inr rfl
    | true => exact .inl rfl
  | nest columns body =>
    have inside : idleAll true body = true := still
    exact reachAll_stays room flat inside
  | group body =>
    have inside : idleAll true body = true := still
    exact reachAll_stays room flat inside

theorem reachAll_stays {width column : Nat} (room : column ≤ width) (flat : Bool)
    {pieces : List Piece} (still : idleAll true pieces = true) :
    (reachAll width flat column pieces).Stays column := by
  cases pieces with
  | nil => exact .inl rfl
  | cons piece pieces =>
    obtain ⟨first, others⟩ := Bool.and_eq_true_iff.mp still
    exact (reach_stays room flat first).andThen (reachAll_stays room flat others)

end

theorem reachFrames_stays {width column : Nat} (room : column ≤ width) {frames : List Frame}
    (still : ∀ frame ∈ frames, idleAll true frame.pieces = true) :
    (reachFrames width column frames).Stays column := by
  induction frames with
  | nil => exact .inl rfl
  | cons frame frames ih =>
    obtain ⟨first, others⟩ := List.forall_mem_cons.mp still
    exact (reachAll_stays room false first).andThen (ih others)

/-- A group of idle pieces before idle pieces has room. -/
theorem fits_of_idle {width column : Nat} (room : column ≤ width) {body : List Piece}
    {rest : List Frame} (still : idleAll true body = true)
    (after : ∀ frame ∈ rest, idleAll true frame.pieces = true) :
    fits width column body rest = true := by
  have stays :
      ((reachAll width true column body).andThen fun column => reachFrames width column rest).Stays
        column :=
    (reachAll_stays room true still).andThen (reachFrames_stays room after)
  rcases stays with upTo | lineBreak
  · rw [fits, upTo]
    rfl
  · rw [fits, lineBreak]
    rfl

mutual

/-- Idle pieces before idle pieces leave the page as it is. -/
theorem lay_of_idle {width : Nat} {flat : Bool} {indent : Nat} {rest : List Frame} {page : Page}
    (room : page.column ≤ width) (after : ∀ frame ∈ rest, idleAll true frame.pieces = true)
    {piece : Piece} (still : idle flat piece = true) :
    lay width flat indent rest page piece = page := by
  cases piece with
  | text value =>
    obtain rfl := String.isEmpty_iff.mp still
    rw [lay, Page.write, String.append_empty]
    rfl
  | hardline => cases still
  | line => cases still
  | softline =>
    cases flat with
    | false => cases still
    | true => rfl
  | nest columns body =>
    have inside : idleAll flat body = true := still
    exact layAll_of_idle room after inside
  | group body =>
    have inside : idleAll true body = true := still
    rw [lay, fits_of_idle room inside after, Bool.or_true]
    exact layAll_of_idle room after inside

theorem layAll_of_idle {width : Nat} {flat : Bool} {indent : Nat} {rest : List Frame} {page : Page}
    (room : page.column ≤ width) (after : ∀ frame ∈ rest, idleAll true frame.pieces = true)
    {pieces : List Piece} (still : idleAll flat pieces = true) :
    layAll width flat indent rest page pieces = page := by
  cases pieces with
  | nil => rfl
  | cons piece pieces =>
    obtain ⟨first, others⟩ := Bool.and_eq_true_iff.mp still
    rw [layAll, lay_of_idle room (List.forall_mem_cons.mpr ⟨idleAll_flat others, after⟩) first]
    exact layAll_of_idle room after others

end

/-! ## Documents -/

theorem idleAll_append (flat : Bool) (left right : List Piece) :
    idleAll flat (left ++ right) = (idleAll flat left && idleAll flat right) := by
  induction left with
  | nil => rfl
  | cons piece left ih => rw [List.cons_append, idleAll, idleAll, ih, Bool.and_assoc]

theorem idleAll_flatten (flat : Bool) (parts : List (List Piece)) :
    idleAll flat parts.flatten = parts.all (idleAll flat) := by
  induction parts with
  | nil => rfl
  | cons part parts ih => rw [List.flatten_cons, idleAll_append, ih, List.all_cons]

theorem idleAll_separated (flat : Bool) (between : List Piece) (parts : List (List Piece)) :
    idleAll flat (separated between parts) =
      (parts.all (idleAll flat) && (parts.length < 2 || idleAll flat between)) := by
  induction parts with
  | nil => rfl
  | cons part parts ih =>
    cases parts with
    | nil => simp [separated]
    | cons next parts =>
      rw [separated, idleAll_append, idleAll_append, ih]
      · cases idleAll flat between <;> simp
      · simp

theorem idleAll_nested (flat : Bool) (columns : Int) (body : List Piece) :
    idleAll flat (nested columns body) = idleAll flat body := by
  unfold nested
  split
  · rfl
  · split
    · rename_i empty
      rw [List.isEmpty_iff.mp empty]
    · exact Bool.and_true _

theorem idleAll_textBlock (flat : Bool) (depth : Int) (value : String) :
    idleAll flat (textBlock depth value) = value.isEmpty := by
  rw [textBlock]
  split
  · rw [textPieces]
    split
    · rename_i empty
      simpa [idleAll] using empty
    · simp [idleAll, idle]
  · rename_i several
    have filled : value.isEmpty = false := by
      rw [Bool.eq_false_iff]
      intro empty
      obtain rfl := String.isEmpty_iff.mp empty
      exact several (Nat.le_refl 1)
    rw [idleAll_nested, idleAll_separated, List.length_map, filled, decide_eq_false (by omega)]
    exact Bool.and_false _

theorem length_piecesOf (level depth : Int) (docs : List Doc) :
    (piecesOf level depth docs).length = docs.length := by
  induction docs with
  | nil => rfl
  | cons doc docs ih => rw [piecesOf, List.length_cons, List.length_cons, ih]

mutual

/-- The pieces of a document are idle if it is told to be empty and, with line breaks, its soft ones
stand in groups. -/
theorem idleAll_pieces (flat : Bool) (level depth : Int) (doc : Doc) :
    idleAll flat (pieces level depth doc) = (doc.isEmpty && (flat || doc.softlinesGrouped)) := by
  cases doc with
  | text value => simp [pieces, idleAll_textBlock, Doc.isEmpty, Doc.softlinesGrouped]
  | hardline => rfl
  | line => rfl
  | softline => simp [pieces, idleAll, idle, Doc.isEmpty, Doc.softlinesGrouped]
  | concat parts =>
    rw [pieces, idleAll_flatten, all_idle_piecesOf, Doc.isEmpty, Doc.softlinesGrouped]
  | group inner =>
    have inside := idleAll_pieces true level depth inner
    rw [Bool.true_or, Bool.and_true] at inside
    rw [Doc.isEmpty, Doc.softlinesGrouped, Bool.or_true, Bool.and_true, ← inside, pieces]
    split
    · rename_i empty
      rw [List.isEmpty_iff.mp empty]
      rfl
    · exact Bool.and_true _
  | indent inner => rw [pieces, idleAll_nested, idleAll_pieces, Doc.isEmpty, Doc.softlinesGrouped]
  | join separator items =>
    rw [pieces, idleAll_separated, all_idle_piecesOf, length_piecesOf,
      idleAll_pieces flat level depth separator, Doc.isEmpty, Doc.softlinesGrouped]
    cases flat <;> cases decide (items.length < 2) <;> simp [Bool.and_left_comm, Bool.and_assoc]

theorem all_idle_piecesOf (flat : Bool) (level depth : Int) (docs : List Doc) :
    (piecesOf level depth docs).all (idleAll flat) =
      (Doc.allEmpty docs && (flat || Doc.allGrouped docs)) := by
  cases docs with
  | nil => simp [piecesOf, Doc.allEmpty, Doc.allGrouped]
  | cons doc docs =>
    rw [piecesOf, List.all_cons, idleAll_pieces flat level depth doc, all_idle_piecesOf,
      Doc.allEmpty, Doc.allGrouped]
    cases flat <;> simp [Bool.and_left_comm, Bool.and_assoc]

end

end Layout

/-- A document is laid out as nothing if it is told to be empty and no soft line break stands
outside of a group. -/
theorem Doc.render_eq_empty_iff (doc : Doc) (options : LayoutOptions) :
    doc.render options = "" ↔ doc.isEmpty = true ∧ doc.softlinesGrouped = true := by
  have pieces := Layout.idleAll_pieces false (Layout.indentColumns options) 0 doc
  rw [Bool.false_or] at pieces
  rw [← Bool.and_eq_true_iff, ← pieces]
  constructor
  · intro nothing
    obtain ⟨added, shape, still⟩ := Layout.layAll_adds options.printWidth false 0 [] ⟨"", 0⟩
      (Layout.pieces (Layout.indentColumns options) 0 doc)
    apply still
    rw [← String.empty_append (s := added), ← shape]
    exact nothing
  · intro still
    rw [render, Layout.layAll_of_idle (Nat.zero_le _) (by simp) still]

/-- A document is laid out as nothing exactly if it is told to be empty and its soft line breaks
stand in groups. So the test for emptiness is right about a document exactly if it does not miss a
soft line break outside of a group, and it is right about every document that is laid out as a
group. -/
theorem Doc.renders_nothing_iff (doc : Doc) :
    (∀ options, doc.render options = "" ↔ doc.isEmpty = true ∧ doc.softlinesGrouped = true) ∧
    ((doc.isEmpty = true ↔ ∀ options, doc.render options = "") ↔
      (doc.isEmpty = true → doc.softlinesGrouped = true)) ∧
    (doc.isEmpty = true ↔ ∀ options, (Doc.group doc).render options = "") := by
  have always : ∀ doc : Doc, (∀ options, doc.render options = "") ↔ doc.isEmpty = true ∧
      doc.softlinesGrouped = true := by
    intro doc
    constructor
    · intro nothing
      exact (doc.render_eq_empty_iff ⟨80, 4⟩).mp (nothing ⟨80, 4⟩)
    · intro told options
      exact (doc.render_eq_empty_iff options).mpr told
  refine ⟨doc.render_eq_empty_iff, ?_, ?_⟩
  · rw [always]
    tauto
  · rw [always]
    exact (and_iff_left rfl).symm

/-- A soft line break alone is told to be empty and breaks the line. -/
theorem Doc.softline_renders_break :
    ¬ ∀ doc : Doc, doc.isEmpty = true ↔ ∀ options, doc.render options = "" := by
  intro right
  have nothing := (right .softline).mp rfl ⟨80, 4⟩
  have feed : Doc.softline.render ⟨80, 4⟩ = "\n" := by decide +kernel
  rw [feed] at nothing
  exact absurd nothing (by decide)

end GroovyTidy
