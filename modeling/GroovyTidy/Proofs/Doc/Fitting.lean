import GroovyTidy.Proofs.Doc.Rigid

set_option autoImplicit false

/-!
Groups that fit. A document in which no line has to break takes a known number of columns on one
line, and a group around it is laid out on one line if there is room for so many, whatever stands
inside: groups, indentations, separators and places where a line might break.
-/
namespace GroovyTidy

namespace Doc

mutual

/-- No line has to break: there is no hard line break, and no text has a line feed in it. -/
def unbroken : Doc → Bool
  | .text value => !value.toList.contains '\n'
  | .concat parts => allUnbroken parts
  | .hardline => false
  | .line | .softline => true
  | .group inner | .indent inner => inner.unbroken
  | .join separator items => separator.unbroken && allUnbroken items

def allUnbroken : List Doc → Bool
  | [] => true
  | doc :: docs => doc.unbroken && allUnbroken docs

end

mutual

/-- The columns that the flat text takes. They are counted text by text, as a layout counts them. -/
def flatWidth : Doc → Nat
  | .text value => Text.width value.toList
  | .concat parts => flatWidthOf parts
  | .hardline => 0
  | .line => 1
  | .softline => 0
  | .group inner | .indent inner => inner.flatWidth
  | .join separator items => flatWidthOf items + separator.flatWidth * (items.length - 1)

def flatWidthOf : List Doc → Nat
  | [] => 0
  | doc :: docs => doc.flatWidth + flatWidthOf docs

end

end Doc

namespace Layout

/-- Laid out flat, the pieces take so many columns and read as a text. -/
inductive OneLine : List Piece → Nat → List Char → Prop where
  | nil : OneLine [] 0 []
  | text {pieces : List Piece} {columns : Nat} {rest : List Char} (value : String)
      (more : OneLine pieces columns rest) :
      OneLine (.text value :: pieces) (Text.width value.toList + columns) (value.toList ++ rest)
  | line {pieces : List Piece} {columns : Nat} {rest : List Char}
      (more : OneLine pieces columns rest) : OneLine (.line :: pieces) (1 + columns) (' ' :: rest)
  | softline {pieces : List Piece} {columns : Nat} {rest : List Char}
      (more : OneLine pieces columns rest) : OneLine (.softline :: pieces) columns rest
  | nest {pieces body : List Piece} {columns inside : Nat} {rest text : List Char} (step : Int)
      (nested : OneLine body inside text) (more : OneLine pieces columns rest) :
      OneLine (.nest step body :: pieces) (inside + columns) (text ++ rest)
  | group {pieces body : List Piece} {columns inside : Nat} {rest text : List Char}
      (grouped : OneLine body inside text) (more : OneLine pieces columns rest) :
      OneLine (.group body :: pieces) (inside + columns) (text ++ rest)

namespace OneLine

variable {pieces : List Piece} {columns : Nat} {text : List Char}

theorem append {right : List Piece} {others : Nat} {back : List Char}
    (first : OneLine pieces columns text) (second : OneLine right others back) :
    OneLine (pieces ++ right) (columns + others) (text ++ back) := by
  induction first with
  | nil => simpa using second
  | text value _ ih =>
    rw [Nat.add_assoc, List.append_assoc]
    exact .text value ih
  | line _ ih =>
    rw [Nat.add_assoc]
    exact .line ih
  | softline _ ih => exact .softline ih
  | nest step nested _ _ ih =>
    rw [Nat.add_assoc, List.append_assoc]
    exact .nest step nested ih
  | group grouped _ _ ih =>
    rw [Nat.add_assoc, List.append_assoc]
    exact .group grouped ih

/-- Nesting does not show on one line. -/
theorem nested (step : Int) (shown : OneLine pieces columns text) :
    OneLine (Layout.nested step pieces) columns text := by
  unfold Layout.nested
  split
  · exact shown
  · split
    · rename_i empty
      rwa [List.isEmpty_iff.mp empty] at shown
    · have alone := OneLine.nest step shown .nil
      rwa [Nat.add_zero, List.append_nil] at alone

/-- Pieces that fit get to the column behind them. -/
theorem reachAll {width column : Nat} (shown : OneLine pieces columns text)
    (room : column + columns ≤ width) :
    reachAll width true column pieces = .upTo (column + columns) := by
  induction shown generalizing column with
  | nil => rfl
  | text value _ ih =>
    rw [Layout.reachAll, reach, within, if_neg (by omega), Reach.andThen, ih (by omega),
      Nat.add_assoc]
  | line _ ih =>
    rw [Layout.reachAll, reach, if_pos rfl, within, if_neg (by omega), Reach.andThen, ih (by omega),
      Nat.add_assoc]
  | softline _ ih =>
    rw [Layout.reachAll, reach, if_pos rfl, Reach.andThen, ih room]
  | nest step _ _ ihNested ih =>
    rw [Layout.reachAll, reach, ihNested (by omega), Reach.andThen, ih (by omega), Nat.add_assoc]
  | group _ _ ihGrouped ih =>
    rw [Layout.reachAll, reach, ihGrouped (by omega), Reach.andThen, ih (by omega), Nat.add_assoc]

/-- Where everything is flat the pieces add their text, whatever the indentation and whatever
follows them. -/
theorem layAll (shown : OneLine pieces columns text) (width indent : Nat) (rest : List Frame)
    (page : Page) :
    (layAll width true indent rest page pieces).text = page.text ++ String.ofList text := by
  induction shown generalizing indent rest page with
  | nil => simp [Layout.layAll]
  | text value _ ih => simp [Layout.layAll, lay, ih, Page.write, String.append_assoc]
  | @line pieces columns after _ ih =>
    have space : String.ofList (' ' :: after) = " " ++ String.ofList after := String.ofList_cons
    simp [Layout.layAll, lay, ih, Page.write, String.append_assoc, space]
  | softline _ ih => simp [Layout.layAll, lay, ih]
  | nest step _ _ ihNested ih => simp [Layout.layAll, lay, ih, ihNested, String.append_assoc]
  | group _ _ ihGrouped ih => simp [Layout.layAll, lay, ih, ihGrouped, String.append_assoc]

theorem columns_of_ascii (shown : OneLine pieces columns text)
    (ascii : ∀ c ∈ text, c.toNat < 0x80) : columns = text.length := by
  induction shown with
  | nil => rfl
  | text value _ ih =>
    rw [List.forall_mem_append] at ascii
    rw [ih ascii.2, List.length_append, Text.width, if_pos (by simpa using ascii.1)]
  | line _ ih =>
    rw [ih (List.forall_mem_cons.mp ascii).2, List.length_cons, Nat.add_comm]
  | softline _ ih => exact ih ascii
  | nest step _ _ ihNested ih =>
    rw [List.forall_mem_append] at ascii
    rw [ihNested ascii.1, ih ascii.2, List.length_append]
  | group _ _ ihGrouped ih =>
    rw [List.forall_mem_append] at ascii
    rw [ihGrouped ascii.1, ih ascii.2, List.length_append]

end OneLine

/-! ## Documents -/

/-- The pieces show the flat text of the document on one line. -/
def ShowsFlat (pieces : List Piece) (doc : Doc) : Prop :=
  OneLine pieces doc.flatWidth doc.flat.toList

theorem splitAt_of_not_mem {separator : Char} {text : List Char} (absent : separator ∉ text) :
    Text.splitAt separator text = [text] := by
  induction text with
  | nil => rfl
  | cons c text ih =>
    rw [List.mem_cons, not_or] at absent
    rw [Text.splitAt, if_neg (Ne.symm absent.1), ih absent.2]

theorem text_showsFlat (depth : Int) {value : String}
    (unbroken : (Doc.text value).unbroken = true) :
    ShowsFlat (textBlock depth value) (.text value) := by
  have absent : '\n' ∉ value.toList := by
    simpa [Doc.unbroken] using unbroken
  have single : textBlock depth value = textPieces value.toList := by
    simp [textBlock, splitAt_of_not_mem absent]
  rw [single, textPieces]
  split
  · rename_i empty
    rw [List.isEmpty_iff] at empty
    have shown : OneLine [] (Text.width []) [] := .nil
    simpa [ShowsFlat, Doc.flatWidth, Doc.flat, empty] using shown
  · simpa [ShowsFlat, Doc.flatWidth, Doc.flat] using OneLine.text value .nil

theorem showsFlat_concat {parts : List (List Piece)} {docs : List Doc}
    (each : List.Forall₂ ShowsFlat parts docs) : ShowsFlat parts.flatten (.concat docs) := by
  induction each with
  | nil => exact .nil
  | @cons part doc parts docs first rest ih =>
    have whole := first.append ih
    simpa [ShowsFlat, Doc.flatWidth, Doc.flatWidthOf, Doc.flat, Doc.flatParts] using whole

theorem showsFlat_join {between : List Piece} {separator : Doc}
    (given : ShowsFlat between separator) {parts : List (List Piece)} {docs : List Doc}
    (each : List.Forall₂ ShowsFlat parts docs) :
    ShowsFlat (separated between parts) (.join separator docs) := by
  induction each with
  | nil => exact .nil
  | @cons part doc parts docs first rest ih =>
    cases rest with
    | nil =>
      simpa [ShowsFlat, Doc.flatWidth, Doc.flatWidthOf, Doc.flat, Doc.flatParts, separated]
        using first
    | @cons next other parts docs second rest =>
      have columns : (Doc.join separator (doc :: other :: docs)).flatWidth =
          doc.flatWidth + separator.flatWidth + (Doc.join separator (other :: docs)).flatWidth := by
        simp only [Doc.flatWidth, Doc.flatWidthOf, List.length_cons, Nat.add_sub_cancel,
          Nat.mul_succ]
        omega
      have shown : (Doc.join separator (doc :: other :: docs)).flat =
          doc.flat ++ separator.flat ++ (Doc.join separator (other :: docs)).flat := by
        simp only [Doc.flat, Doc.flatParts, String.intercalate_cons_cons]
      rw [ShowsFlat, columns, shown, String.toList_append, String.toList_append]
      exact (first.append given).append ih

mutual

/-- A document in which no line has to break is made of pieces that show its flat text, at any
depth. -/
theorem pieces_showsFlat (level depth : Int) (doc : Doc) (unbroken : doc.unbroken = true) :
    ShowsFlat (pieces level depth doc) doc := by
  cases doc with
  | text value => exact text_showsFlat depth unbroken
  | hardline => cases unbroken
  | line => exact .line .nil
  | softline => exact .softline .nil
  | concat parts => exact showsFlat_concat (piecesOf_showsFlat level depth parts unbroken)
  | group inner =>
    have shown := pieces_showsFlat level depth inner unbroken
    rw [pieces]
    split
    · rename_i empty
      rwa [List.isEmpty_iff.mp empty] at shown
    · have alone := OneLine.group shown .nil
      rwa [Nat.add_zero, List.append_nil] at alone
  | indent inner => exact (pieces_showsFlat level _ inner unbroken).nested level
  | join separator items =>
    obtain ⟨between, all⟩ := Bool.and_eq_true_iff.mp unbroken
    exact showsFlat_join (pieces_showsFlat level depth separator between)
      (piecesOf_showsFlat level depth items all)

theorem piecesOf_showsFlat (level depth : Int) (docs : List Doc)
    (unbroken : Doc.allUnbroken docs = true) :
    List.Forall₂ ShowsFlat (piecesOf level depth docs) docs := by
  cases docs with
  | nil => exact .nil
  | cons doc docs =>
    obtain ⟨first, others⟩ := Bool.and_eq_true_iff.mp unbroken
    exact .cons (pieces_showsFlat level depth doc first)
      (piecesOf_showsFlat level depth docs others)

end

end Layout

/-- In ASCII it makes no difference whether the flat text is measured text by text or as a whole. -/
theorem Doc.flatWidth_of_ascii {doc : Doc} (unbroken : doc.unbroken = true)
    (ascii : ∀ c ∈ doc.flat.toList, c.toNat < 0x80) :
    doc.flatWidth = Text.width doc.flat.toList := by
  have shown := Layout.pieces_showsFlat 0 0 doc unbroken
  rw [shown.columns_of_ascii ascii, Text.width, if_pos (by simpa using ascii)]

/-- A group around a document in which no line has to break is laid out flat if there is room for
the flat text. -/
theorem Doc.group_render_flat (doc : Doc) (options : LayoutOptions) (unbroken : doc.unbroken = true)
    (room : doc.flatWidth ≤ options.printWidth) : (Doc.group doc).render options = doc.flat := by
  have shown := Layout.pieces_showsFlat (Layout.indentColumns options) 0 doc unbroken
  rw [render, Layout.pieces]
  split
  · rename_i empty
    rw [List.isEmpty_iff.mp empty] at shown
    have nothing := shown.layAll options.printWidth 0 [] ⟨"", 0⟩
    simpa [Layout.layAll] using nothing
  · -- Nothing follows the group, so it fits as soon as its own pieces do.
    rw [← Nat.zero_add doc.flatWidth] at room
    have reached := shown.reachAll room
    have flat :
        Layout.fits options.printWidth 0 (Layout.pieces (Layout.indentColumns options) 0 doc)
          [⟨0, []⟩] = true := by
      rw [Layout.fits, reached]
      rfl
    rw [Layout.layAll, Layout.lay, flat, Bool.or_true, Layout.layAll, shown.layAll]
    simp

/-- Seventeen columns are enough for a list of arguments in a group with indented places for line
breaks, and in sixteen the same document breaks. -/
theorem Doc.group_render_flat_of_call :
    let doc : Doc :=
  .concat [.text "call(", .indent (.concat [.softline, .group (.join (.concat [.text ",", .line])
      [.text "alpha", .text "ββββ"])]), .softline, .text ")"]
    doc.unbroken = true ∧ doc.flatWidth = 17 ∧
      (Doc.group doc).render ⟨17, 2⟩ = "call(alpha, ββββ)" ∧
      (Doc.group doc).render ⟨16, 2⟩ = "call(\n  alpha, ββββ\n)" := by
  intro doc
  exact ⟨by decide +kernel, by decide +kernel,
    doc.group_render_flat ⟨17, 2⟩ (by decide +kernel) (by decide +kernel), by decide +kernel⟩

end GroovyTidy
