import GroovyTidy.Proofs.Text.Excerpt
import GroovyTidy.Text.Quoted

set_option autoImplicit false

/-!
Texts that are made of rows. A row stays in its line whatever it quotes: numbers have no line ends
in them, and line ends in quoted characters are written as escapes. So the lines of a text of rows
are the rows, and the rows of an excerpt are told apart by their marks.
-/
namespace GroovyTidy.Text

/-- No line end stands in a text. -/
def staysInLine (text : List Char) : Bool :=
  text.all fun c => c != '\n' && c != '\r'

@[simp] theorem staysInLine_nil : staysInLine [] = true :=
  rfl

@[simp] theorem staysInLine_cons (c : Char) (text : List Char) :
    staysInLine (c :: text) = ((c != '\n' && c != '\r') && staysInLine text) :=
  rfl

@[simp] theorem staysInLine_append (left right : List Char) :
    staysInLine (left ++ right) = (staysInLine left && staysInLine right) :=
  List.all_append

theorem staysInLine_iff {text : List Char} :
    staysInLine text = true ↔ ∀ c ∈ text, c ≠ '\n' ∧ c ≠ '\r' := by
  simp [staysInLine]

theorem staysInLine_flatMap {α : Type} {entries : List α} {f : α → List Char}
    (each : ∀ entry ∈ entries, staysInLine (f entry) = true) :
    staysInLine (entries.flatMap f) = true := by
  rw [staysInLine, List.all_flatMap, List.all_eq_true]
  exact each

/-! ## The lines of rows -/

theorem linesWithEnds_row {row : List Char} (single : staysInLine row = true) (rest : List Char) :
    linesWithEnds (row ++ '\n' :: rest) = (row ++ ['\n']) :: linesWithEnds rest := by
  induction row with
  | nil => rfl
  | cons c row ih =>
    rw [staysInLine_cons, Bool.and_eq_true, Bool.and_eq_true, bne_iff_ne, bne_iff_ne] at single
    obtain ⟨⟨notFeed, notReturn⟩, single⟩ := single
    rw [List.cons_append, linesWithEnds_other notFeed notReturn, ih single, List.modifyHead_cons,
      List.cons_append]

/-- The lines of a text of rows are the rows. -/
theorem linesWithEnds_rows {rows : List (List Char)}
    (single : ∀ row ∈ rows, staysInLine row = true) :
    linesWithEnds (rows.flatMap (· ++ ['\n'])) = rows.map (· ++ ['\n']) ++ [[]] := by
  induction rows with
  | nil => rfl
  | cons row rows ih =>
    obtain ⟨first, others⟩ := List.forall_mem_cons.mp single
    rw [List.flatMap_cons, List.append_assoc, List.singleton_append, linesWithEnds_row first,
      ih others, List.map_cons, List.cons_append]

/-! ## Numbers and quoted characters -/

theorem exists_digit_of_mem {base n : Nat} (large : 1 < base) {c : Char}
    (member : c ∈ Nat.toDigits base n) : ∃ digit, c = Nat.digitChar digit := by
  induction n using Nat.strongRecOn with
  | ind n ih =>
    rw [Nat.toDigits_eq_if large] at member
    split at member
    · exact ⟨n, List.mem_singleton.mp member⟩
    · rcases List.mem_append.mp member with early | last
      · exact ih (n / base) (Nat.div_lt_self (by omega) large) early
      · exact ⟨n % base, List.mem_singleton.mp last⟩

theorem staysInLine_toDigits {base : Nat} (large : 1 < base) (n : Nat) :
    staysInLine (Nat.toDigits base n) = true := by
  rw [staysInLine_iff]
  intro c member
  obtain ⟨digit, rfl⟩ := exists_digit_of_mem large member
  exact ⟨Nat.digitChar_ne _ (by decide), Nat.digitChar_ne _ (by decide)⟩

theorem staysInLine_toString (n : Nat) : staysInLine (toString n).toList = true := by
  rw [Nat.toString_eq_repr, Nat.toList_repr]
  exact staysInLine_toDigits (by decide) n

/-- A quoted character stays in its line, since line ends are written as escapes. -/
theorem staysInLine_quotedChar {quote : Char} (plain : staysInLine [quote] = true) (c : Char) :
    staysInLine (quotedChar quote c).toList = true := by
  unfold quotedChar
  split
  · decide
  split
  · decide
  split
  · decide
  split
  · decide
  split
  · decide
  split
  · rw [String.toList_ofList, staysInLine_cons, plain]
    decide
  split
  · have digits : staysInLine (hexDigits c.toNat).toList = true := by
      rw [hexDigits, String.toList_ofList]
      exact staysInLine_toDigits (by decide) c.toNat
    rw [String.toList_append, String.toList_append, staysInLine_append, staysInLine_append, digits]
    decide
  · rename_i notReturn notFeed _ _ _
    simp [staysInLine, notReturn, notFeed, Char.toString]

theorem staysInLine_quoteChar (c : Char) : staysInLine (quoteChar c).toList = true := by
  rw [quoteChar, String.toList_append, String.toList_append, staysInLine_append, staysInLine_append,
    staysInLine_quotedChar (by decide)]
  decide

theorem staysInLine_quoteText (text : String) : staysInLine (quoteText text).toList = true := by
  have inside : staysInLine (String.join (text.toList.map (quotedChar '"'))).toList = true := by
    rw [String.toList_join]
    refine staysInLine_flatMap fun shown member => ?_
    obtain ⟨c, -, rfl⟩ := List.mem_map.mp member
    exact staysInLine_quotedChar (by decide) c
  rw [quoteText, String.toList_append, String.toList_append, staysInLine_append,
    staysInLine_append, inside]
  decide

/-! ## The rows of an excerpt -/

theorem mem_splitAt {separator : Char} {text piece : List Char}
    (member : piece ∈ splitAt separator text) : separator ∉ piece ∧ piece ⊆ text := by
  induction text generalizing piece with
  | nil =>
    obtain rfl := List.mem_singleton.mp member
    exact ⟨List.not_mem_nil, List.Subset.refl _⟩
  | cons c rest ih =>
    by_cases cut : c = separator
    · rw [splitAt, if_pos cut] at member
      rcases List.mem_cons.mp member with rfl | later
      · exact ⟨List.not_mem_nil, List.nil_subset _⟩
      · exact ⟨(ih later).1, List.subset_cons_of_subset c (ih later).2⟩
    · obtain ⟨first, pieces, shape⟩ := List.exists_cons_of_ne_nil (splitAt_ne_nil separator rest)
      rw [splitAt_other cut, shape, List.modifyHead_cons] at member
      rw [shape] at ih
      rcases List.mem_cons.mp member with rfl | later
      · obtain ⟨absent, inside⟩ := ih List.mem_cons_self
        exact ⟨List.not_mem_cons_of_ne_of_not_mem (Ne.symm cut) absent,
          List.cons_subset_cons c inside⟩
      · obtain ⟨absent, inside⟩ := ih (List.mem_cons_of_mem _ later)
        exact ⟨absent, List.subset_cons_of_subset c inside⟩

theorem dropFinalReturn_subset (piece : List Char) : dropFinalReturn piece ⊆ piece := by
  unfold dropFinalReturn
  split
  · exact (List.dropLast_sublist piece).subset
  · exact List.Subset.refl _

theorem not_mem_of_mem_feedLines {text line : List Char} (member : line ∈ feedLines text) :
    '\n' ∉ line := by
  rcases List.mem_append.mp member with early | last
  · obtain ⟨piece, inside, rfl⟩ := List.mem_map.mp early
    exact fun feed =>
      (mem_splitAt ((List.dropLast_sublist _).subset inside)).1 (dropFinalReturn_subset piece feed)
  · rw [Option.mem_toList, Option.filter_eq_some_iff] at last
    exact (mem_splitAt (List.mem_of_getLast? last.1)).1

theorem staysInLine_of_mem_excerptLines {text line : List Char}
    (member : line ∈ excerptLines text) : staysInLine line = true := by
  obtain ⟨piece, inside, cut⟩ := List.mem_flatMap.mp member
  obtain ⟨noReturn, within⟩ := mem_splitAt cut
  rw [staysInLine_iff]
  rintro c here
  refine ⟨?_, ?_⟩
  · rintro rfl
    exact not_mem_of_mem_feedLines inside (within here)
  · rintro rfl
    exact noReturn here

/-- A row of an excerpt without its line end. -/
def rowText (marked : Bool) (number : Nat) (line : List Char) : List Char :=
  (if marked then ['>', '>'] else [' ', ' ']) ++ [' '] ++ (lineNumber number).toList ++
    [' ', '|', ' '] ++ line

theorem toList_excerptRow (marked : Bool) (number : Nat) (line : List Char) :
    (excerptRow marked number line).toList = rowText marked number line ++ ['\n'] := by
  cases marked <;> simp [excerptRow, rowText]

theorem staysInLine_rowText (marked : Bool) (number : Nat) {line : List Char}
    (single : staysInLine line = true) : staysInLine (rowText marked number line) = true := by
  have digits : staysInLine (lineNumber number).toList = true := by
    rw [lineNumber, String.toList_append, staysInLine_append, staysInLine_toString,
      String.toList_ofList, Bool.and_true, staysInLine_iff]
    intro c member
    rw [List.eq_of_mem_replicate member]
    decide
  unfold rowText
  rw [staysInLine_append, staysInLine_append, staysInLine_append, staysInLine_append,
    digits, single]
  cases marked <;> decide

/-- Only marked rows start with the mark. -/
theorem isPrefixOf_rowText (marked : Bool) (number : Nat) (line : List Char) :
    ['>', '>'].isPrefixOf (rowText marked number line) = marked := by
  cases marked <;> rfl

/-- The rows of an excerpt, without their line ends. -/
def excerptRows (text : List Char) (line : Nat) : List (List Char) :=
  (((excerptLines text).zipIdx 1).filter fun row => line ≤ row.2 + 2 ∧ row.2 ≤ line + 2).map
    fun row => rowText (row.2 == line) row.2 row.1

theorem toList_excerpt (text : List Char) {line : Nat} (counted : 1 ≤ line) :
    (excerpt text line).toList = (excerptRows text line).flatMap (· ++ ['\n']) := by
  rw [excerpt_eq text counted, String.toList_join, excerptRows, List.flatMap_map, List.flatMap_map]
  simp only [toList_excerptRow]

theorem staysInLine_of_mem_excerptRows {text row : List Char} {line : Nat}
    (member : row ∈ excerptRows text line) : staysInLine row = true := by
  obtain ⟨⟨shown, number⟩, inside, rfl⟩ := List.mem_map.mp member
  have indexed := (List.mem_filter.mp inside).1
  exact staysInLine_rowText _ _
    (staysInLine_of_mem_excerptLines (List.fst_mem_of_mem_zipIdx indexed))

/-- The marked rows of an excerpt: the row of the marked line, if the excerpt has this line. -/
theorem filter_excerptRows (text : List Char) {line : Nat} (counted : 1 ≤ line) :
    (excerptRows text line).filter (fun row => ['>', '>'].isPrefixOf row) =
      (excerptLines text)[line - 1]?.toList.map (rowText true line) := by
  have marked : ((fun row => ['>', '>'].isPrefixOf row) ∘
      fun row : List Char × Nat => rowText (row.2 == line) row.2 row.1) =
        fun row => row.2 == line := by
    funext row
    exact isPrefixOf_rowText _ _ _
  have window :
      (fun row : List Char × Nat => (row.2 == line) &&
        decide (line ≤ row.2 + 2 ∧ row.2 ≤ line + 2)) =
      fun row => decide (line ≤ row.2 ∧ row.2 < line + 1) := by
    funext row
    rw [Bool.eq_iff_iff, Bool.and_eq_true, beq_iff_eq, decide_eq_true_iff, decide_eq_true_iff]
    omega
  have skip : 1 + (line - 1) = line := by omega
  rw [excerptRows, List.filter_map, marked, List.filter_filter, window, filter_zipIdx,
    Nat.add_sub_cancel, skip]
  -- What is left of the numbered lines is the one line, if there is one.
  cases found : (excerptLines text)[line - 1]? with
  | none =>
    rw [List.getElem?_eq_none_iff] at found
    rw [List.drop_eq_nil_of_le (by simp; omega)]
    rfl
  | some shown =>
    obtain ⟨inside, rfl⟩ := List.getElem?_eq_some_iff.mp found
    have one : ((excerptLines text).take line).drop (line - 1) =
        [(excerptLines text)[line - 1]] := by
      rw [List.drop_take, Nat.sub_sub_self counted, List.drop_eq_getElem_cons inside]
      rfl
    rw [one]
    simp

end GroovyTidy.Text
