import GroovyTidy.Proofs.Text.Positions

set_option autoImplicit false

/-!
The lines of excerpts. An excerpt cuts a text at its line feeds first and at its carriage returns
afterwards, while the index of lines knows nothing but the offsets at which lines start. Both have
the same lines, in the same order and with the same numbers, except that an excerpt leaves out the
empty line at the end of a text that is empty or ends in a line feed.
-/
namespace GroovyTidy.Text

/-- The pieces of a text from each offset to the next one and from the last to the end, if it can be
cut there. -/
def piecesAt? (text : List Char) : List Nat → Option (List (List Char))
  | [] => some []
  | [last] => (slice? text last (byteLength text)).map ([·])
  | start :: next :: more =>
    (slice? text start next).bind fun piece => (piecesAt? text (next :: more)).map (piece :: ·)

/-- A line without the line end behind it. -/
def withoutEnd : List Char → List Char
  | [] => []
  | ['\n'] => []
  | ['\r', '\n'] => []
  | ['\r'] => []
  | c :: rest => c :: withoutEnd rest

/-- The line after a final line feed, and the only line of an empty text. -/
def unshownLine (text : List Char) : List (List Char) :=
  if text = [] ∨ text.getLast? = some '\n' then [[]] else []

/-! ## The lines of the index -/

/-- Cut at the starts of its lines, a text falls into its lines. -/
theorem piecesAt?_starts (before : List Char) (pieces : List (List Char)) :
    piecesAt? (before ++ pieces.flatten) ((placeLines (byteLength before) pieces).map Line.start) =
      some pieces := by
  induction pieces generalizing before with
  | nil => rfl
  | cons piece pieces ih =>
    have cut : sliceFrom? (before ++ (piece ++ pieces.flatten)) (byteLength before) =
        some (piece ++ pieces.flatten) :=
      sliceFrom?_eq_some_iff.mpr ⟨before, rfl, rfl⟩
    cases pieces with
    | nil =>
      rw [List.flatten_nil, List.append_nil] at cut
      have last : slice? (before ++ piece) (byteLength before) (byteLength (before ++ piece)) =
          some piece := by
        rw [byteLength_append]
        exact slice?_add (by rwa [List.append_nil])
      simp only [List.flatten_cons, List.flatten_nil, List.append_nil, placeLines, List.map_cons,
        List.map_nil, piecesAt?, last, Option.map_some]
    | cons next pieces =>
      have more := ih (before ++ piece)
      rw [List.append_assoc, byteLength_append, placeLines, List.map_cons] at more
      rw [List.flatten_cons, placeLines, placeLines, List.map_cons, List.map_cons, piecesAt?,
        slice?_add cut, more]
      rfl

theorem placeLines_entry {start n : Nat} {pieces : List (List Char)} {line : Line}
    (entry : (placeLines start pieces)[n]? = some line) :
    ∃ front after, pieces = front ++ line.text :: after ∧ front.length = n ∧
      line.start = start + byteLength front.flatten := by
  induction pieces generalizing start n with
  | nil => simp [placeLines] at entry
  | cons piece pieces ih =>
    cases n with
    | zero =>
      cases entry
      exact ⟨[], pieces, rfl, rfl, rfl⟩
    | succ n =>
      obtain ⟨front, after, rfl, rfl, placed⟩ := ih entry
      refine ⟨piece :: front, after, rfl, rfl, ?_⟩
      rw [placed, List.flatten_cons, byteLength_append, Nat.add_assoc]

/-- Behind whole lines stands the first column. The induction is on the text: its first character is
a line of its own, or belongs to the first of the lines, which closes further on. -/
theorem positionAfter_lines {text : List Char} {front after : List (List Char)} {line : List Char}
    (lines : linesWithEnds text = front ++ line :: after) :
    positionAfter front.flatten (line :: after).flatten = ⟨front.length + 1, 1⟩ := by
  induction text generalizing front with
  | nil =>
    cases front with
    | nil => rfl
    | cons first front => simp [linesWithEnds] at lines
  | cons c rest ih =>
    cases front with
    | nil => rfl
    | cons first front =>
      rw [linesWithEnds_cons] at lines
      by_cases closes : closesLine c rest = true
      · rw [if_pos closes, List.cons_append] at lines
        obtain ⟨rfl, later⟩ := List.cons.inj lines
        have whole : front.flatten ++ (line :: after).flatten = rest := by
          rw [← List.flatten_append, ← later, flatten_linesWithEnds]
        rw [List.flatten_cons, List.cons_append, List.nil_append, positionAfter, ih later,
          whole, closes]
        rfl
      · obtain ⟨head, others, shape⟩ := List.exists_cons_of_ne_nil (linesWithEnds_ne_nil rest)
        rw [if_neg closes, shape, List.modifyHead_cons, List.cons_append] at lines
        obtain ⟨rfl, rfl⟩ := List.cons.inj lines
        have whole : (head :: front).flatten ++ (line :: after).flatten = rest := by
          rw [← List.flatten_append, List.cons_append, ← shape, flatten_linesWithEnds]
        have later : positionAfter (head :: front).flatten (line :: after).flatten =
            ⟨(head :: front).length + 1, 1⟩ :=
          ih shape
        rw [List.flatten_cons] at later whole
        rw [List.flatten_cons, List.cons_append, positionAfter, later, whole,
          Bool.eq_false_iff.mpr closes]
        simp [Position.later]

/-- The starts of lines are located at the first columns of the lines, in order. -/
theorem locate_start {text : List Char} {n start : Nat}
    (entry : (LineIndex.ofText text).starts[n]? = some start) :
    (LineIndex.ofText text).locate start = ⟨n + 1, 1⟩ := by
  rw [LineIndex.starts, List.getElem?_map] at entry
  obtain ⟨line, found, rfl⟩ := Option.map_eq_some_iff.mp entry
  obtain ⟨front, after, shape, rfl, placed⟩ := placeLines_entry found
  have whole : text = front.flatten ++ (line.text :: after).flatten := by
    rw [← List.flatten_append, ← shape, flatten_linesWithEnds]
  have located := locate_front front.flatten (line.text :: after).flatten
  rw [← whole, positionAfter_lines shape] at located
  rw [placed, Nat.zero_add, located]

/-! ## The lines of the excerpt -/

theorem splitAt_other {separator c : Char} (other : c ≠ separator) (text : List Char) :
    splitAt separator (c :: text) = (splitAt separator text).modifyHead (c :: ·) := by
  obtain ⟨piece, pieces, shape⟩ := List.exists_cons_of_ne_nil (splitAt_ne_nil separator text)
  rw [splitAt, if_neg other, shape]
  rfl

theorem feedLines_last {text piece : List Char} (shape : splitAt '\n' text = [piece]) :
    feedLines text = if piece = [] then [] else [piece] := by
  by_cases empty : piece = [] <;> simp [feedLines, shape, empty]

theorem feedLines_more {text piece next : List Char} {pieces : List (List Char)}
    (shape : splitAt '\n' text = piece :: next :: pieces) :
    feedLines text = dropFinalReturn piece ::
      ((next :: pieces).dropLast.map dropFinalReturn ++
        ((next :: pieces).getLast?.filter fun last => !last.isEmpty).toList) := by
  simp [feedLines, shape]

theorem dropFinalReturn_cons {c : Char} {piece : List Char} (apart : c ≠ '\r' ∨ piece ≠ []) :
    dropFinalReturn (c :: piece) = c :: dropFinalReturn piece := by
  cases piece with
  | nil => simp_all [dropFinalReturn]
  | cons d piece =>
    rw [dropFinalReturn, dropFinalReturn, List.getLast?_cons_cons]
    split <;> simp

theorem feedLines_feed (text : List Char) : feedLines ('\n' :: text) = [] :: feedLines text := by
  obtain ⟨piece, pieces, shape⟩ := List.exists_cons_of_ne_nil (splitAt_ne_nil '\n' text)
  have cut : splitAt '\n' ('\n' :: text) = [] :: piece :: pieces := by
    rw [splitAt, if_pos rfl, shape]
  rw [feedLines_more cut, feedLines, shape]
  rfl

/-- A carriage return goes with the line feed after it. -/
theorem feedLines_pair (text : List Char) :
    feedLines ('\r' :: '\n' :: text) = [] :: feedLines text := by
  obtain ⟨piece, pieces, shape⟩ := List.exists_cons_of_ne_nil (splitAt_ne_nil '\n' text)
  have cut : splitAt '\n' ('\r' :: '\n' :: text) = ['\r'] :: piece :: pieces := by
    rw [splitAt_other (by decide), splitAt, if_pos rfl, shape]
    rfl
  rw [feedLines_more cut, feedLines, shape]
  rfl

/-- Any other character stands at the front of the line that follows it. -/
theorem feedLines_other {c : Char} {text : List Char} (notFeed : c ≠ '\n')
    (apart : c ≠ '\r' ∨ text.head? ≠ some '\n') (more : text ≠ []) :
    ∃ line lines, feedLines text = line :: lines ∧
      feedLines (c :: text) = (c :: line) :: lines := by
  obtain ⟨piece, pieces, shape⟩ := List.exists_cons_of_ne_nil (splitAt_ne_nil '\n' text)
  have cut : splitAt '\n' (c :: text) = (c :: piece) :: pieces := by
    rw [splitAt_other notFeed, shape]
    rfl
  -- The first piece is empty only if a line feed is next.
  have filled : piece = [] → text.head? = some '\n' := by
    rintro rfl
    obtain ⟨d, text, rfl⟩ := List.exists_cons_of_ne_nil more
    by_contra other
    rw [splitAt_other (by simpa using other)] at shape
    obtain ⟨first, others, inner⟩ := List.exists_cons_of_ne_nil (splitAt_ne_nil '\n' text)
    simp [inner] at shape
  cases pieces with
  | nil =>
    have some : piece ≠ [] := by
      intro empty
      obtain ⟨rest, rfl⟩ := List.head?_eq_some_iff.mp (filled empty)
      rw [splitAt, if_pos rfl] at shape
      exact splitAt_ne_nil _ _ (List.cons.inj shape).2
    exact ⟨piece, [],
      by rw [feedLines_last shape, if_neg some], by rw [feedLines_last cut, if_neg (by simp)]⟩
  | cons next pieces =>
    refine ⟨_, _, feedLines_more shape, ?_⟩
    rw [feedLines_more cut,
      dropFinalReturn_cons (apart.imp_right fun alone empty => alone (filled empty))]

/-- A line end closes a line of an excerpt, and any other character stands at the front of the line
that follows it. -/
theorem excerptLines_cons (c : Char) {text : List Char} (more : text ≠ []) :
    excerptLines (c :: text) =
      if closesLine c text then [] :: excerptLines text
      else if c = '\r' then excerptLines text
      else (excerptLines text).modifyHead (c :: ·) := by
  by_cases feed : c = '\n'
  · subst feed
    rw [excerptLines, feedLines_feed]
    rfl
  by_cases carriage : c = '\r'
  · subst carriage
    by_cases paired : text.head? = some '\n'
    · obtain ⟨rest, rfl⟩ := List.head?_eq_some_iff.mp paired
      rw [excerptLines, excerptLines, feedLines_pair, feedLines_feed]
      rfl
    · obtain ⟨line, lines, here, there⟩ := feedLines_other feed (.inr paired) more
      have closes : closesLine '\r' text = true := by simp [closesLine, paired]
      rw [if_pos closes, excerptLines, excerptLines, here, there, List.flatMap_cons,
        splitAt, if_pos rfl]
      rfl
  · obtain ⟨line, lines, here, there⟩ := feedLines_other feed (.inl carriage) more
    have closes : closesLine c text = false := by simp [closesLine, feed, carriage]
    obtain ⟨piece, pieces, shape⟩ := List.exists_cons_of_ne_nil (splitAt_ne_nil '\r' line)
    rw [closes, if_neg Bool.false_ne_true, if_neg carriage, excerptLines, excerptLines, here, there,
      List.flatMap_cons, List.flatMap_cons, splitAt_other carriage, shape]
    rfl

theorem excerptLines_single {c : Char} (notFeed : c ≠ '\n') (notReturn : c ≠ '\r') :
    excerptLines [c] = [[c]] := by
  have cut : splitAt '\n' [c] = [[c]] := by
    rw [splitAt_other notFeed]
    rfl
  rw [excerptLines, feedLines_last cut, if_neg (List.cons_ne_nil c []), List.flatMap_singleton,
    splitAt_other notReturn]
  rfl

theorem excerptLines_ne_nil {text : List Char} (some : text ≠ []) : excerptLines text ≠ [] := by
  induction text with
  | nil => exact absurd rfl some
  | cons c rest ih =>
    by_cases last : rest = []
    · subst last
      by_cases feed : c = '\n'
      · subst feed
        exact List.cons_ne_nil [] []
      by_cases carriage : c = '\r'
      · subst carriage
        exact List.cons_ne_nil [] [[]]
      · rw [excerptLines_single feed carriage]
        exact List.cons_ne_nil [c] []
    · obtain ⟨line, lines, shape⟩ := List.exists_cons_of_ne_nil (ih last)
      rw [excerptLines_cons c last, shape]
      repeat' split
      all_goals simp

/-! ## The same lines -/

theorem withoutEnd_closed {c : Char} {rest : List Char} (closes : closesLine c rest = true) :
    withoutEnd [c] = [] := by
  rw [closesLine, Bool.or_eq_true, Bool.and_eq_true, beq_iff_eq, beq_iff_eq] at closes
  rcases closes with rfl | ⟨rfl, -⟩ <;> rfl

theorem withoutEnd_other {c : Char} (notFeed : c ≠ '\n') (notReturn : c ≠ '\r') (line : List Char) :
    withoutEnd (c :: line) = c :: withoutEnd line := by
  rw [withoutEnd] <;> simp [notFeed, notReturn]

theorem unshownLine_cons (c : Char) {rest : List Char} (more : rest ≠ []) :
    unshownLine (c :: rest) = unshownLine rest := by
  obtain ⟨d, rest, rfl⟩ := List.exists_cons_of_ne_nil more
  simp [unshownLine]

/-- The lines of the index without their ends are the lines of an excerpt and the one that it leaves
out. -/
theorem map_withoutEnd_linesWithEnds (text : List Char) :
    (linesWithEnds text).map withoutEnd = excerptLines text ++ unshownLine text := by
  induction text with
  | nil => rfl
  | cons c rest ih =>
    by_cases last : rest = []
    · subst last
      by_cases feed : c = '\n'
      · subst feed
        rfl
      by_cases carriage : c = '\r'
      · subst carriage
        rfl
      · rw [linesWithEnds_other feed carriage, excerptLines_single feed carriage]
        simp [linesWithEnds, withoutEnd_other feed carriage, withoutEnd, unshownLine, feed]
    rw [linesWithEnds_cons, excerptLines_cons c last, unshownLine_cons c last]
    by_cases closes : closesLine c rest = true
    · rw [if_pos closes, if_pos closes, List.map_cons, withoutEnd_closed closes, ih,
        List.cons_append]
    rw [if_neg closes, if_neg closes]
    by_cases carriage : c = '\r'
    · -- The line feed of the pair closes the line already.
      subst carriage
      obtain ⟨after, rfl⟩ : ∃ after, rest = '\n' :: after := by
        rw [← List.head?_eq_some_iff]
        simpa [closesLine] using closes
      rw [if_pos rfl, ← ih]
      rfl
    · have feed : c ≠ '\n' := by
        rintro rfl
        exact closes rfl
      obtain ⟨line, lines, indexed⟩ := List.exists_cons_of_ne_nil (linesWithEnds_ne_nil rest)
      obtain ⟨row, rows, shown⟩ := List.exists_cons_of_ne_nil (excerptLines_ne_nil last)
      rw [indexed, shown, List.map_cons, List.cons_append] at ih
      obtain ⟨same, others⟩ := List.cons.inj ih
      rw [if_neg carriage, indexed, shown, List.modifyHead_cons, List.modifyHead_cons,
        List.map_cons, withoutEnd_other feed carriage, same, others, List.cons_append]

/-! ## The rows of an excerpt -/

/-- The entries of a list numbered from `start` whose numbers are in a range. -/
theorem filter_zipIdx {α : Type} (entries : List α) (start low high : Nat) :
    ((entries.zipIdx start).filter fun entry => low ≤ entry.2 ∧ entry.2 < high) =
      ((entries.take (high - start)).drop (low - start)).zipIdx (start + (low - start)) := by
  induction entries generalizing start with
  | nil => simp
  | cons entry entries ih =>
    rw [List.zipIdx_cons, List.filter_cons, ih]
    by_cases inside : start < high
    · obtain ⟨more, shape⟩ : ∃ more, high - start = more + 1 := ⟨high - start - 1, by omega⟩
      have less : high - (start + 1) = more := by omega
      by_cases reached : low ≤ start
      · have zero : low - start = 0 := by omega
        have zero' : low - (start + 1) = 0 := by omega
        simp [inside, reached, shape, less, zero, zero']
      · obtain ⟨skip, before⟩ : ∃ skip, low - start = skip + 1 := ⟨low - start - 1, by omega⟩
        have fewer : low - (start + 1) = skip := by omega
        simp [reached, shape, less, before, fewer, Nat.add_assoc, Nat.add_comm 1 skip]
    · have none : high - start = 0 := by omega
      have none' : high - (start + 1) = 0 := by omega
      simp [inside, none, none']

/-- An excerpt has the rows whose numbers are at most two away from the marked one. -/
theorem excerpt_eq (text : List Char) {line : Nat} (counted : 1 ≤ line) :
    excerpt text line =
      String.join
        ((((excerptLines text).zipIdx 1).filter fun row => line ≤ row.2 + 2 ∧ row.2 ≤ line + 2).map
          fun row => excerptRow (row.2 == line) row.2 row.1) := by
  have window : (fun row : List Char × Nat => decide (line ≤ row.2 + 2 ∧ row.2 ≤ line + 2)) =
      fun row => decide (line - 2 ≤ row.2 ∧ row.2 < line + 3) := by
    funext row
    simp only [decide_eq_decide]
    omega
  have stop : line - 1 + 3 = line + 3 - 1 := by omega
  have skip : line - 1 - 2 = line - 2 - 1 := by omega
  rw [excerpt, window, filter_zipIdx, ← stop, ← skip]
  rw [List.mapIdx_eq_zipIdx_map, List.zipIdx_eq_map_add (i := 1 + (line - 1 - 2)), List.map_map]
  congr 2
  funext entry
  obtain ⟨row, i⟩ := entry
  have mark : (line - 1 - 2 + i == line - 1) = (1 + (line - 1 - 2) + i == line) := by
    rw [Bool.eq_iff_iff, beq_iff_eq, beq_iff_eq]
    omega
  have number : line - 1 - 2 + i + 1 = 1 + (line - 1 - 2) + i := by omega
  dsimp only [Function.comp_apply]
  rw [mark, number]

/-- The index of lines and an excerpt have the same lines, except that an excerpt leaves out an
empty last line where the text is empty or ends in a line feed. So it shows the lines that the index
numbers from two before the marked one to two after it. -/
theorem excerpt_shows_indexed_lines (text : List Char) :
    ∃ lines, piecesAt? text (LineIndex.ofText text).starts = some lines ∧
      lines.map withoutEnd =
        excerptLines text ++ (if text = [] ∨ text.getLast? = some '\n' then [[]] else []) ∧
      (∀ n start, (LineIndex.ofText text).starts[n]? = some start →
        (LineIndex.ofText text).locate start = ⟨n + 1, 1⟩) ∧
      ∀ line, 1 ≤ line →
        excerpt text line =
          String.join
            ((((excerptLines text).zipIdx 1).filter
              fun row => line ≤ row.2 + 2 ∧ row.2 ≤ line + 2).map
                fun row => excerptRow (row.2 == line) row.2 row.1) := by
  have pieces := piecesAt?_starts [] (linesWithEnds text)
  rw [List.nil_append, flatten_linesWithEnds] at pieces
  exact ⟨linesWithEnds text, pieces, map_withoutEnd_linesWithEnds text, fun n start => locate_start,
    fun line => excerpt_eq text⟩

/-- Carriage returns next to line feeds in both orders, and one at the end. -/
theorem excerpt_shows_indexed_lines_of_returns :
    (LineIndex.ofText "a\r\r\n\n\rbé\r".toList).starts = [0, 2, 4, 5, 6, 10] ∧
    (LineIndex.ofText "a\r\r\n\n\rbé\r".toList).locate 6 = ⟨5, 1⟩ ∧
    excerptLines "a\r\r\n\n\rbé\r".toList = [['a'], [], [], [], ['b', 'é'], []] ∧
    excerpt "a\r\r\n\n\rbé\r".toList 5 =
      String.join
        ((((excerptLines "a\r\r\n\n\rbé\r".toList).zipIdx 1).filter
          fun row => 5 ≤ row.2 + 2 ∧ row.2 ≤ 5 + 2).map
            fun row => excerptRow (row.2 == 5) row.2 row.1) ∧
    excerpt "a\r\r\n\n\rbé\r".toList 5 = "     3 | \n     4 | \n>>   5 | bé\n     6 | \n" := by
  obtain ⟨lines, -, -, located, rows⟩ := excerpt_shows_indexed_lines "a\r\r\n\n\rbé\r".toList
  exact ⟨rfl, located 4 6 rfl, rfl, rows 5 (by decide), rfl⟩

end GroovyTidy.Text
