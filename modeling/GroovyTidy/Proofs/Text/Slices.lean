import GroovyTidy.Text.Cursor
import GroovyTidy.Text.Lines
import Mathlib.Data.Nat.PSub

set_option autoImplicit false

/-!
Byte offsets into a text. To cut a text at an offset is an operation that can fail: it does inside a
character and past the end. A cursor that keeps nothing but an offset, and a flag for standing
between the halves of a surrogate pair, cuts its text again and again. Wherever it moves to, no cut
fails, and it sees what the cursor over characters sees. The same holds of finding the position of
an offset, and of the lines that an excerpt shows.
-/
namespace GroovyTidy.Text

/-- What follows a byte offset, if a character or the end of the text is there. -/
def sliceFrom? : List Char → Nat → Option (List Char)
  | text, 0 => some text
  | [], _ + 1 => none
  | c :: rest, offset + 1 =>
    if c.utf8Size ≤ offset + 1 then sliceFrom? rest (offset + 1 - c.utf8Size) else none

/-- The text between two byte offsets, if they are in order and neither is inside a character. -/
def slice? (text : List Char) (start stop : Nat) : Option (List Char) :=
  if start ≤ stop then
    (sliceFrom? text start).bind fun rest =>
      (sliceFrom? text stop).map fun after => rest.take (rest.length - after.length)
  else none

section

variable {text front rest : List Char} {offset : Nat}

theorem sliceFrom?_cons (c : Char) (rest : List Char) (offset : Nat) :
    sliceFrom? (c :: rest) (c.utf8Size + offset) = sliceFrom? rest offset := by
  have positive := c.utf8Size_pos
  obtain ⟨size, shape⟩ : ∃ size, c.utf8Size + offset = size + 1 :=
    ⟨c.utf8Size + offset - 1, by omega⟩
  rw [shape, sliceFrom?, if_pos (by omega), ← shape, Nat.add_sub_cancel_left]

theorem sliceFrom?_append (front rest : List Char) (offset : Nat) :
    sliceFrom? (front ++ rest) (byteLength front + offset) = sliceFrom? rest offset := by
  induction front with
  | nil => rw [List.nil_append, byteLength_nil, Nat.zero_add]
  | cons c front ih => rw [List.cons_append, byteLength_cons, Nat.add_assoc, sliceFrom?_cons, ih]

theorem sliceFrom?_zero (text : List Char) : sliceFrom? text 0 = some text := by
  rw [sliceFrom?]

/-- A text can be cut exactly where its first so many characters take so many bytes. -/
theorem sliceFrom?_eq_some_iff :
    sliceFrom? text offset = some rest ↔ ∃ front, text = front ++ rest ∧
      byteLength front = offset := by
  constructor
  · intro cut
    fun_induction sliceFrom? text offset with
    | case1 text => exact ⟨[], Option.some.inj cut, rfl⟩
    | case2 => cases cut
    | case3 c text offset inside ih =>
      obtain ⟨front, rfl, length⟩ := ih cut
      refine ⟨c :: front, rfl, ?_⟩
      rw [byteLength_cons, length]
      omega
    | case4 => cases cut
  · rintro ⟨front, rfl, rfl⟩
    rw [← Nat.add_zero (byteLength front), sliceFrom?_append, sliceFrom?_zero]

theorem byteLength_of_sliceFrom? (cut : sliceFrom? text offset = some rest) :
    offset + byteLength rest = byteLength text := by
  obtain ⟨front, rfl, rfl⟩ := sliceFrom?_eq_some_iff.mp cut
  rw [byteLength_append]

/-- To cut again after a cut is to cut what follows it. -/
theorem sliceFrom?_again (cut : sliceFrom? text offset = some rest) (more : Nat) :
    sliceFrom? text (offset + more) = sliceFrom? rest more := by
  obtain ⟨front, rfl, rfl⟩ := sliceFrom?_eq_some_iff.mp cut
  exact sliceFrom?_append front rest more

theorem sliceFrom?_add (cut : sliceFrom? text offset = some (front ++ rest)) :
    sliceFrom? text (offset + byteLength front) = some rest := by
  rw [sliceFrom?_again cut, ← Nat.add_zero (byteLength front), sliceFrom?_append, sliceFrom?_zero]

theorem sliceFrom?_next {c : Char} (cut : sliceFrom? text offset = some (c :: rest)) :
    sliceFrom? text (offset + c.utf8Size) = some rest := by
  have further : sliceFrom? text (offset + byteLength [c]) = some rest := sliceFrom?_add cut
  exact further

theorem slice?_add (cut : sliceFrom? text offset = some (front ++ rest)) :
    slice? text offset (offset + byteLength front) = some front := by
  rw [slice?, if_pos (Nat.le_add_right _ _), cut, sliceFrom?_add cut, Option.bind_some,
    Option.map_some, List.length_append, Nat.add_sub_cancel, List.take_left]

end

/-! ## Cursors over units -/

/-- A place in a text: the byte offset of a character, and whether only the first half of that
character is consumed. -/
structure Place where
  offset : Nat
  halfway : Bool
  deriving DecidableEq, Repr

namespace Place

def start : Place where
  offset := 0
  halfway := false

/-- The place of a cursor. -/
def ofCursor (cursor : Cursor) : Place where
  offset := cursor.offset
  halfway := cursor.halfway

variable (text : List Char)

/-- The cursor at a place, for which the text is cut there. -/
def cursor? (place : Place) : Option Cursor :=
  (sliceFrom? text place.offset).map fun rest => ⟨rest, place.offset, place.halfway⟩

/-- The unit that stands `k` units ahead. The outer option is for the cut. -/
def lookAhead? (place : Place) (k : Nat) : Option (Option Nat) :=
  (place.cursor? text).map fun cursor => cursor.lookAhead? k

/-- The place one unit further. -/
def advance? (place : Place) : Option Place :=
  (place.cursor? text).map fun cursor => ofCursor cursor.advance

/-- The place a number of units further. -/
def advanceBy? (place : Place) : Nat → Option Place
  | 0 => some place
  | n + 1 => (place.advance? text).bind fun next => next.advanceBy? n

end Place

variable {text : List Char} {place : Place} {cursor : Cursor}

theorem Place.eq_of_cursor? (found : place.cursor? text = some cursor) :
    place = ofCursor cursor := by
  obtain ⟨rest, -, rfl⟩ := Option.map_eq_some_iff.mp found
  rfl

/-- Where a text can be cut, it can be cut one unit further, and what follows is what the cursor has
there. -/
theorem Place.cursor?_advance (found : place.cursor? text = some cursor) :
    (ofCursor cursor.advance).cursor? text = some cursor.advance := by
  obtain ⟨rest, cut, rfl⟩ := Option.map_eq_some_iff.mp found
  unfold Cursor.advance
  cases rest with
  | nil => exact found
  | cons c rest =>
    dsimp only
    by_cases half : (units c).length = 2 && !place.halfway
    · rw [if_pos half, cursor?, ofCursor, cut, Option.map_some]
    · rw [if_neg half, cursor?, ofCursor, sliceFrom?_next cut, Option.map_some]

theorem Place.advance?_eq (found : place.cursor? text = some cursor) :
    place.advance? text = some (ofCursor cursor.advance) := by
  rw [advance?, found, Option.map_some]

theorem Place.lookAhead?_eq (found : place.cursor? text = some cursor) (k : Nat) :
    place.lookAhead? text k = some (cursor.lookAhead? k) := by
  rw [lookAhead?, found, Option.map_some]

/-- No number of units takes a place to where the text cannot be cut. -/
theorem Place.advanceBy?_eq (found : place.cursor? text = some cursor) (n : Nat) :
    place.advanceBy? text n = some (ofCursor (cursor.advanceBy n)) ∧
      (ofCursor (cursor.advanceBy n)).cursor? text = some (cursor.advanceBy n) := by
  induction n generalizing place cursor with
  | zero =>
    have same := eq_of_cursor? found
    exact ⟨congrArg some same, same ▸ found⟩
  | succ n ih =>
    rw [advanceBy?, advance?_eq found, Option.bind_some]
    exact ih (cursor?_advance found)

theorem Place.cursor?_start (text : List Char) :
    start.cursor? text = some (Cursor.ofText text) := by
  rw [cursor?, start, sliceFrom?_zero]
  rfl

/-! ## Positions -/

/-- The position of a byte offset by the offsets at which lines start, with the lookup of the line
as an operation that can fail. -/
def locate? (text : List Char) (starts : List Nat) (offset : Nat) : Option Position :=
  let offset := min offset (byteLength text)
  let line := (starts.takeWhile (· ≤ offset)).length
  line.ppred.bind fun index => (starts[index]?).map fun start =>
    ⟨line, (slice? text start offset).elim 0 List.length + 1⟩

theorem placeLines_append (start : Nat) (front back : List (List Char)) :
    placeLines start (front ++ back) =
      placeLines start front ++ placeLines (start + byteLength front.flatten) back := by
  induction front generalizing start with
  | nil => rfl
  | cons piece front ih =>
    rw [List.cons_append, placeLines, placeLines, ih, List.flatten_cons, byteLength_append,
      Nat.add_assoc]
    rfl

theorem length_placeLines (start : Nat) (pieces : List (List Char)) :
    (placeLines start pieces).length = pieces.length := by
  induction pieces generalizing start with
  | nil => rfl
  | cons piece pieces ih => rw [placeLines, List.length_cons, ih, List.length_cons]

/-- The lines that start at an offset or before it end with the one that the offset is in. -/
theorem takeWhile_placeLines {start offset : Nat} {pieces : List (List Char)} (some : pieces ≠ [])
    (low : start ≤ offset) (high : offset ≤ start + byteLength pieces.flatten) :
    ∃ front piece after, pieces = front ++ piece :: after ∧
      (placeLines start pieces).takeWhile (fun line => line.start ≤ offset) =
        placeLines start front ++ [⟨start + byteLength front.flatten, piece⟩] ∧
      start + byteLength front.flatten ≤ offset ∧
      offset ≤ start + byteLength front.flatten + byteLength piece := by
  induction pieces generalizing start with
  | nil => exact absurd rfl some
  | cons piece pieces ih =>
    rw [placeLines, List.takeWhile_cons, if_pos (by simpa using low)]
    rw [List.flatten_cons, byteLength_append] at high
    by_cases later : start + byteLength piece ≤ offset ∧ pieces ≠ []
    · obtain ⟨front, last, after, rfl, taken, lower, upper⟩ := ih later.2 later.1 (by omega)
      refine ⟨piece :: front, last, after, rfl, ?_, ?_, ?_⟩
      · rw [taken, placeLines, List.flatten_cons, byteLength_append, Nat.add_assoc]
        rfl
      · rw [List.flatten_cons, byteLength_append]
        omega
      · rw [List.flatten_cons, byteLength_append]
        omega
    · refine ⟨[], piece, pieces, rfl, ?_, low, ?_⟩
      · cases pieces with
        | nil => rfl
        | cons next pieces =>
          have past : ¬ start + byteLength piece ≤ offset := fun inside => later ⟨inside, by simp⟩
          simp [placeLines, past]
      · rw [List.flatten_nil, byteLength_nil, Nat.add_zero]
        by_cases past : start + byteLength piece ≤ offset
        · have none : pieces = [] := by
            by_contra more
            exact later ⟨past, more⟩
          rw [none, List.flatten_nil, byteLength_nil] at high
          omega
        · omega

/-- The characters before an offset of a line are those before the cut there. -/
theorem charsInBytes?_eq {front : List Char} {bytes : Nat} (inside : bytes ≤ byteLength front)
    (rest : List Char) :
    charsInBytes? front bytes =
      (sliceFrom? (front ++ rest) bytes).map fun after =>
        (front ++ rest).length - after.length := by
  induction front generalizing bytes with
  | nil =>
    obtain rfl : bytes = 0 := Nat.le_zero.mp inside
    simp [charsInBytes?, sliceFrom?]
  | cons c front ih =>
    rw [byteLength_cons] at inside
    cases bytes with
    | zero => simp [charsInBytes?, sliceFrom?]
    | succ bytes =>
      rw [charsInBytes?, List.cons_append, sliceFrom?]
      by_cases whole : c.utf8Size ≤ bytes + 1
      · rw [if_pos whole, if_pos whole, ih (by omega)]
        cases cut : sliceFrom? (front ++ rest) (bytes + 1 - c.utf8Size) with
        | none => rfl
        | some after =>
          obtain ⟨passed, shape, -⟩ := sliceFrom?_eq_some_iff.mp cut
          rw [List.length_cons, shape, List.length_append]
          simp only [Option.map_some]
          congr 1
          omega
      · rw [if_neg whole, if_neg whole]
        rfl
      · exact Nat.succ_ne_zero bytes

/-- The length of a slice inside a line. -/
theorem length_slice? {text line rest : List Char} {start offset : Nat}
    (cut : sliceFrom? text start = some (line ++ rest)) (low : start ≤ offset)
    (high : offset ≤ start + byteLength line) :
    (slice? text start offset).elim 0 List.length =
      (charsInBytes? line (offset - start)).getD 0 := by
  have further := sliceFrom?_again cut (offset - start)
  rw [Nat.add_sub_cancel' low] at further
  rw [slice?, if_pos low, cut, Option.bind_some, further, charsInBytes?_eq (by omega) rest]
  cases sliceFrom? (line ++ rest) (offset - start) with
  | none => rfl
  | some after => simp

theorem linesWithEnds_ne_nil (text : List Char) : linesWithEnds text ≠ [] := by
  fun_cases linesWithEnds text <;> simp_all

/-- The position of every byte offset is found. -/
theorem locate?_eq (text : List Char) (offset : Nat) :
    locate? text (LineIndex.ofText text).starts offset =
      some ((LineIndex.ofText text).locate offset) := by
  have whole := flatten_linesWithEnds text
  have bounded : min offset (byteLength text) ≤ 0 + byteLength (linesWithEnds text).flatten := by
    rw [whole]
    omega
  obtain ⟨front, piece, after, shape, taken, low, high⟩ :=
    takeWhile_placeLines (linesWithEnds_ne_nil text) (Nat.zero_le _) bounded
  rw [Nat.zero_add] at taken low high
  have starts : (LineIndex.ofText text).starts.takeWhile (· ≤ min offset (byteLength text)) =
      (placeLines 0 front ++ [(⟨byteLength front.flatten, piece⟩ : Line)]).map Line.start := by
    rw [LineIndex.starts, LineIndex.ofText, List.takeWhile_map, ← taken]
    rfl
  have length :
      ((LineIndex.ofText text).starts.takeWhile (· ≤ min offset (byteLength text))).length =
      front.length + 1 := by
    rw [starts, List.length_map, List.length_append, length_placeLines, List.length_singleton]
  have entry : (LineIndex.ofText text).starts[front.length]? = some (byteLength front.flatten) := by
    rw [LineIndex.starts, LineIndex.ofText, shape, placeLines_append, List.map_append,
      List.getElem?_append_right (by simp [length_placeLines])]
    simp [length_placeLines, placeLines]
  have text_eq : text = front.flatten ++ (piece ++ after.flatten) := by
    rw [← whole, shape, List.flatten_append, List.flatten_cons]
  have located : (LineIndex.ofText text).locate offset =
      ⟨front.length + 1,
        (charsInBytes? piece
          (min offset (byteLength text) - byteLength front.flatten)).getD 0 + 1⟩ := by
    have lines :
        (LineIndex.ofText text).lines.takeWhile
          (fun line => line.start ≤ min offset (byteLength text)) =
        placeLines 0 front ++ [⟨byteLength front.flatten, piece⟩] := taken
    rw [LineIndex.locate]
    simp only [show (LineIndex.ofText text).size = byteLength text from rfl, lines]
    simp [length_placeLines]
  have cut : sliceFrom? text (byteLength front.flatten) = some (piece ++ after.flatten) :=
    sliceFrom?_eq_some_iff.mpr ⟨_, text_eq, rfl⟩
  rw [located, ← length_slice? cut low high, locate?]
  simp only [length, Nat.ppred, Option.bind_some, entry, Option.map_some]

/-! ## Excerpts -/

/-- The excerpt with its rows looked up by their indices, which can fail. -/
def excerpt? (text : List Char) (line : Nat) : Option String :=
  let rows := excerptLines text
  let marked := line - 1
  let first := marked - 2
  ((List.range' first (min (marked + 3) rows.length - first)).mapM fun index =>
    (rows[index]?).map (excerptRow (index == marked) (index + 1))).map String.join

/-- Neighbouring entries of a list are found up to its end. -/
theorem mapM_range'_getElem? {α β : Type} (entries : List α) (f : Nat → α → β) (first count : Nat)
    (inside : first + count ≤ entries.length) :
    ((List.range' first count).mapM fun index => (entries[index]?).map (f index)) =
      some (((entries.drop first).take count).mapIdx fun i entry => f (first + i) entry) := by
  induction count generalizing first with
  | zero => simp
  | succ count ih =>
    have here : first < entries.length := by omega
    have next : (fun i entry => f (first + (i + 1)) entry) =
        fun i entry => f (first + 1 + i) entry := by
      funext i entry
      rw [Nat.add_comm i 1, ← Nat.add_assoc]
    rw [List.range'_succ, List.mapM_cons, ih (first + 1) (by omega), List.getElem?_eq_getElem here,
      List.drop_eq_getElem_cons here, List.take_succ_cons, List.mapIdx_cons, next]
    rfl

theorem excerpt?_eq (text : List Char) (line : Nat) :
    excerpt? text line = some (excerpt text line) := by
  rw [excerpt?, excerpt]
  generalize excerptLines text = rows
  by_cases inside : line - 1 - 2 ≤ rows.length
  · rw [mapM_range'_getElem? rows _ _ _ (by omega), Option.map_some]
    have shown : (rows.drop (line - 1 - 2)).take (min (line - 1 + 3) rows.length - (line - 1 - 2)) =
        (rows.take (line - 1 + 3)).drop (line - 1 - 2) := by
      rw [List.drop_take, List.take_eq_take_iff, List.length_drop]
      omega
    rw [shown]
  · have none : min (line - 1 + 3) rows.length - (line - 1 - 2) = 0 := by omega
    have past : (rows.take (line - 1 + 3)).drop (line - 1 - 2) = [] := by
      rw [List.drop_eq_nil_iff, List.length_take]
      omega
    rw [none, past]
    rfl

end GroovyTidy.Text
