import GroovyTidy.Proofs.Text.Slices
import GroovyTidy.Proofs.Text.Utf8

set_option autoImplicit false

/-!
Positions in a text, counted character by character. The position behind the front of a text is
known from its characters and from the one that follows, since only that one may still belong to a
line end. It is the position that the index of lines finds for the bytes of the front. Where lines
start is also found by a scan of the bytes, which knows nothing of characters.
-/
namespace GroovyTidy.Text

/-- A line ends behind a character: behind a line feed, and behind a carriage return that no line
feed follows. -/
def closesLine (c : Char) (rest : List Char) : Bool :=
  c == '\n' || (c == '\r' && rest.head? != some '\n')

/-- A position with one character more before the text, which closes a line or not. -/
def Position.later (closes : Bool) (position : Position) : Position :=
  if closes then ⟨position.line + 1, position.column⟩
  else if position.line = 1 then ⟨1, position.column + 1⟩
  else position

/-- The position behind the front of a text and before the rest. -/
def positionAfter : List Char → List Char → Position
  | [], _ => ⟨1, 1⟩
  | c :: front, rest => (positionAfter front rest).later (closesLine c (front ++ rest))

theorem positionAfter_line_pos (front rest : List Char) : 0 < (positionAfter front rest).line := by
  induction front with
  | nil => exact Nat.one_pos
  | cons c front ih =>
    rw [positionAfter, Position.later]
    split
    · exact Nat.succ_pos _
    · split
      · exact Nat.one_pos
      · exact ih

/-! ## Lines -/

theorem linesWithEnds_other {c : Char} (notFeed : c ≠ '\n') (notReturn : c ≠ '\r')
    (rest : List Char) : linesWithEnds (c :: rest) = (linesWithEnds rest).modifyHead (c :: ·) := by
  rw [linesWithEnds]
  · obtain ⟨line, lines, shape⟩ := List.exists_cons_of_ne_nil (linesWithEnds_ne_nil rest)
    rw [shape]
    rfl
  · exact notFeed
  · intro _ carriage
    exact absurd carriage notReturn
  · exact notReturn

theorem linesWithEnds_return {rest : List Char} (alone : rest.head? ≠ some '\n') :
    linesWithEnds ('\r' :: rest) = ['\r'] :: linesWithEnds rest := by
  rw [linesWithEnds]
  intro after shape
  rw [shape] at alone
  exact alone rfl

/-- A line end closes a line, and any other character stands at the front of the line that follows
it. -/
theorem linesWithEnds_cons (c : Char) (rest : List Char) :
    linesWithEnds (c :: rest) =
      if closesLine c rest then [c] :: linesWithEnds rest
      else (linesWithEnds rest).modifyHead (c :: ·) := by
  by_cases feed : c = '\n'
  · subst feed
    rfl
  by_cases carriage : c = '\r'
  · subst carriage
    by_cases paired : rest.head? = some '\n'
    · obtain ⟨after, rfl⟩ := List.head?_eq_some_iff.mp paired
      rfl
    · rw [linesWithEnds_return paired, closesLine]
      simp [paired]
  · rw [linesWithEnds_other feed carriage, closesLine]
    simp [feed, carriage]

/-- Only one line starts where a text starts, since a line that another one follows is not empty. -/
theorem reached_start (start : Nat) (text : List Char) :
    ∃ line, (placeLines start (linesWithEnds text)).takeWhile (fun line => line.start ≤ start) =
      [⟨start, line⟩] := by
  cases text with
  | nil => exact ⟨[], by simp [linesWithEnds, placeLines]⟩
  | cons c rest =>
    obtain ⟨line, lines, shape⟩ : ∃ line lines,
      linesWithEnds (c :: rest) = (c :: line) :: lines := by
      rw [linesWithEnds_cons]
      split
      · exact ⟨[], linesWithEnds rest, rfl⟩
      · obtain ⟨line, lines, shape⟩ := List.exists_cons_of_ne_nil (linesWithEnds_ne_nil rest)
        exact ⟨line, lines, by rw [shape, List.modifyHead_cons]⟩
    refine ⟨c :: line, ?_⟩
    have size := c.utf8Size_pos
    rw [shape, placeLines, List.takeWhile_cons, if_pos (by simp), byteLength_cons]
    cases lines with
    | nil => rfl
    | cons next lines => rw [placeLines, List.takeWhile_cons, if_neg (by simp; omega)]

/-- The lines up to the one that the front of a text ends in. The induction is on the front: its
first character is a line of its own or belongs to the first line of what follows it. -/
theorem reached_front (start : Nat) (front rest : List Char) :
    ∃ (before : List Line) (last : Line) (chars : Nat),
      (placeLines start (linesWithEnds (front ++ rest))).takeWhile
        (fun line => line.start ≤ start + byteLength front) = before ++ [last] ∧
      charsInBytes? last.text (start + byteLength front - last.start) = some chars ∧
      positionAfter front rest = ⟨before.length + 1, chars + 1⟩ := by
  induction front generalizing start with
  | nil =>
    obtain ⟨line, taken⟩ := reached_start start rest
    exact ⟨[], ⟨start, line⟩, 0, taken, by simp [charsInBytes?], rfl⟩
  | cons c front ih =>
    obtain ⟨before, last, chars, taken, inside, placed⟩ := ih (start + c.utf8Size)
    rw [List.cons_append, linesWithEnds_cons, byteLength_cons, ← Nat.add_assoc,
      positionAfter, placed]
    by_cases closes : closesLine c (front ++ rest) = true
    · refine ⟨⟨start, [c]⟩ :: before, last, chars, ?_, inside, ?_⟩
      · rw [if_pos closes, placeLines, List.takeWhile_cons, if_pos (by simp; omega),
          byteLength_cons, byteLength_nil, Nat.add_zero, taken, List.cons_append]
      · rw [closes]
        rfl
    · obtain ⟨line, lines, shape⟩ :=
        List.exists_cons_of_ne_nil (linesWithEnds_ne_nil (front ++ rest))
      rw [shape, placeLines, List.takeWhile_cons, if_pos (by simp)] at taken
      rw [if_neg closes, Bool.eq_false_iff.mpr closes, shape, List.modifyHead_cons, placeLines,
        List.takeWhile_cons, if_pos (by simp; omega), byteLength_cons, ← Nat.add_assoc]
      cases before with
      | nil =>
        obtain ⟨rfl, none⟩ := List.cons.inj taken
        refine ⟨[], ⟨start, c :: line⟩, chars + 1, by rw [none]; rfl, ?_, rfl⟩
        have size := c.utf8Size_pos
        rw [Nat.add_sub_cancel_left] at inside
        rw [Nat.add_assoc, Nat.add_sub_cancel_left, charsInBytes?, if_pos (Nat.le_add_right _ _),
          Nat.add_sub_cancel_left, inside, Option.map_some]
        omega
      | cons first before =>
        obtain ⟨-, others⟩ := List.cons.inj taken
        exact ⟨⟨start, c :: line⟩ :: before, last, chars, by rw [others]; rfl, inside, rfl⟩

/-- The index of lines finds the position behind the front of a text. -/
theorem locate_front (front rest : List Char) :
    (LineIndex.ofText (front ++ rest)).locate (byteLength front) = positionAfter front rest := by
  obtain ⟨before, last, chars, taken, inside, placed⟩ := reached_front 0 front rest
  rw [Nat.zero_add] at taken inside
  have bounded : min (byteLength front) (LineIndex.ofText (front ++ rest)).size =
      byteLength front := by
    apply Nat.min_eq_left
    rw [LineIndex.ofText, byteLength_append]
    exact Nat.le_add_right _ _
  have lines :
      (LineIndex.ofText (front ++ rest)).lines.takeWhile
        (fun line => line.start ≤ byteLength front) =
      before ++ [last] := taken
  rw [LineIndex.locate, placed]
  simp only [bounded, lines]
  simp [inside]

/-! ## Starts of lines, byte by byte -/

/-- The offsets right behind the line ends among some bytes, of which the first is at an offset. -/
def lineStartsFrom : Nat → List UInt8 → List Nat
  | _, [] => []
  | offset, byte :: rest =>
    if byte = 0x0A ∨ byte = 0x0D ∧ rest.head? ≠ some 0x0A then
      (offset + 1) :: lineStartsFrom (offset + 1) rest
    else lineStartsFrom (offset + 1) rest

/-- The offsets at which the lines of some bytes start. -/
def lineStarts (bytes : List UInt8) : List Nat :=
  0 :: lineStartsFrom 0 bytes

/-- A character is one byte, its code point, or all its bytes are large. -/
theorem encode_cases (c : Char) :
    (c.toNat < 0x80 ∧ String.utf8EncodeChar c = [UInt8.ofNat c.toNat]) ∨
      (0x80 ≤ c.toNat ∧ ∀ byte ∈ String.utf8EncodeChar c, 0x80 ≤ byte.toNat) := by
  unfold String.utf8EncodeChar
  rw [show c.val.toNat = c.toNat from rfl]
  dsimp only
  split
  · exact .inl ⟨by omega, rfl⟩
  · refine .inr ⟨by omega, ?_⟩
    -- Every byte of a longer character has a marker in its upper bits.
    have marked : ∀ n, 0x80 ≤ n → n < 256 → 0x80 ≤ (UInt8.ofNat n).toNat := by
      intro n large small
      rw [toNat_ofNat_byte small]
      exact large
    have follower : ∀ n, 0x80 ≤ (UInt8.ofNat (n % 64 + 0x80)).toNat :=
      fun n => marked _ (by omega) (by omega)
    split
    · simp only [List.forall_mem_cons]
      exact ⟨marked _ (by omega) (by omega), follower _, List.forall_mem_nil _⟩
    · split
      · simp only [List.forall_mem_cons]
        exact ⟨marked _ (by omega) (by omega), follower _, follower _, List.forall_mem_nil _⟩
      · simp only [List.forall_mem_cons]
        exact ⟨marked _ (by omega) (by omega), follower _, follower _, follower _,
          List.forall_mem_nil _⟩

/-- A line feed is the first byte exactly if it is the first character. -/
theorem head?_flatMap_encode (text : List Char) :
    (text.flatMap String.utf8EncodeChar).head? = some 0x0A ↔ text.head? = some '\n' := by
  cases text with
  | nil => exact ⟨fun none => (by cases none), fun none => (by cases none)⟩
  | cons c rest =>
    rw [List.flatMap_cons, List.head?_cons, Option.some.injEq]
    constructor
    · intro feed
      rcases encode_cases c with ⟨small, shape⟩ | ⟨-, large⟩
      · rw [shape, List.singleton_append, List.head?_cons, Option.some.injEq] at feed
        have value : c.toNat = 0x0A := by
          rw [← toNat_ofNat_byte (n := c.toNat) (by omega), feed]
          rfl
        exact Char.toNat_inj.mp value
      · obtain ⟨first, others, shape, -⟩ := leadingChar_encode c []
        rw [shape, List.cons_append, List.head?_cons, Option.some.injEq] at feed
        have bound := large first (by rw [shape]; exact List.mem_cons_self)
        rw [feed] at bound
        exact absurd bound (by decide)
    · rintro rfl
      rfl

theorem lineStartsFrom_append {front : List UInt8} (plain : ∀ byte ∈ front, 0x80 ≤ byte.toNat)
    (offset : Nat) (rest : List UInt8) :
    lineStartsFrom offset (front ++ rest) = lineStartsFrom (offset + front.length) rest := by
  induction front generalizing offset with
  | nil => rfl
  | cons byte front ih =>
    obtain ⟨large, others⟩ := List.forall_mem_cons.mp plain
    have inside : ¬(byte = 0x0A ∨ byte = 0x0D ∧ (front ++ rest).head? ≠ some 0x0A) := by
      rintro (rfl | ⟨rfl, -⟩) <;> exact absurd large (by decide)
    rw [List.cons_append, lineStartsFrom, if_neg inside, ih others, List.length_cons,
      Nat.add_right_comm, Nat.add_assoc]

/-- One character of a scan: a new line starts right behind it if it closes one. -/
theorem lineStartsFrom_encode (offset : Nat) (c : Char) (rest : List Char) :
    lineStartsFrom offset ((c :: rest).flatMap String.utf8EncodeChar) =
      (if closesLine c rest then [offset + c.utf8Size] else []) ++
        lineStartsFrom (offset + c.utf8Size) (rest.flatMap String.utf8EncodeChar) := by
  have size : (String.utf8EncodeChar c).length = c.utf8Size := String.length_utf8EncodeChar c
  rw [List.flatMap_cons]
  rcases encode_cases c with ⟨small, shape⟩ | ⟨large, plain⟩
  · have same : ∀ d : Char, d.toNat < 0x80 →
        (UInt8.ofNat c.toNat = UInt8.ofNat d.toNat ↔ c = d) := by
      intro d ascii
      rw [← UInt8.toNat_inj, toNat_ofNat_byte (by omega), toNat_ofNat_byte (by omega),
        Char.toNat_inj]
    have feed : UInt8.ofNat c.toNat = 0x0A ↔ c = '\n' := same '\n' (by decide)
    have carriage : UInt8.ofNat c.toNat = 0x0D ↔ c = '\r' := same '\r' (by decide)
    rw [shape, List.length_singleton] at size
    rw [shape, ← size, List.singleton_append, lineStartsFrom, closesLine]
    simp only [feed, carriage, ne_eq, head?_flatMap_encode, Bool.or_eq_true, beq_iff_eq,
      Bool.and_eq_true, bne_iff_ne]
    split <;> rfl
  · have within : closesLine c rest = false := by
      have other : ∀ d : Char, d.toNat < 0x80 → c ≠ d := by
        rintro d small rfl
        omega
      simp [closesLine, other '\n' (by decide), other '\r' (by decide)]
    rw [lineStartsFrom_append plain, size, within]
    rfl

theorem starts_placeLines (offset : Nat) (text : List Char) :
    (placeLines offset (linesWithEnds text)).map Line.start =
      offset :: lineStartsFrom offset (text.flatMap String.utf8EncodeChar) := by
  induction text generalizing offset with
  | nil => rfl
  | cons c rest ih =>
    have later := ih (offset + c.utf8Size)
    rw [lineStartsFrom_encode, linesWithEnds_cons]
    split
    · rw [placeLines, List.map_cons, byteLength_cons, byteLength_nil, Nat.add_zero, later]
      rfl
    · obtain ⟨line, lines, shape⟩ := List.exists_cons_of_ne_nil (linesWithEnds_ne_nil rest)
      rw [shape, placeLines, List.map_cons] at later
      rw [shape, List.modifyHead_cons, placeLines, List.map_cons, byteLength_cons, ← Nat.add_assoc,
        (List.cons.inj later).2]
      rfl

/-- The scan of the bytes of a text finds the starts of its lines. -/
theorem lineStarts_eq (text : List Char) :
    lineStarts (toBytes (String.ofList text)) = (LineIndex.ofText text).starts := by
  rw [toBytes_eq, String.toList_ofList]
  exact (starts_placeLines 0 text).symm

/-- The position of every byte offset is found from the starts of lines among the bytes. -/
theorem locate?_lineStarts (text : List Char) (offset : Nat) :
    locate? text (lineStarts (toBytes (String.ofList text))) offset =
      some ((LineIndex.ofText text).locate offset) := by
  rw [lineStarts_eq, locate?_eq]

end GroovyTidy.Text
