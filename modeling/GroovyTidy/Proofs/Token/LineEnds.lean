import GroovyTidy.Proofs.Text.Positions
import GroovyTidy.Proofs.Token.Tiling
import GroovyTidy.Proofs.Tree.Refusal
import Mathlib.Data.Nat.Count

set_option autoImplicit false

/-!
Line ends and positions. The line of a byte offset is found by counting the line ends that finish at
the offset or before it, and the column by counting the characters behind the last of them. So later
offsets have later positions, and a token that is a line end is followed by the start of the next
line.
-/
namespace GroovyTidy

open Text

/-! ## Line ends by their offsets -/

/-- A line end finishes at a byte offset of a text. A carriage return and the line feed after it
finish together, behind the line feed. -/
def LineEndsAt (text : List Char) (offset : Nat) : Prop :=
  ∃ before ending after, text = before ++ ending ++ after ∧ LineEnd ending after ∧
    byteLength (before ++ ending) = offset

/-- A character or the end of the text stands at a byte offset. -/
def IsBoundary (text : List Char) (offset : Nat) : Prop :=
  (sliceFrom? text offset).isSome = true

theorem closesLine_iff (c : Char) (rest : List Char) :
    closesLine c rest = true ↔ LineEnd [c] rest := by
  rw [closesLine, Bool.or_eq_true, Bool.and_eq_true, beq_iff_eq, beq_iff_eq, bne_iff_ne]
  constructor
  · rintro (rfl | ⟨rfl, alone⟩)
    · exact .feed rest
    · exact .carriage alone
  · intro ends
    cases ends with
    | feed => exact .inl rfl
    | carriage alone => exact .inr ⟨rfl, alone⟩

theorem not_lineEndsAt_nil (offset : Nat) : ¬ LineEndsAt [] offset := by
  rintro ⟨before, ending, after, shape, ends, -⟩
  obtain ⟨c, more, rfl, -⟩ := ends.isLineEnd_head
  simp at shape

theorem not_lineEndsAt_zero (text : List Char) : ¬ LineEndsAt text 0 := by
  rintro ⟨before, ending, after, -, ends, size⟩
  obtain ⟨c, more, rfl, -⟩ := ends.isLineEnd_head
  have some := c.utf8Size_pos
  rw [byteLength_append, byteLength_cons] at size
  omega

/-- Behind its first character a text has the line ends of what follows, and perhaps one right
there. -/
theorem lineEndsAt_cons_iff {c : Char} {text : List Char} {offset : Nat} :
    LineEndsAt (c :: text) (c.utf8Size + offset) ↔
      (offset = 0 ∧ closesLine c text = true) ∨ LineEndsAt text offset := by
  constructor
  · rintro ⟨before, ending, after, shape, ends, size⟩
    cases before with
    | nil =>
      cases ends with
      | feed =>
        obtain ⟨rfl, rfl⟩ := List.cons.inj shape
        exact .inl ⟨by simpa using size, rfl⟩
      | pair =>
        -- The line feed of a pair is a line end of what follows the carriage return.
        obtain ⟨rfl, rfl⟩ := List.cons.inj shape
        exact .inr ⟨[], ['\n'], after, rfl, .feed after, by simpa using size⟩
      | carriage alone =>
        obtain ⟨rfl, rfl⟩ := List.cons.inj shape
        exact .inl ⟨by simpa using size, (closesLine_iff _ _).mpr (.carriage alone)⟩
    | cons first before =>
      obtain ⟨rfl, rfl⟩ := List.cons.inj shape
      rw [List.cons_append, byteLength_cons] at size
      exact .inr ⟨before, ending, after, rfl, ends, Nat.add_left_cancel size⟩
  · rintro (⟨rfl, closes⟩ | ⟨before, ending, after, rfl, ends, rfl⟩)
    · exact ⟨[], [c], text, rfl, (closesLine_iff c text).mp closes, by simp⟩
    · exact ⟨c :: before, ending, after, rfl, ends, by rw [List.cons_append, byteLength_cons]⟩

theorem le_of_lineEndsAt_cons {c : Char} {text : List Char} {offset : Nat}
    (ends : LineEndsAt (c :: text) offset) : c.utf8Size ≤ offset := by
  obtain ⟨before, ending, after, shape, ends, rfl⟩ := ends
  obtain ⟨d, more, rfl, -⟩ := ends.isLineEnd_head
  cases before with
  | nil =>
    obtain ⟨rfl, -⟩ := List.cons.inj shape
    rw [List.nil_append, byteLength_cons]
    exact Nat.le_add_right _ _
  | cons first before =>
    obtain ⟨rfl, -⟩ := List.cons.inj shape
    rw [List.cons_append, byteLength_cons]
    exact Nat.le_add_right _ _

instance decidableLineEndsAt : (text : List Char) → DecidablePred (LineEndsAt text)
  | [], offset => isFalse (not_lineEndsAt_nil offset)
  | c :: text, offset =>
    have : DecidablePred (LineEndsAt text) := decidableLineEndsAt text
    if inside : c.utf8Size ≤ offset then
      decidable_of_iff ((offset - c.utf8Size = 0 ∧ closesLine c text = true) ∨
        LineEndsAt text (offset - c.utf8Size))
        (by rw [← lineEndsAt_cons_iff, Nat.add_sub_cancel' inside])
    else isFalse fun ends => inside (le_of_lineEndsAt_cons ends)

/-- How many line ends finish at a byte offset or before it. -/
def lineEndsThrough (text : List Char) (offset : Nat) : Nat :=
  Nat.count (LineEndsAt text) (offset + 1)

/-- Where the last line end finishes that does so at a byte offset or before it, or the start of the
text if there is none. -/
def lastLineEnd (text : List Char) (offset : Nat) : Nat :=
  Nat.findGreatest (LineEndsAt text) offset

example :
    lineEndsThrough "a\r\né\r\rb\n".toList 6 = 2 ∧ lastLineEnd "a\r\né\r\rb\n".toList 6 = 6 := by
  decide

/-! ## Counting from the front -/

theorem lineEndsThrough_zero (text : List Char) : lineEndsThrough text 0 = 0 := by
  rw [lineEndsThrough, Nat.count_succ, Nat.count_zero, if_neg (not_lineEndsAt_zero text)]

theorem lastLineEnd_zero (text : List Char) : lastLineEnd text 0 = 0 :=
  Nat.findGreatest_zero

/-- There is a last line end exactly if there are line ends. -/
theorem lastLineEnd_eq_zero_iff (text : List Char) (offset : Nat) :
    lastLineEnd text offset = 0 ↔ lineEndsThrough text offset = 0 := by
  rw [lastLineEnd, Nat.findGreatest_eq_zero_iff, lineEndsThrough, Nat.count_iff_forall_not]
  constructor
  · intro none offset inside ends
    rcases Nat.eq_zero_or_pos offset with rfl | positive
    · exact not_lineEndsAt_zero text ends
    · exact none positive (Nat.le_of_lt_succ inside) ends
  · intro none offset _ inside
    exact none offset (Nat.lt_succ_of_le inside)

theorem lineEndsThrough_cons (c : Char) (text : List Char) (offset : Nat) :
    lineEndsThrough (c :: text) (c.utf8Size + offset) =
      lineEndsThrough text offset + if closesLine c text then 1 else 0 := by
  have early : Nat.count (LineEndsAt (c :: text)) c.utf8Size = 0 := by
    refine Nat.count_iff_forall_not.mpr fun offset inside ends => ?_
    exact Nat.not_lt.mpr (le_of_lineEndsAt_cons ends) inside
  have here : LineEndsAt (c :: text) (c.utf8Size + 0) ↔ closesLine c text = true := by
    rw [lineEndsAt_cons_iff]
    simp [not_lineEndsAt_zero]
  have later : ∀ k, LineEndsAt (c :: text) (c.utf8Size + (k + 1)) ↔ LineEndsAt text (k + 1) := by
    intro k
    rw [lineEndsAt_cons_iff]
    exact or_iff_right fun first => Nat.succ_ne_zero k first.1
  rw [lineEndsThrough, lineEndsThrough, Nat.add_assoc, Nat.count_add, early, Nat.zero_add,
    Nat.count_succ', Nat.count_succ', if_neg (not_lineEndsAt_zero text), Nat.add_zero]
  simp only [later]
  exact congrArg _ (if_congr here rfl rfl)

theorem lastLineEnd_cons (c : Char) (text : List Char) (offset : Nat) :
    lastLineEnd (c :: text) (c.utf8Size + offset) =
      if lastLineEnd text offset = 0 then if closesLine c text then c.utf8Size else 0
      else c.utf8Size + lastLineEnd text offset := by
  obtain ⟨short, found, greatest⟩ := Nat.findGreatest_eq_iff.mp (rfl : lastLineEnd text offset = _)
  have behind : ∀ {n : Nat}, LineEndsAt (c :: text) n →
      n = c.utf8Size ∧ closesLine c text = true ∨ ∃ k, n = c.utf8Size + k ∧ 0 < k ∧
        LineEndsAt text k := by
    intro n ends
    obtain ⟨k, rfl⟩ := Nat.exists_eq_add_of_le (le_of_lineEndsAt_cons ends)
    rcases lineEndsAt_cons_iff.mp ends with ⟨rfl, closes⟩ | later
    · exact .inl ⟨rfl, closes⟩
    · refine .inr ⟨k, rfl, Nat.pos_of_ne_zero ?_, later⟩
      rintro rfl
      exact not_lineEndsAt_zero text later
  have some := c.utf8Size_pos
  by_cases none : lastLineEnd text offset = 0
  · rw [if_pos none]
    rw [none] at greatest
    by_cases closes : closesLine c text = true
    · rw [if_pos closes]
      refine Nat.findGreatest_eq_iff.mpr ⟨Nat.le_add_right _ _, fun _ => ?_, ?_⟩
      · exact lineEndsAt_cons_iff.mpr (.inl ⟨rfl, closes⟩)
      · intro n above inside ends
        rcases behind ends with ⟨rfl, -⟩ | ⟨k, rfl, positive, later⟩
        · exact Nat.lt_irrefl _ above
        · exact greatest positive (by omega) later
    · rw [if_neg closes]
      refine Nat.findGreatest_eq_iff.mpr ⟨Nat.zero_le _, fun zero => absurd rfl zero, ?_⟩
      intro n _ inside ends
      rcases behind ends with ⟨-, ended⟩ | ⟨k, rfl, positive, later⟩
      · exact closes ended
      · exact greatest positive (by omega) later
  · rw [if_neg none]
    refine Nat.findGreatest_eq_iff.mpr ⟨by omega, fun _ => ?_, ?_⟩
    · exact lineEndsAt_cons_iff.mpr (.inr (found none))
    · intro n above inside ends
      rcases behind ends with ⟨rfl, -⟩ | ⟨k, rfl, positive, later⟩
      · omega
      · exact greatest (by omega) (by omega) later

/-- The position behind the front of a text by its line ends. The induction is on the front: a
character before it adds a line end or not, and belongs to the last line only if there is no line
end behind it. -/
theorem positionAfter_eq (front rest : List Char) :
    ∃ before line, front = before ++ line ∧
      byteLength before = lastLineEnd (front ++ rest) (byteLength front) ∧
      positionAfter front rest =
        ⟨1 + lineEndsThrough (front ++ rest) (byteLength front), 1 + line.length⟩ := by
  induction front with
  | nil =>
    exact ⟨[], [], rfl, (lastLineEnd_zero _).symm,
      by rw [byteLength_nil, lineEndsThrough_zero]; rfl⟩
  | cons c front ih =>
    obtain ⟨before, line, shape, size, placed⟩ := ih
    rw [List.cons_append, byteLength_cons, lastLineEnd_cons, lineEndsThrough_cons,
      positionAfter, placed, Position.later]
    by_cases none : lastLineEnd (front ++ rest) (byteLength front) = 0
    · have count := (lastLineEnd_eq_zero_iff _ _).mp none
      have empty : before = [] := by
        rw [none] at size
        cases before with
        | nil => rfl
        | cons d before =>
          have some := d.utf8Size_pos
          rw [byteLength_cons] at size
          omega
      subst empty
      rw [List.nil_append] at shape
      subst shape
      rw [if_pos none, count]
      by_cases closes : closesLine c (front ++ rest) = true
      · exact ⟨[c], front, rfl, by simp [closes], by simp [closes]⟩
      · exact ⟨[], c :: front, rfl, by simp [closes], by simp [closes]; omega⟩
    · have count : lineEndsThrough (front ++ rest) (byteLength front) ≠ 0 :=
        fun zero => none ((lastLineEnd_eq_zero_iff _ _).mpr zero)
      refine ⟨c :: before, line, by rw [shape, List.cons_append], ?_, ?_⟩
      · rw [if_neg none, byteLength_cons, size]
      · by_cases closes : closesLine c (front ++ rest) = true
        · simp only [closes, ↓reduceIte, Nat.add_assoc]
        · simp only [closes, Bool.false_eq_true, ↓reduceIte, Nat.add_zero]
          rw [if_neg (by omega)]

/-! ## Later positions -/

/-- A position on an earlier line, or further left on the same line. -/
def Text.Position.Before (left right : Position) : Prop :=
  left.line < right.line ∨ left.line = right.line ∧ left.column < right.column

theorem positionAfter_column_pos (front rest : List Char) :
    0 < (positionAfter front rest).column := by
  obtain ⟨before, line, -, -, placed⟩ := positionAfter_eq front rest
  rw [placed]
  exact Nat.lt_of_lt_of_le Nat.one_pos (Nat.le_add_right _ _)

/-- A character more in front of both keeps two positions in order. -/
theorem Text.Position.Before.later {left right : Position} (before : left.Before right)
    (inside : 0 < left.line) (closes : Bool) : (left.later closes).Before (right.later closes) := by
  obtain ⟨line, column⟩ := left
  obtain ⟨line', column'⟩ := right
  unfold Before Text.Position.later at *
  dsimp only at before inside ⊢
  repeat' split
  all_goals dsimp only
  all_goals omega

theorem start_before (c : Char) (front rest : List Char) :
    Position.Before ⟨1, 1⟩ (positionAfter (c :: front) rest) := by
  have line := positionAfter_line_pos front rest
  have column := positionAfter_column_pos front rest
  rw [positionAfter]
  unfold Position.Before Text.Position.later
  repeat' split
  all_goals dsimp only
  all_goals omega

/-- What reaches further into a text has a later position. -/
theorem positionAfter_before (front : List Char) {more : List Char} (filled : more ≠ [])
    (rest : List Char) :
    (positionAfter front (more ++ rest)).Before (positionAfter (front ++ more) rest) := by
  induction front with
  | nil =>
    obtain ⟨c, more, rfl⟩ := List.exists_cons_of_ne_nil filled
    exact start_before c more rest
  | cons c front ih =>
    rw [List.cons_append, positionAfter, positionAfter, List.append_assoc]
    exact ih.later (positionAfter_line_pos _ _) _

/-- Behind a line end the next line starts. -/
theorem positionAfter_lineEnd (front : List Char) {ending rest : List Char}
    (ends : LineEnd ending rest) :
    positionAfter (front ++ ending) rest =
      ⟨(positionAfter front (ending ++ rest)).line + 1, 1⟩ := by
  induction front with
  | nil =>
    cases ends with
    | feed => rfl
    | pair => rfl
    | carriage alone =>
      rw [List.nil_append, positionAfter, positionAfter, positionAfter, List.nil_append,
        (closesLine_iff _ _).mpr (.carriage alone)]
      rfl
  | cons c front ih =>
    have positive := positionAfter_line_pos front (ending ++ rest)
    rw [List.cons_append, positionAfter, positionAfter, ih, List.append_assoc, Text.Position.later,
      Text.Position.later]
    by_cases closes : closesLine c (front ++ (ending ++ rest)) = true
    · simp only [closes, ↓reduceIte]
    · simp only [closes, Bool.false_eq_true, ↓reduceIte]
      rw [if_neg (by omega)]
      split
      · rename_i first
        rw [first]
      · rfl

/-- The end of the text is found for every offset past it. -/
theorem locate_past_end {text : List Char} {offset : Nat} (past : byteLength text ≤ offset) :
    (LineIndex.ofText text).locate offset = (LineIndex.ofText text).locate (byteLength text) := by
  have size : (LineIndex.ofText text).size = byteLength text := rfl
  rw [LineIndex.locate, LineIndex.locate, size, Nat.min_eq_right past, Nat.min_self]

/-- The next line starts where the span of a newline token ends. -/
theorem locate_behind_newline {source : String} {tokens : List Token}
    (success : tokenize source = .ok tokens) {token : Token} (member : token ∈ tokens)
    (newline : token.kind = .newline) :
    (LineIndex.ofText source.toList).locate token.span.stop = ⟨token.line + 1, 1⟩ := by
  have started := tokensFrom_located success token member
  obtain ⟨front, back, split⟩ := List.append_of_mem member
  obtain ⟨passed, gap, rest, shape, -, tile⟩ := (tokensFrom_tiled success).tile split
  have ends := tile.newline.mp newline
  have reached : 0 + byteLength (source.toList.take 0) + byteLength passed = byteLength passed := by
    rw [List.take_zero, byteLength_nil, Nat.add_zero, Nat.zero_add]
  have placed := tile.placed
  rw [reached, ← byteLength_append] at placed
  rw [placed, ← byteLength_append] at started ⊢
  rw [List.drop_zero] at shape
  rw [shape, List.append_assoc, locate_front] at started
  rw [shape, locate_front, positionAfter_lineEnd _ ends, started]

/-- The line of an offset counts the line ends that finish there or before, the column counts the
characters behind the last of them, later offsets have later positions, the end of a text stands for
all that is past it, and the scanner ends lines at the same places. -/
theorem locate_counts_line_ends (source : String) :
    (∀ offset, IsBoundary source.toList offset →
      ∃ line, slice? source.toList (lastLineEnd source.toList offset) offset = some line ∧
        (LineIndex.ofText source.toList).locate offset =
          ⟨1 + lineEndsThrough source.toList offset, 1 + line.length⟩) ∧
    (∀ early late, IsBoundary source.toList early → IsBoundary source.toList late → early < late →
      ((LineIndex.ofText source.toList).locate early).Before
        ((LineIndex.ofText source.toList).locate late)) ∧
    (∀ offset, source.utf8ByteSize ≤ offset →
      (LineIndex.ofText source.toList).locate offset =
        (LineIndex.ofText source.toList).locate source.utf8ByteSize) ∧
    ∀ tokens, tokenize source = .ok tokens → ∀ token ∈ tokens, token.kind = .newline →
      (LineIndex.ofText source.toList).locate token.span.stop = ⟨token.line + 1, 1⟩ := by
  refine ⟨?_, ?_, ?_, ?_⟩
  · intro offset boundary
    obtain ⟨rest, cut⟩ := Option.isSome_iff_exists.mp boundary
    obtain ⟨front, shape, rfl⟩ := sliceFrom?_eq_some_iff.mp cut
    obtain ⟨before, line, parts, size, placed⟩ := positionAfter_eq front rest
    rw [shape, locate_front, ← size, placed]
    refine ⟨line, ?_, rfl⟩
    have behind : sliceFrom? (front ++ rest) (byteLength before) = some (line ++ rest) :=
      sliceFrom?_eq_some_iff.mpr ⟨before, by rw [parts, List.append_assoc], rfl⟩
    have between := slice?_add behind
    rwa [← byteLength_append, ← parts] at between
  · intro early late first second less
    obtain ⟨behind, cut⟩ := Option.isSome_iff_exists.mp first
    obtain ⟨rest, cut'⟩ := Option.isSome_iff_exists.mp second
    obtain ⟨more, rfl⟩ := Nat.exists_eq_add_of_le (Nat.le_of_lt less)
    obtain ⟨front, shape, rfl⟩ := sliceFrom?_eq_some_iff.mp cut
    rw [sliceFrom?_again cut] at cut'
    obtain ⟨between, rfl, rfl⟩ := sliceFrom?_eq_some_iff.mp cut'
    have filled : between ≠ [] := by
      rintro rfl
      simp at less
    have located := locate_front (front ++ between) rest
    rw [List.append_assoc, byteLength_append] at located
    rw [shape, locate_front, located]
    exact positionAfter_before front filled rest
  · intro offset past
    rw [utf8ByteSize_eq] at past ⊢
    exact locate_past_end past
  · intro tokens success token member newline
    exact locate_behind_newline success member newline

/-- A text with every kind of line end and a character of two bytes, whose last line end is inside a
list. -/
theorem locate_counts_line_ends_of_mixed_ends :
    (IsBoundary "'é'\r\nb\r[\n]".toList 7 ∧
      ∃ line, slice? "'é'\r\nb\r[\n]".toList (lastLineEnd "'é'\r\nb\r[\n]".toList 7) 7 = some line ∧
        (LineIndex.ofText "'é'\r\nb\r[\n]".toList).locate 7 =
          ⟨1 + lineEndsThrough "'é'\r\nb\r[\n]".toList 7, 1 + line.length⟩) ∧
    (IsBoundary "'é'\r\nb\r[\n]".toList 5 ∧ IsBoundary "'é'\r\nb\r[\n]".toList 6 ∧
      ((LineIndex.ofText "'é'\r\nb\r[\n]".toList).locate 5).Before
        ((LineIndex.ofText "'é'\r\nb\r[\n]".toList).locate 6)) ∧
    (LineIndex.ofText "'é'\r\nb\r[\n]".toList).locate 20 =
      (LineIndex.ofText "'é'\r\nb\r[\n]".toList).locate "'é'\r\nb\r[\n]".utf8ByteSize ∧
    tokenize "'é'\r\nb\r[\n]" =
      .ok [.place (.literal .string) "'é'" 0 1 1, .place .newline "\r\n" 4 1 4,
        .place .identifier "b" 6 2 1, .place .newline "\r" 7 2 2,
        .place (.opening .bracket) "[" 8 3 1, .place (.closing .bracket) "]" 10 4 1,
        .place .endOfInput "" 11 4 2] ∧
    (LineIndex.ofText "'é'\r\nb\r[\n]".toList).locate 6 = ⟨2, 1⟩ := by
  have success : tokenize "'é'\r\nb\r[\n]" =
      .ok [.place (.literal .string) "'é'" 0 1 1, .place .newline "\r\n" 4 1 4,
        .place .identifier "b" 6 2 1, .place .newline "\r" 7 2 2,
        .place (.opening .bracket) "[" 8 3 1, .place (.closing .bracket) "]" 10 4 1,
        .place .endOfInput "" 11 4 2] := by
    rfl
  obtain ⟨counted, ordered, past, behind⟩ := locate_counts_line_ends "'é'\r\nb\r[\n]"
  refine ⟨⟨rfl, counted 7 rfl⟩, ⟨rfl, rfl, ordered 5 6 rfl rfl (by decide)⟩, past 20 (by decide),
    success, ?_⟩
  exact behind _ success (.place .newline "\r\n" 4 1 4) (by simp) rfl

end GroovyTidy
