import GroovyTidy.Proofs.Token.Tiling

set_option autoImplicit false

/-!
Cursors and UTF-16. A cursor keeps a byte offset and a flag, and yet it follows the sequence of
UTF-16 code units of its text: each step passes one unit, and what it sees ahead are the units that
follow. Its offset only counts characters all of whose units are passed, so it never stands inside a
character.
-/
namespace GroovyTidy.Text

/-! ## The sequence of units -/

/-- The sequence encodes the characters in UTF-16: one unit for a character of the basic plane, and
a surrogate pair for every other one. -/
inductive Utf16 : List Char → List Nat → Prop where
  | nil : Utf16 [] []
  | single {c : Char} {rest : List Char} {sequence : List Nat} (basic : c.toNat < 0x10000)
      (more : Utf16 rest sequence) : Utf16 (c :: rest) (c.toNat :: sequence)
  | pair {c : Char} {rest : List Char} {sequence : List Nat} {high low : Nat}
      (leads : 0xD800 ≤ high ∧ high < 0xDC00) (trails : 0xDC00 ≤ low ∧ low < 0xE000)
      (joined : c.toNat = 0x10000 + 0x400 * (high - 0xD800) + (low - 0xDC00))
      (more : Utf16 rest sequence) :
      Utf16 (c :: rest) (high :: low :: sequence)

theorem toNat_lt (c : Char) : c.toNat < 0x110000 := by
  rcases c.valid with low | ⟨-, high⟩
  · have small : c.toNat < 0xD800 := low
    omega
  · exact high

/-- A text has one encoding, and that is the one cursors see. -/
theorem utf16_iff (text : List Char) (sequence : List Nat) :
    Utf16 text sequence ↔ sequence = text.flatMap units := by
  constructor
  · intro encodes
    induction encodes with
    | nil => rfl
    | single basic more ih => rw [List.flatMap_cons, units, if_pos basic, ih, List.singleton_append]
    | @pair c rest sequence high low leads trails joined more ih =>
      have wide : ¬ c.toNat < 0x10000 := by omega
      have first : 0xD800 + (c.toNat - 0x10000) / 0x400 = high := by omega
      have second : 0xDC00 + (c.toNat - 0x10000) % 0x400 = low := by omega
      rw [List.flatMap_cons, units, if_neg wide, first, second, ih]
      rfl
  · rintro rfl
    induction text with
    | nil => exact .nil
    | cons c rest ih =>
      have bound := toNat_lt c
      rw [List.flatMap_cons, units]
      by_cases basic : c.toNat < 0x10000
      · rw [if_pos basic]
        exact .single basic ih
      · rw [if_neg basic]
        exact .pair (by omega) (by omega) (by omega) ih

theorem units_length (c : Char) : (units c).length = 1 ∨ (units c).length = 2 := by
  unfold units
  split
  · exact .inl rfl
  · exact .inr rfl

theorem unitAt?_eq (text : List Char) (index : Nat) :
    unitAt? text index = (text.flatMap units)[index]? := by
  induction text generalizing index with
  | nil => rfl
  | cons c rest ih =>
    rw [unitAt?, List.flatMap_cons]
    by_cases inside : index < (units c).length
    · rw [List.getElem?_append_left inside, List.getElem?_eq_getElem inside]
    · rw [List.getElem?_append_right (by omega), List.getElem?_eq_none (by omega)]
      exact ih _

/-! ## Steps of a cursor -/

namespace Cursor

/-- The cursor stands behind these characters of the text, and perhaps behind the first half of the
next one. -/
structure Behind (text consumed : List Char) (cursor : Cursor) : Prop where
  text_eq : text = consumed ++ cursor.rest
  offset_eq : cursor.offset = byteLength consumed
  half : cursor.halfway = true → ∃ c rest, cursor.rest = c :: rest ∧ (units c).length = 2

/-- How many units a cursor has passed that stands behind these characters. -/
def passed (consumed : List Char) (cursor : Cursor) : Nat :=
  (consumed.flatMap units).length + cursor.halfway.toNat

theorem behind_ofText (text : List Char) : (ofText text).Behind text [] where
  text_eq := rfl
  offset_eq := rfl
  half := by simp [ofText]

section

variable {text consumed : List Char} {cursor : Cursor}

/-- At the end of a text all units are passed. -/
theorem Behind.passed_end (behind : cursor.Behind text consumed) (ended : cursor.rest = []) :
    cursor.passed consumed = (text.flatMap units).length := by
  have whole : cursor.halfway = false := by
    apply Bool.eq_false_iff.mpr
    intro half
    obtain ⟨c, rest, shape, -⟩ := behind.half half
    rw [ended] at shape
    cases shape
  rw [passed, whole, behind.text_eq, ended, List.append_nil]
  rfl

/-- No more units are passed than there are. -/
theorem Behind.passed_le (behind : cursor.Behind text consumed) :
    cursor.passed consumed ≤ (text.flatMap units).length := by
  rw [behind.text_eq, List.flatMap_append, List.length_append, passed]
  cases half : cursor.halfway with
  | false => exact Nat.le_add_right _ _
  | true =>
    obtain ⟨c, rest, shape, two⟩ := behind.half half
    rw [shape, List.flatMap_cons, List.length_append, two, Bool.toNat_true]
    omega

/-- A step passes one unit, unless there are none left. -/
theorem Behind.advance (behind : cursor.Behind text consumed) :
    ∃ further, cursor.advance.Behind text further ∧
      cursor.advance.passed further =
        min (cursor.passed consumed + 1) (text.flatMap units).length := by
  obtain ⟨rest, offset, halfway⟩ := cursor
  cases rest with
  | nil =>
    have all := behind.passed_end rfl
    refine ⟨consumed, behind, ?_⟩
    rw [Cursor.advance, all]
    omega
  | cons c rest =>
    obtain ⟨shape, size, half⟩ := behind
    simp only [Cursor.advance]
    by_cases first : ((units c).length = 2 && !halfway) = true
    · have two : (units c).length = 2 ∧ halfway = false := by simpa using first
      have next : Behind text consumed ⟨c :: rest, offset, true⟩ :=
        ⟨shape, size, fun _ => ⟨c, rest, rfl, two.1⟩⟩
      rw [if_pos first]
      refine ⟨consumed, next, ?_⟩
      have bound := next.passed_le
      simp only [passed, two.2, Bool.toNat_true, Bool.toNat_false] at bound ⊢
      omega
    · have next : Behind text (consumed ++ [c]) ⟨rest, offset + c.utf8Size, false⟩ := by
        refine ⟨by simp [shape], ?_, by simp⟩
        have before : offset = byteLength consumed := size
        simp [before]
      rw [if_neg first]
      refine ⟨consumed ++ [c], next, ?_⟩
      have bound := next.passed_le
      -- A character of two units is left only from between its halves.
      have counted : (units c).length = halfway.toNat + 1 := by
        cases halfway with
        | false =>
          have notTwo : (units c).length ≠ 2 := by simpa using first
          exact (units_length c).resolve_right notTwo
        | true =>
          obtain ⟨d, others, same, two⟩ := half rfl
          obtain ⟨rfl, -⟩ := List.cons.inj same
          exact two
      simp only [passed, List.flatMap_append, List.flatMap_cons, List.flatMap_nil, List.append_nil,
        List.length_append, counted, Bool.toNat_false, Nat.add_zero] at bound ⊢
      omega

/-- So many steps pass so many units, as long as there are any. -/
theorem Behind.advanceBy (behind : cursor.Behind text consumed) (n : Nat) :
    ∃ further, (cursor.advanceBy n).Behind text further ∧
      (cursor.advanceBy n).passed further =
        min (cursor.passed consumed + n) (text.flatMap units).length := by
  induction n generalizing cursor consumed with
  | zero =>
    refine ⟨consumed, behind, ?_⟩
    rw [Cursor.advanceBy, Nat.add_zero, Nat.min_eq_left behind.passed_le]
  | succ n ih =>
    obtain ⟨further, next, counted⟩ := behind.advance
    obtain ⟨last, reached, total⟩ := ih next
    refine ⟨last, reached, ?_⟩
    rw [Cursor.advanceBy, total, counted]
    omega

/-- The units ahead are those that follow the ones that are passed. -/
theorem Behind.lookAhead?_eq (behind : cursor.Behind text consumed) (k : Nat) :
    cursor.lookAhead? (k + 1) = (text.flatMap units)[cursor.passed consumed + k]? := by
  have ahead : (if cursor.halfway then k + 1 else k + 1 - 1) = cursor.halfway.toNat + k := by
    cases cursor.halfway with
    | false => simp
    | true => simp [Nat.add_comm]
  rw [lookAhead?, if_neg (Nat.succ_ne_zero k), ahead, unitAt?_eq, behind.text_eq,
    List.flatMap_append, List.getElem?_append_right (by rw [passed]; omega), passed, Nat.add_assoc,
    Nat.add_sub_cancel_left]

/-- The characters before a cursor are all those whose units are passed. -/
theorem Behind.longest (behind : cursor.Behind text consumed) {front : List Char}
    (within : front <+: text) (few : (front.flatMap units).length ≤ cursor.passed consumed) :
    front <+: consumed := by
  have before : consumed <+: text := ⟨cursor.rest, behind.text_eq.symm⟩
  rcases List.prefix_or_prefix_of_prefix within before with shorter | ⟨more, rfl⟩
  · exact shorter
  cases more with
  | nil => exact ⟨[], by rw [List.append_nil, List.append_nil]⟩
  | cons c more =>
    exfalso
    obtain ⟨after, shape⟩ := within
    rw [behind.text_eq, List.append_assoc] at shape
    have rest : c :: (more ++ after) = cursor.rest := List.append_cancel_left shape
    rw [passed, List.flatMap_append, List.length_append, List.flatMap_cons, List.length_append]
      at few
    cases half : cursor.halfway with
    | false =>
      rw [half, Bool.toNat_false] at few
      rcases units_length c with one | two <;> omega
    | true =>
      obtain ⟨d, others, same, two⟩ := behind.half half
      obtain ⟨rfl, -⟩ := List.cons.inj (rest.trans same)
      rw [half, Bool.toNat_true] at few
      omega

end

theorem offset_le_advance (cursor : Cursor) : cursor.offset ≤ cursor.advance.offset := by
  unfold advance
  split
  · exact Nat.le_refl _
  · split
    · exact Nat.le_refl _
    · exact Nat.le_add_right _ _

theorem offset_le_advanceBy (cursor : Cursor) (n : Nat) :
    cursor.offset ≤ (cursor.advanceBy n).offset := by
  induction n generalizing cursor with
  | zero => exact Nat.le_refl _
  | succ n ih => exact Nat.le_trans cursor.offset_le_advance (ih cursor.advance)

end Cursor

/-- The byte length of the front of a text is the offset of a character, or that of the end. -/
theorem isValid_of_front {source : String} {front rest : List Char}
    (shape : source.toList = front ++ rest) : String.Pos.Raw.IsValid source ⟨byteLength front⟩ := by
  refine String.Pos.Raw.isValid_iff_exists_append.mpr
    ⟨String.ofList front, String.ofList rest, ?_, ?_⟩
  · rw [← String.ofList_append, ← shape, String.ofList_toList]
  · apply String.Pos.Raw.ext
    change byteLength front = (String.ofList front).utf8ByteSize
    rw [utf8ByteSize_eq, String.toList_ofList]

/-- A cursor follows the UTF-16 code units of a source, of which there is one sequence. After `n`
steps the units ahead are those from the one at index `n` on, and there are none past the last. The
offset is the size in UTF-8 of the longest front of the source whose units are among the first `n`,
so a character starts or the source ends there, and no further steps take it back or past the
end. -/
theorem cursor_follows_units (source : String) :
    (∀ sequence, Utf16 source.toList sequence ↔ sequence = source.toList.flatMap units) ∧
      ∀ n cursor, cursor = (Cursor.ofText source.toList).advanceBy n →
        (∀ k, cursor.lookAhead? (k + 1) = (source.toList.flatMap units)[n + k]?) ∧
        (∃ consumed, cursor.offset = (String.ofList consumed).utf8ByteSize ∧
          consumed <+: source.toList ∧
          ∀ front, front <+: source.toList →
            ((front.flatMap units).length ≤ n ↔ front <+: consumed)) ∧
        String.Pos.Raw.IsValid source ⟨cursor.offset⟩ ∧
        ∀ m, cursor.offset ≤ (cursor.advanceBy m).offset ∧
          (cursor.advanceBy m).offset ≤ source.utf8ByteSize := by
  refine ⟨utf16_iff source.toList, ?_⟩
  rintro n _ rfl
  obtain ⟨consumed, behind, counted⟩ := (Cursor.behind_ofText source.toList).advanceBy n
  have start : (Cursor.ofText source.toList).passed [] = 0 := rfl
  rw [start, Nat.zero_add] at counted
  refine ⟨?_, ⟨consumed, ?_, ⟨_, behind.text_eq.symm⟩, ?_⟩, ?_, ?_⟩
  · intro k
    rw [behind.lookAhead?_eq, counted]
    by_cases inside : n ≤ (source.toList.flatMap units).length
    · rw [Nat.min_eq_left inside]
    · rw [List.getElem?_eq_none (by omega), List.getElem?_eq_none (by omega)]
  · rw [behind.offset_eq, utf8ByteSize_eq, String.toList_ofList]
  · intro front within
    constructor
    · intro few
      obtain ⟨after, shape⟩ := id within
      refine behind.longest within ?_
      rw [counted, ← shape, List.flatMap_append, List.length_append]
      omega
    · rintro ⟨more, rfl⟩
      rw [Cursor.passed, List.flatMap_append, List.length_append] at counted
      omega
  · rw [behind.offset_eq]
    exact isValid_of_front behind.text_eq
  · intro m
    refine ⟨Cursor.offset_le_advanceBy _ m, ?_⟩
    obtain ⟨further, reached, -⟩ := behind.advanceBy m
    rw [reached.offset_eq, utf8ByteSize_eq, reached.text_eq, byteLength_append]
    exact Nat.le_add_right _ _

/-- Between the halves of a surrogate pair the second half is ahead, and the offset is still that of
the character. -/
theorem cursor_follows_units_of_pair :
    Utf16 "é😀".toList [0xE9, 0xD83D, 0xDE00] ∧
    ((Cursor.ofText "é😀".toList).advanceBy 2).halfway = true ∧
      ((Cursor.ofText "é😀".toList).advanceBy 2).lookAhead? 1 = some 0xDE00 ∧
      ((Cursor.ofText "é😀".toList).advanceBy 2).lookAhead? 2 = none ∧
      ((Cursor.ofText "é😀".toList).advanceBy 2).offset = 2 ∧ String.Pos.Raw.IsValid "é😀" ⟨2⟩ := by
  obtain ⟨encoded, follows⟩ := cursor_follows_units "é😀"
  obtain ⟨ahead, -, valid, -⟩ := follows 2 _ rfl
  exact ⟨(encoded _).mpr (by decide), by decide, ahead 0, ahead 1, by decide, valid⟩

end GroovyTidy.Text
