import GroovyTidy.Proofs.Text.Slices
import GroovyTidy.Token.StringLiteral

set_option autoImplicit false

/-!
String literals unit by unit. A scanner over UTF-16 units knows its place by a byte offset, can stop
between the halves of a surrogate pair after a backslash, and counts the braces of an interpolation
block down. Cutting the text, counting down and a loop that does not move on are operations that can
fail. None of them does, and the scanner finds the literal that is found character by character.
-/
namespace GroovyTidy

open Text

namespace Text.Place

/-- A bound on the units that follow a place. -/
def ahead (text : List Char) (place : Place) : Nat :=
  2 * (byteLength text - place.offset) - place.halfway.toNat

end Text.Place

namespace StringLiteral

/-- The place after so many quotes, if they are there. -/
def quotes? (text : List Char) (quote : Char) : Nat → Place → Option (Option Place)
  | 0, place => some (some place)
  | n + 1, place =>
    (place.lookAhead? text 1).bind fun unit =>
      if unit = some quote.toNat then (place.advance? text).bind (quotes? text quote n)
      else some none

/-- How many braces are open after a unit of a block. -/
def depthAfter? (depth unit : Nat) : Option Nat :=
  if unit = '\x7b'.toNat then some (depth + 1)
  else if unit = '\x7d'.toNat then depth.ppred
  else some depth

/-- The place after a block in which so many braces are open, if it is closed. -/
def skipBlock? (text : List Char) (depth : Nat) (place : Place) : Option (Option Place) :=
  match place.lookAhead? text 1, place.advance? text with
  | some none, _ => some none
  | some (some unit), some next =>
    if next.ahead text < place.ahead text then
      match depthAfter? depth unit with
      | none => none
      | some after =>
        if unit = '\x7d'.toNat ∧ after = 0 then some (some next) else skipBlock? text after next
    else none
  | _, _ => none
termination_by place.ahead text

/-- What a turn of the loop over a literal comes to. -/
inductive Turn where
  | unterminated
  | closed (after : Place)
  | next (place : Place) (interpolates : Bool)
  deriving DecidableEq, Repr

/-- The turn at a dollar sign, from the place after it on. -/
def dollar? (text : List Char) (place : Place) : Option Turn :=
  (place.cursor? text).bind fun cursor =>
    if cursor.startsInterpolation then
      if cursor.isBeforeAnyOf ['\x7b'] then
        (skipBlock? text 0 place).map fun after => after.elim .unterminated fun next =>
          .next next true
      else some (.next place true)
    else if cursor.isBeforeAnyOf ['$'] then (place.advance? text).map fun next => .next next false
    else some (.next place false)

/-- One turn of the loop over a literal. -/
def turn? (text : List Char) (quote : Char) (triple : Bool) (place : Place) : Option Turn :=
  (place.lookAhead? text 1).bind fun seen =>
    match seen with
    | none => some .unterminated
    | some unit =>
      if unit = '\\'.toNat then
        (place.advance? text).bind fun escaped => (escaped.advance? text).map fun next =>
          .next next false
      else if unit = quote.toNat then
        (quotes? text quote (if triple then 3 else 1) place).bind fun after =>
          after.elim ((place.advance? text).map fun next => .next next false) fun after =>
            some (.closed after)
      else if unit = '$'.toNat ∧ quote = '"' then (place.advance? text).bind (dollar? text)
      else if isLineEnd unit ∧ !triple then some .unterminated
      else (place.advance? text).map fun next => .next next false

/-- The byte offset after a literal and whether it interpolates, from a place in it on. -/
def scan? (text : List Char) (quote : Char) (triple interpolated : Bool) (place : Place) :
    Option (Option (Nat × Bool)) :=
  match turn? text quote triple place with
  | none => none
  | some .unterminated => some none
  | some (.closed after) => some (some (after.offset, interpolated))
  | some (.next next interpolates) =>
    if next.ahead text < place.ahead text then
      scan? text quote triple (interpolated || interpolates) next
    else none
termination_by place.ahead text

/-- The byte offset after a literal and whether it interpolates, by what follows its first quote. -/
def leadingUnits? (quote : Char) (text : List Char) : Option (Option (Nat × Bool)) :=
  (quotes? text quote 2 .start).bind fun after =>
    after.elim (scan? text quote false false .start) (scan? text quote true false)

/-! ## Units of a character -/

section

variable {text rest : List Char} {c : Char} {place : Place}

theorem cursor?_of_slice (cut : sliceFrom? text place.offset = some rest) :
    place.cursor? text = some ⟨rest, place.offset, place.halfway⟩ := by
  rw [Place.cursor?, cut, Option.map_some]

theorem ahead_lt {next : Place} (cut : sliceFrom? text place.offset = some (c :: rest))
    (later : place.offset + c.utf8Size ≤ next.offset) : next.ahead text < place.ahead text := by
  have total := byteLength_of_sliceFrom? cut
  have positive := c.utf8Size_pos
  have half := place.halfway.toNat_le
  rw [byteLength_cons] at total
  unfold Place.ahead
  omega

theorem ahead_halfway_lt {offset : Nat} (cut : sliceFrom? text offset = some (c :: rest)) :
    Place.ahead text ⟨offset, true⟩ < Place.ahead text ⟨offset, false⟩ := by
  have total := byteLength_of_sliceFrom? cut
  have positive := c.utf8Size_pos
  rw [byteLength_cons] at total
  simp only [Place.ahead, Bool.toNat_true, Bool.toNat_false]
  omega

theorem units_narrow (narrow : c.toNat < 0x10000) : units c = [c.toNat] :=
  if_pos narrow

theorem units_wide (wide : ¬ c.toNat < 0x10000) :
    ∃ high low, units c = [high, low] ∧ 0xD800 ≤ high ∧ 0xD800 ≤ low := by
  refine ⟨_, _, if_neg wide, by omega, by omega⟩

theorem lookAhead?_narrow (narrow : c.toNat < 0x10000) (rest : List Char) (offset : Nat) :
    (Cursor.mk (c :: rest) offset false).lookAhead? 1 = some c.toNat := by
  simp [Cursor.lookAhead?, unitAt?, units_narrow narrow]

theorem advance_narrow (narrow : c.toNat < 0x10000) (rest : List Char) (offset : Nat) :
    (Cursor.mk (c :: rest) offset false).advance = ⟨rest, offset + c.utf8Size, false⟩ := by
  simp [Cursor.advance, units_narrow narrow]

/-- At either half of a wide character stands a surrogate. -/
theorem lookAhead?_wide (wide : ¬ c.toNat < 0x10000) (rest : List Char) (offset : Nat)
    (halfway : Bool) :
    ∃ unit, (Cursor.mk (c :: rest) offset halfway).lookAhead? 1 = some unit ∧ 0xD800 ≤ unit := by
  obtain ⟨high, low, two, highBound, lowBound⟩ := units_wide wide
  cases halfway with
  | false => exact ⟨high, by simp [Cursor.lookAhead?, unitAt?, two], highBound⟩
  | true => exact ⟨low, by simp [Cursor.lookAhead?, unitAt?, two], lowBound⟩

theorem advance_wide (wide : ¬ c.toNat < 0x10000) (rest : List Char) (offset : Nat) :
    (Cursor.mk (c :: rest) offset false).advance = ⟨c :: rest, offset, true⟩ := by
  obtain ⟨high, low, two, -, -⟩ := units_wide wide
  simp [Cursor.advance, two]

theorem advance_halfway (c : Char) (rest : List Char) (offset : Nat) :
    (Cursor.mk (c :: rest) offset true).advance = ⟨rest, offset + c.utf8Size, false⟩ := by
  simp [Cursor.advance]

/-- The unit at the front of a character is that of a narrow character only if it is the same
character. -/
theorem lookAhead?_char (c : Char) (rest : List Char) (offset : Nat) :
    ∃ unit, (Cursor.mk (c :: rest) offset false).lookAhead? 1 = some unit ∧
      (∀ d : Char, d.toNat < 0x80 → (unit = d.toNat ↔ c = d)) ∧
      isLineEnd unit = isLineEnd c.toNat := by
  by_cases narrow : c.toNat < 0x10000
  · exact ⟨c.toNat, lookAhead?_narrow narrow rest offset, fun d _ => Char.toNat_inj, rfl⟩
  · obtain ⟨unit, seen, bound⟩ := lookAhead?_wide narrow rest offset false
    refine ⟨unit, seen, ?_, ?_⟩
    · intro d ascii
      constructor
      · omega
      · rintro rfl
        omega
    · simp only [isLineEnd]
      rw [beq_eq_false_iff_ne.mpr (by omega), beq_eq_false_iff_ne.mpr (by omega),
        beq_eq_false_iff_ne.mpr (by omega), beq_eq_false_iff_ne.mpr (by omega)]

end

/-! ## Interpolation blocks -/

section

variable {text rest : List Char} {c : Char} {offset depth : Nat}

theorem skipBlock?_unit {place : Place} {cursor : Cursor} {unit : Nat}
    (found : place.cursor? text = some cursor) (seen : cursor.lookAhead? 1 = some unit)
    (moves : (Place.ofCursor cursor.advance).ahead text < place.ahead text) :
    skipBlock? text depth place = (depthAfter? depth unit).bind fun after =>
      if unit = '\x7d'.toNat ∧ after = 0 then some (some (.ofCursor cursor.advance))
      else skipBlock? text after (.ofCursor cursor.advance) := by
  rw [skipBlock?, Place.lookAhead?_eq found, seen, Place.advance?_eq found]
  dsimp only
  rw [if_pos moves]
  cases depthAfter? depth unit <;> rfl

theorem depthAfter?_other {unit : Nat} (notOpening : unit ≠ '\x7b'.toNat)
    (notClosing : unit ≠ '\x7d'.toNat) : depthAfter? depth unit = some depth := by
  rw [depthAfter?, if_neg notOpening, if_neg notClosing]

/-- A block is scanned character by character, also where a character takes two units. -/
theorem skipBlock?_char (cut : sliceFrom? text offset = some (c :: rest)) :
    skipBlock? text depth ⟨offset, false⟩ = (depthAfter? depth c.toNat).bind fun after =>
      if c.toNat = '\x7d'.toNat ∧ after = 0 then some (some ⟨offset + c.utf8Size, false⟩)
      else skipBlock? text after ⟨offset + c.utf8Size, false⟩ := by
  have found : Place.cursor? text ⟨offset, false⟩ = some ⟨c :: rest, offset, false⟩ :=
    cursor?_of_slice cut
  by_cases narrow : c.toNat < 0x10000
  · rw [skipBlock?_unit found (lookAhead?_narrow narrow rest offset), advance_narrow narrow]
    · rfl
    · rw [advance_narrow narrow]
      exact ahead_lt cut (Nat.le_refl _)
  · have halfway : Place.cursor? text ⟨offset, true⟩ = some ⟨c :: rest, offset, true⟩ :=
      cursor?_of_slice cut
    obtain ⟨high, seen, highBound⟩ := lookAhead?_wide narrow rest offset false
    obtain ⟨low, seenThen, lowBound⟩ := lookAhead?_wide narrow rest offset true
    have plain : ∀ {unit : Nat}, 0xD800 ≤ unit → unit ≠ '\x7b'.toNat ∧ unit ≠ '\x7d'.toNat := by
      intro unit bound
      simp only [Char.reduceToNat]
      omega
    have first : skipBlock? text depth ⟨offset, false⟩ = skipBlock? text depth ⟨offset, true⟩ := by
      rw [skipBlock?_unit found seen, advance_wide narrow,
        depthAfter?_other (plain highBound).1 (plain highBound).2, Option.bind_some,
        if_neg fun both => (plain highBound).2 both.1]
      · rfl
      · rw [advance_wide narrow]
        exact ahead_halfway_lt cut
    have second : skipBlock? text depth ⟨offset, true⟩ =
        skipBlock? text depth ⟨offset + c.utf8Size, false⟩ := by
      rw [skipBlock?_unit halfway seenThen, advance_halfway,
        depthAfter?_other (plain lowBound).1 (plain lowBound).2, Option.bind_some,
        if_neg fun both => (plain lowBound).2 both.1]
      · rfl
      · rw [advance_halfway]
        exact ahead_lt cut (Nat.le_refl _)
    have bound : 0xD800 ≤ c.toNat := by omega
    rw [first, second, depthAfter?_other (plain bound).1 (plain bound).2, Option.bind_some,
      if_neg fun both => (plain bound).2 both.1]

/-- From an offset on a scan passes over the rest of a block, after which the literal goes on, or
there is no literal. -/
def Skips (quote : Char) (triple : Bool) (mode : Mode) (rest : List Char) (offset : Nat)
    (scanned : Option (Option Place)) : Prop :=
  scanned = some none ∧ body quote triple mode rest = none ∨
    ∃ inner after, rest = inner ++ after ∧
      scanned = some (some ⟨offset + byteLength inner, false⟩) ∧
      body quote triple mode rest = (body quote triple .plain after).map fun extent =>
        ⟨inner.length + extent.length, extent.interpolated⟩

variable {quote : Char} {triple : Bool}

theorem Skips.done (rest : List Char) (offset : Nat) :
    Skips quote triple .plain rest offset (some (some ⟨offset, false⟩)) := by
  refine .inr ⟨[], rest, rfl, rfl, ?_⟩
  simp

theorem Skips.char {scanned : Option (Option Place)}
    (skips : Skips quote triple (blockMode depth c) rest (offset + c.utf8Size) scanned) :
    Skips quote triple (.block depth) (c :: rest) offset scanned := by
  have stepped : body quote triple (.block depth) (c :: rest) =
      (body quote triple (blockMode depth c) rest).map (.after false) := rfl
  rcases skips with ⟨ended, none⟩ | ⟨inner, after, rfl, passed, goes⟩
  · exact .inl ⟨ended, by rw [stepped, none, Option.map_none]⟩
  · refine .inr ⟨c :: inner, after, rfl, ?_, ?_⟩
    · rw [passed, byteLength_cons, Nat.add_assoc]
    · rw [stepped, goes, Option.map_map]
      congr 1
      funext extent
      simp only [Function.comp, Extent.after, Bool.false_or, List.length_cons,
        Extent.mk.injEq, and_true]
      omega

/-- A block in which braces are open is skipped up to the brace that closes the outermost one. The
count is never taken down from zero, because the scan ends where it gets there. -/
theorem skipBlock?_skips (opened : 0 < depth) (cut : sliceFrom? text offset = some rest) :
    Skips quote triple (.block depth) rest offset (skipBlock? text depth ⟨offset, false⟩) := by
  induction rest generalizing depth offset with
  | nil =>
    have found : Place.cursor? text ⟨offset, false⟩ = some ⟨[], offset, false⟩ :=
      cursor?_of_slice cut
    refine .inl ⟨?_, rfl⟩
    rw [skipBlock?, Place.lookAhead?_eq found]
    rfl
  | cons c rest ih =>
    have further := sliceFrom?_next cut
    apply Skips.char
    rw [skipBlock?_char cut]
    by_cases opening : c = '\x7b'
    · subst opening
      exact ih (Nat.succ_pos depth) further
    by_cases closing : c = '\x7d'
    · subst closing
      match depth, opened with
      | 1, _ => exact .done rest _
      | depth + 2, _ => exact ih (Nat.succ_pos depth) further
    · have notOpening : c.toNat ≠ '\x7b'.toNat := fun same => opening (Char.toNat_inj.mp same)
      have notClosing : c.toNat ≠ '\x7d'.toNat := fun same => closing (Char.toNat_inj.mp same)
      rw [depthAfter?_other notOpening notClosing, Option.bind_some,
        if_neg fun both => notClosing both.1, blockMode, if_neg opening, if_neg closing]
      exact ih opened further

end

/-! ## The loop over a literal -/

section

variable {text rest : List Char} {c quote : Char} {triple interpolated : Bool} {mode : Mode}
  {offset : Nat}

theorem quotes?_eq (ascii : quote.toNat < 0x80) (n : Nat)
    (cut : sliceFrom? text offset = some rest) :
    quotes? text quote n ⟨offset, false⟩ =
      some (if rest.take n = List.replicate n quote then
        some ⟨offset + byteLength (rest.take n), false⟩ else none) := by
  induction n generalizing offset rest with
  | zero => simp [quotes?]
  | succ n ih =>
    have found : Place.cursor? text ⟨offset, false⟩ = some ⟨rest, offset, false⟩ :=
      cursor?_of_slice cut
    rw [quotes?, Place.lookAhead?_eq found, Option.bind_some, Place.advance?_eq found,
      Option.bind_some]
    cases rest with
    | nil => simp [Cursor.lookAhead?, unitAt?, List.replicate_succ]
    | cons c rest =>
      obtain ⟨unit, seen, same, -⟩ := lookAhead?_char c rest offset
      rw [seen, List.take_succ_cons, List.replicate_succ]
      by_cases matched : c = quote
      · subst matched
        have narrow : c.toNat < 0x10000 := by omega
        rw [if_pos (congrArg some ((same c ascii).mpr rfl)), advance_narrow narrow]
        refine (ih (sliceFrom?_next cut)).trans ?_
        simp [Nat.add_assoc]
      · rw [if_neg fun equal => matched ((same quote ascii).mp (Option.some.inj equal)),
          if_neg fun equal => matched (List.cons.inj equal).1]

/-- Where a literal ends, and whether it interpolates, if a part of it from an offset on has an
extent. -/
def endOf (offset : Nat) (rest : List Char) (interpolated : Bool) (extent : Extent) : Nat × Bool :=
  (offset + byteLength (rest.take extent.length), interpolated || extent.interpolated)

/-- A scan finds from an offset on what is found character by character. -/
def Scans (quote : Char) (triple : Bool) (mode : Mode) (rest : List Char) (offset : Nat)
    (interpolated : Bool) (scanned : Option (Option (Nat × Bool))) : Prop :=
  scanned = some ((body quote triple mode rest).map (endOf offset rest interpolated))

theorem Scans.char {scanned : Option (Option (Nat × Bool))} {next : Mode} {interpolates : Bool}
    (stepped : step quote triple mode c rest = .next next interpolates)
    (scans : Scans quote triple next rest (offset + c.utf8Size)
      (interpolated || interpolates) scanned) :
    Scans quote triple mode (c :: rest) offset interpolated scanned := by
  rw [Scans] at scans ⊢
  rw [scans, body, stepped]
  simp only [Option.map_map]
  congr 2
  funext extent
  simp [endOf, Extent.after, Nat.add_assoc, Bool.or_assoc]

theorem Scans.ended (quote : Char) (triple : Bool) (mode : Mode) (offset : Nat)
    (interpolated : Bool) : Scans quote triple mode [] offset interpolated (some none) :=
  rfl

theorem Scans.block {skipped : Option (Option Place)}
    (skips : Skips quote triple mode rest offset skipped) :
    skipped = some none ∧ Scans quote triple mode rest offset interpolated (some none) ∨
      ∃ inner after, rest = inner ++ after ∧
        skipped = some (some ⟨offset + byteLength inner, false⟩) ∧
        ∀ scanned, Scans quote triple .plain after (offset + byteLength inner)
          interpolated scanned →
          Scans quote triple mode rest offset interpolated scanned := by
  rcases skips with ⟨ended, none⟩ | ⟨inner, after, rfl, passed, goes⟩
  · refine .inl ⟨ended, ?_⟩
    rw [Scans, none, Option.map_none]
  · refine .inr ⟨inner, after, rfl, passed, ?_⟩
    intro scanned scans
    rw [Scans] at scans ⊢
    rw [scans, goes]
    simp only [Option.map_map]
    congr 2
    funext extent
    simp [endOf, List.take_length_add_append, Nat.add_assoc]

theorem scan?_next {place next : Place} {interpolates : Bool}
    (turned : turn? text quote triple place = some (.next next interpolates))
    (moves : next.ahead text < place.ahead text) :
    scan? text quote triple interpolated place =
      scan? text quote triple (interpolated || interpolates) next := by
  rw [scan?, turned]
  exact if_pos moves

theorem turn?_other {place : Place} {cursor : Cursor} {unit : Nat}
    (found : place.cursor? text = some cursor) (seen : cursor.lookAhead? 1 = some unit)
    (notEscape : unit ≠ '\\'.toNat) (notQuote : unit ≠ quote.toNat)
    (notDollar : ¬ (unit = '$'.toNat ∧ quote = '"'))
    (goesOn : ¬ (isLineEnd unit = true ∧ (!triple) = true)) :
    turn? text quote triple place = some (.next (.ofCursor cursor.advance) false) := by
  rw [turn?, Place.lookAhead?_eq found, seen, Option.bind_some, Place.advance?_eq found]
  dsimp only
  rw [if_neg notEscape, if_neg notQuote, if_neg notDollar, if_neg goesOn]
  rfl

/-- At a surrogate a turn passes over one unit. -/
theorem turn?_surrogate (ascii : quote.toNat < 0x80) {place : Place} {cursor : Cursor} {unit : Nat}
    (found : place.cursor? text = some cursor) (seen : cursor.lookAhead? 1 = some unit)
    (bound : 0xD800 ≤ unit) :
    turn? text quote triple place = some (.next (.ofCursor cursor.advance) false) := by
  apply turn?_other found seen
  · simp only [Char.reduceToNat]
    omega
  · omega
  · simp only [Char.reduceToNat]
    omega
  · simp only [isLineEnd, Bool.or_eq_true, beq_iff_eq]
    omega

theorem scan?_halfway (ascii : quote.toNat < 0x80) (wide : ¬ c.toNat < 0x10000)
    (cut : sliceFrom? text offset = some (c :: rest)) :
    scan? text quote triple interpolated ⟨offset, true⟩ =
      scan? text quote triple interpolated ⟨offset + c.utf8Size, false⟩ := by
  have halfway : Place.cursor? text ⟨offset, true⟩ = some ⟨c :: rest, offset, true⟩ :=
    cursor?_of_slice cut
  obtain ⟨low, seen, bound⟩ := lookAhead?_wide wide rest offset true
  have turned : turn? text quote triple ⟨offset, true⟩ =
      some (.next ⟨offset + c.utf8Size, false⟩ false) := by
    rw [turn?_surrogate ascii halfway seen bound, advance_halfway]
    rfl
  rw [scan?_next turned (ahead_lt cut (Nat.le_refl _)), Bool.or_false]

/-- Wherever a rest of a text stands, the scan from there on finds what is found character by
character. -/
def Scanned (text : List Char) (quote : Char) (triple : Bool) (rest : List Char) : Prop :=
  ∀ offset interpolated, sliceFrom? text offset = some rest →
    Scans quote triple .plain rest offset interpolated
      (scan? text quote triple interpolated ⟨offset, false⟩)

theorem scanned_nil : Scanned text quote triple [] := by
  intro offset interpolated cut
  have found : Place.cursor? text ⟨offset, false⟩ = some ⟨[], offset, false⟩ := cursor?_of_slice cut
  rw [scan?, turn?, Place.lookAhead?_eq found]
  exact .ended quote triple .plain offset interpolated

/-- After a backslash two units are passed over, so the scan may stop inside the character after
it. -/
theorem scanned_escape (ascii : quote.toNat < 0x80)
    (later : ∀ after, after <:+ rest → Scanned text quote triple after) :
    Scanned text quote triple ('\\' :: rest) := by
  intro offset interpolated cut
  have further : sliceFrom? text (offset + '\\'.utf8Size) = some rest := sliceFrom?_next cut
  have found : Place.cursor? text ⟨offset, false⟩ = some ⟨'\\' :: rest, offset, false⟩ :=
    cursor?_of_slice cut
  have foundThen : Place.cursor? text ⟨offset + '\\'.utf8Size, false⟩ =
      some ⟨rest, offset + '\\'.utf8Size, false⟩ :=
    cursor?_of_slice further
  have turned : turn? text quote triple ⟨offset, false⟩ =
      some (.next (.ofCursor (Cursor.mk rest (offset + '\\'.utf8Size) false).advance) false) := by
    rw [turn?, Place.lookAhead?_eq found, lookAhead?_narrow (by decide), Option.bind_some,
      Place.advance?_eq found, advance_narrow (by decide)]
    dsimp only
    rw [if_pos rfl, Option.bind_some]
    exact congrArg (Option.map _) (Place.advance?_eq foundThen)
  apply Scans.char (show step quote triple .plain '\\' rest = .next .taken false from rfl)
  rw [Bool.or_false]
  cases rest with
  | nil =>
    rw [scan?_next turned (ahead_lt cut (Nat.le_refl _)), Bool.or_false]
    exact later [] List.suffix_rfl _ _ further
  | cons d rest =>
    apply Scans.char (show step quote triple .taken d rest = .next .plain false from rfl)
    rw [Bool.or_false]
    have scans := later rest (List.suffix_cons d rest) _ interpolated (sliceFrom?_next further)
    by_cases narrow : d.toNat < 0x10000
    · rw [advance_narrow narrow] at turned
      rw [scan?_next turned (ahead_lt cut (by simp [Place.ofCursor])), Bool.or_false]
      exact scans
    · rw [advance_wide narrow] at turned
      rw [scan?_next turned (ahead_lt cut (Nat.le_refl _)), Bool.or_false]
      exact (scan?_halfway ascii narrow further).symm ▸ scans

theorem scanned_quote (ascii : quote.toNat < 0x80) (notEscape : quote ≠ '\\')
    (later : Scanned text quote triple rest) : Scanned text quote triple (quote :: rest) := by
  intro offset interpolated cut
  have narrow : quote.toNat < 0x10000 := by omega
  have found : Place.cursor? text ⟨offset, false⟩ = some ⟨quote :: rest, offset, false⟩ :=
    cursor?_of_slice cut
  have turned : turn? text quote triple ⟨offset, false⟩ =
      (quotes? text quote (if triple then 3 else 1) ⟨offset, false⟩).bind fun after =>
        after.elim (some (.next ⟨offset + quote.utf8Size, false⟩ false)) fun after =>
          some (.closed after) := by
    rw [turn?, Place.lookAhead?_eq found, lookAhead?_narrow narrow, Option.bind_some,
      Place.advance?_eq found, advance_narrow narrow]
    dsimp only
    rw [if_neg fun same => notEscape (Char.toNat_inj.mp same), if_pos rfl]
    rfl
  rw [quotes?_eq ascii _ cut, Option.bind_some] at turned
  have closes : ∀ {length : Nat}, turn? text quote triple ⟨offset, false⟩ =
        some (.closed ⟨offset + byteLength ((quote :: rest).take length), false⟩) →
      step quote triple .plain quote rest = .close length →
      Scans quote triple .plain (quote :: rest) offset interpolated
        (scan? text quote triple interpolated ⟨offset, false⟩) := by
    intro length closed stepped
    rw [scan?, closed, Scans, body, stepped]
    simp [endOf]
  have stepped : step quote triple .plain quote rest =
      if !triple then .close 1 else if rest.take 2 = [quote, quote] then .close 3
      else .next .plain false := by
    simp [step, notEscape]
  cases triple with
  | false =>
    have closed : turn? text quote false ⟨offset, false⟩ =
        some (.closed ⟨offset + byteLength ((quote :: rest).take 1), false⟩) := by
      simpa using turned
    exact closes closed stepped
  | true =>
    by_cases closing : rest.take 2 = [quote, quote]
    · rw [if_neg (by simp), if_pos closing] at stepped
      exact closes (by simpa [closing, List.replicate_succ] using turned) stepped
    · rw [if_neg (by simp), if_neg closing] at stepped
      have passed : turn? text quote true ⟨offset, false⟩ =
          some (.next ⟨offset + quote.utf8Size, false⟩ false) := by
        simpa [closing, List.replicate_succ] using turned
      apply Scans.char stepped
      rw [scan?_next passed (ahead_lt cut (Nat.le_refl _))]
      exact later _ _ (sliceFrom?_next cut)

theorem isBeforeAnyOf_iff {d : Char} (ascii : d.toNat < 0x80) (rest : List Char) :
    (Cursor.ofText rest).isBeforeAnyOf [d] = true ↔ ∃ more, rest = d :: more := by
  cases rest with
  | nil => simp [Cursor.ofText, Cursor.isBeforeAnyOf, Cursor.lookAhead?, unitAt?]
  | cons c rest =>
    obtain ⟨unit, seen, same, -⟩ := lookAhead?_char c rest 0
    rw [Cursor.isBeforeAnyOf, Cursor.ofText, seen]
    simp only [Option.any_some, List.any_cons, List.any_nil, Bool.or_false, beq_iff_eq,
      List.cons.injEq]
    constructor
    · intro equal
      exact ⟨rest, (same d ascii).mp equal.symm, rfl⟩
    · rintro ⟨_, equal, -⟩
      exact ((same d ascii).mpr equal).symm

/-- A dollar sign before a brace takes the block along, which the scan enters with no brace open and
at its first one. -/
theorem scanned_dollar (later : ∀ after, after <:+ rest → Scanned text '"' triple after) :
    Scanned text '"' triple ('$' :: rest) := by
  intro offset interpolated cut
  have further : sliceFrom? text (offset + '$'.utf8Size) = some rest := sliceFrom?_next cut
  have found : Place.cursor? text ⟨offset, false⟩ = some ⟨'$' :: rest, offset, false⟩ :=
    cursor?_of_slice cut
  have foundThen : Place.cursor? text ⟨offset + '$'.utf8Size, false⟩ =
      some ⟨rest, offset + '$'.utf8Size, false⟩ :=
    cursor?_of_slice further
  have stepped : step '"' triple .plain '$' rest = dollar rest := rfl
  have turned : turn? text '"' triple ⟨offset, false⟩ =
      dollar? text ⟨offset + '$'.utf8Size, false⟩ := by
    rw [turn?, Place.lookAhead?_eq found, lookAhead?_narrow (by decide), Option.bind_some,
      Place.advance?_eq found, advance_narrow (by decide)]
    rfl
  have starts : (Cursor.mk rest (offset + '$'.utf8Size) false).startsInterpolation =
      (Cursor.ofText rest).startsInterpolation := rfl
  have before : ∀ candidates,
      (Cursor.mk rest (offset + '$'.utf8Size) false).isBeforeAnyOf candidates =
      (Cursor.ofText rest).isBeforeAnyOf candidates := fun _ => rfl
  rw [dollar?, foundThen, Option.bind_some, starts, before, before, Place.advance?_eq foundThen]
    at turned
  rw [dollar] at stepped
  by_cases brace : (Cursor.ofText rest).isBeforeAnyOf ['\x7b'] = true
  · obtain ⟨more, rfl⟩ := (isBeforeAnyOf_iff (by decide) rest).mp brace
    rw [if_pos brace] at stepped
    have entered : skipBlock? text 0 ⟨offset + '$'.utf8Size, false⟩ =
        skipBlock? text 1 ⟨offset + '$'.utf8Size + '\x7b'.utf8Size, false⟩ :=
          skipBlock?_char further
    have opened : (Cursor.ofText ('\x7b' :: more)).startsInterpolation = true := rfl
    rw [if_pos opened, if_pos brace, entered] at turned
    have skips : Skips '"' triple (.block 0) ('\x7b' :: more) (offset + '$'.utf8Size)
        (skipBlock? text 1 ⟨offset + '$'.utf8Size + '\x7b'.utf8Size, false⟩) :=
      .char (skipBlock?_skips Nat.one_pos (sliceFrom?_next further))
    apply Scans.char stepped
    rcases Scans.block skips with ⟨ended, scans⟩ | ⟨inner, after, shape, passed, scans⟩
    · rw [ended] at turned
      rw [scan?, turned]
      exact scans
    · rw [passed] at turned
      rw [shape] at further later
      apply scans
      rw [scan?_next turned (ahead_lt cut (Nat.le_add_right _ _))]
      exact later after (List.suffix_append inner after) _ _ (sliceFrom?_add further)
  rw [if_neg brace] at stepped
  rw [if_neg brace] at turned
  by_cases name : (Cursor.ofText rest).startsInterpolation = true
  · rw [if_pos name] at stepped turned
    apply Scans.char stepped
    rw [scan?_next turned (ahead_lt cut (Nat.le_refl _))]
    exact later rest List.suffix_rfl _ _ further
  rw [if_neg name] at stepped turned
  by_cases sign : (Cursor.ofText rest).isBeforeAnyOf ['$'] = true
  · obtain ⟨more, rfl⟩ := (isBeforeAnyOf_iff (by decide) rest).mp sign
    rw [if_pos sign] at stepped turned
    rw [advance_narrow (by decide)] at turned
    apply Scans.char stepped
    apply Scans.char (show step '"' triple .taken '$' more = .next .plain false from rfl)
    rw [scan?_next turned (ahead_lt cut (Nat.le_add_right _ _)), Bool.or_false, Bool.or_false]
    exact later more (List.suffix_cons '$' more) _ _ (sliceFrom?_next further)
  · rw [if_neg sign] at stepped turned
    apply Scans.char stepped
    rw [scan?_next turned (ahead_lt cut (Nat.le_refl _))]
    exact later rest List.suffix_rfl _ _ further

/-- Any other character ends the literal, if it is the end of a line, or is passed over. -/
theorem scanned_other (ascii : quote.toNat < 0x80) (notEscape : c ≠ '\\') (notQuote : c ≠ quote)
    (notDollar : ¬ (c = '$' ∧ quote = '"')) (later : Scanned text quote triple rest) :
    Scanned text quote triple (c :: rest) := by
  intro offset interpolated cut
  have found : Place.cursor? text ⟨offset, false⟩ = some ⟨c :: rest, offset, false⟩ :=
    cursor?_of_slice cut
  obtain ⟨unit, seen, same, ends⟩ := lookAhead?_char c rest offset
  have escape : unit ≠ '\\'.toNat := fun equal => notEscape ((same '\\' (by decide)).mp equal)
  have close : unit ≠ quote.toNat := fun equal => notQuote ((same quote ascii).mp equal)
  have dollar : ¬ (unit = '$'.toNat ∧ quote = '"') := fun both =>
    notDollar ⟨(same '$' (by decide)).mp both.1, both.2⟩
  by_cases refused : isLineEnd c.toNat = true ∧ (!triple) = true
  · have turned : turn? text quote triple ⟨offset, false⟩ = some .unterminated := by
      rw [turn?, Place.lookAhead?_eq found, seen, Option.bind_some]
      dsimp only
      rw [if_neg escape, if_neg close, if_neg dollar, if_pos (ends ▸ refused)]
    have stepped : step quote triple .plain c rest = .refuse := by
      simp [step, notEscape, notQuote, notDollar, refused]
    rw [scan?, turned, Scans, body, stepped]
    rfl
  · have stepped : step quote triple .plain c rest = .next .plain false := by
      simp only [step, notEscape, notQuote, notDollar, refused, if_false]
    have turned := turn?_other found seen escape close dollar (ends ▸ refused)
    apply Scans.char stepped
    rw [Bool.or_false]
    have scans := later _ interpolated (sliceFrom?_next cut)
    by_cases narrow : c.toNat < 0x10000
    · rw [advance_narrow narrow] at turned
      rw [scan?_next turned (ahead_lt cut (Nat.le_refl _)), Bool.or_false]
      exact scans
    · rw [advance_wide narrow] at turned
      rw [scan?_next turned (ahead_halfway_lt cut), Bool.or_false]
      exact (scan?_halfway ascii narrow cut).symm ▸ scans

/-- The scan finds the literal from every place between characters. -/
theorem scanned (ascii : quote.toNat < 0x80) (notEscape : quote ≠ '\\') (rest : List Char) :
    Scanned text quote triple rest := by
  induction lengthDef : rest.length using Nat.strongRecOn generalizing rest with
  | ind length ih =>
    cases rest with
    | nil => exact scanned_nil
    | cons c rest =>
      have later : ∀ after, after <:+ rest → Scanned text quote triple after := by
        intro after suffix
        have shorter := suffix.length_le
        rw [List.length_cons] at lengthDef
        exact ih after.length (by omega) after rfl
      by_cases escape : c = '\\'
      · subst escape
        exact scanned_escape ascii later
      by_cases closing : c = quote
      · subst closing
        exact scanned_quote ascii notEscape (later rest List.suffix_rfl)
      by_cases sign : c = '$' ∧ quote = '"'
      · obtain ⟨rfl, rfl⟩ := sign
        exact scanned_dollar later
      · exact scanned_other ascii escape closing sign (later rest List.suffix_rfl)

end

/-- Unit by unit the literal is found that is found character by character, at a byte offset between
characters. -/
theorem leadingUnits?_eq {quote : Char} (ascii : quote.toNat < 0x80) (notEscape : quote ≠ '\\')
    (text : List Char) :
    leadingUnits? quote text = some ((leading quote (quote :: text)).map fun extent =>
      (byteLength (text.take (extent.length - 1)), extent.interpolated)) := by
  have cut : sliceFrom? text 0 = some text := sliceFrom?_zero text
  rw [leadingUnits?, Place.start, quotes?_eq ascii 2 cut, Option.bind_some, Nat.zero_add]
  by_cases tripled : text.take 2 = List.replicate 2 quote
  · have further : sliceFrom? text (byteLength (text.take 2)) = some (text.drop 2) :=
      sliceFrom?_eq_some_iff.mpr ⟨_, (List.take_append_drop 2 text).symm, rfl⟩
    have scans : Scans quote true .plain (text.drop 2) (byteLength (text.take 2)) false
        (scan? text quote true false ⟨byteLength (text.take 2), false⟩) :=
      scanned ascii notEscape (text.drop 2) _ _ further
    have found : leading quote (quote :: text) =
        (body quote true .plain (text.drop 2)).map fun extent =>
        { extent with length := 3 + extent.length } := by
      simp [leading, tripled]
    rw [if_pos tripled, Option.elim_some, scans, found, Option.map_map]
    congr 2
    funext extent
    have ends : text.take (3 + extent.length - 1) =
        text.take 2 ++ (text.drop 2).take extent.length := by
      rw [show 3 + extent.length - 1 = 2 + extent.length by omega, List.take_add]
    simp only [Function.comp, endOf, ends, byteLength_append, Bool.false_or]
  · have scans : Scans quote false .plain text 0 false (scan? text quote false false ⟨0, false⟩) :=
      scanned ascii notEscape text _ _ cut
    have found : leading quote (quote :: text) = (body quote false .plain text).map fun extent =>
        { extent with length := 1 + extent.length } := by
      simp [leading, show ¬ text.take 2 = [quote, quote] from tripled]
    rw [if_neg tripled, Option.elim_none, scans, found, Option.map_map]
    congr 2
    funext extent
    simp [endOf]

end StringLiteral

end GroovyTidy
