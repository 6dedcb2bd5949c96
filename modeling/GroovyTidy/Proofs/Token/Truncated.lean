import GroovyTidy.Proofs.Token.Joined

set_option autoImplicit false

/-!
A text that ends early. A lexeme that lies before the end is found there as well, since no length
that the scanner computes gets longer when characters behind it are missing. So where the scanner
stops, all that stands before this place is read.
-/
namespace GroovyTidy

open Text

namespace Number

theorem runLength_take (member : Char → Bool) (text : List Char) (n : Nat) :
    runLength member (text.take n) = min (runLength member text) n := by
  induction text generalizing n with
  | nil => simp [runLength]
  | cons c text ih =>
    cases n with
    | zero => simp [runLength]
    | succ n =>
      rw [List.take_succ_cons, runLength_cons, runLength_cons, ih]
      split <;> omega

theorem letterLength_take (letters text : List Char) (n : Nat) :
    letterLength letters (text.take n) = min (letterLength letters text) n := by
  cases text with
  | nil => simp [letterLength]
  | cons c text =>
    cases n with
    | zero => simp [letterLength]
    | succ n =>
      rw [List.take_succ_cons, letterLength_cons, letterLength_cons]
      split <;> omega

theorem letterLength_le_one (letters text : List Char) : letterLength letters text ≤ 1 := by
  unfold letterLength
  split <;> omega

variable {text : List Char} {n : Nat}

/-- What is an exponent in a part of a text is one in the whole text. -/
theorem exponentLength_of_take (present : exponentLength (text.take n) ≠ 0) :
    exponentLength text ≠ 0 := by
  obtain ⟨letter, sign, digits, letterDef, signDef, digitsDef, someLetter, someDigits, -, inside⟩ :=
    exponentLength_parts present
  rw [List.length_take] at inside
  have letterLe := letterLength_le_one ['e', 'E'] text
  rw [letterLength_take] at letterDef
  have letterWhole : letterLength ['e', 'E'] text = letter := by omega
  have signLe := letterLength_le_one ['+', '-'] (text.drop letter)
  rw [List.drop_take, letterLength_take] at signDef
  have signWhole : letterLength ['+', '-'] (text.drop letter) = sign := by omega
  rw [List.drop_take, runLength_take] at digitsDef
  simp only [exponentLength, letterWhole, signWhole]
  rw [if_neg (by omega)]
  omega

theorem exponentLength_take (short : exponentLength text ≤ n) :
    exponentLength (text.take n) = exponentLength text := by
  by_cases zero : exponentLength text = 0
  · rw [zero]
    exact Classical.byContradiction fun present => exponentLength_of_take present zero
  · obtain ⟨letter, sign, digits, letterDef, signDef, digitsDef, someLetter, someDigits,
      total, -⟩ :=
      exponentLength_parts zero
    have letterTake : letterLength ['e', 'E'] (text.take n) = letter := by
      rw [letterLength_take]
      omega
    have signTake : letterLength ['+', '-'] ((text.take n).drop letter) = sign := by
      rw [List.drop_take, letterLength_take]
      omega
    have digitsTake : runLength (fun c => isDigit c.toNat) ((text.take n).drop (letter + sign)) =
        digits := by
      rw [List.drop_take, runLength_take]
      omega
    rw [total]
    simp only [exponentLength, letterTake, signTake, digitsTake]
    rw [if_neg (by omega)]

theorem fractionLength_take (short : fractionLength text ≤ n) :
    fractionLength (text.take n) = fractionLength text := by
  by_cases zero : fractionLength text = 0
  · rw [zero]
    refine Classical.byContradiction fun present => ?_
    -- The point and the digit of a fraction are there in the whole text as well.
    obtain ⟨first, more, shape, digit, -⟩ := fractionLength_parts present
    rw [← List.take_append_drop n text, shape] at zero
    simp [fractionLength, digit] at zero
  · obtain ⟨first, more, rfl, digit, total⟩ := fractionLength_parts zero
    have numeral : isNumeral first = true := by simp [isNumeral, digit]
    have run := runLength_take isNumeral (first :: more) (n - 1)
    rw [total] at short ⊢
    rw [runLength_cons, if_pos numeral] at short
    obtain ⟨k, rfl⟩ : ∃ k, n = k + 2 := ⟨n - 2, by omega⟩
    rw [Nat.min_eq_left (by rw [runLength_cons, if_pos numeral]; omega)] at run
    rw [← run]
    simp [fractionLength, digit]

theorem hexLength_take (short : hexLength text ≤ n) : hexLength (text.take n) = hexLength text := by
  by_cases zero : hexLength text = 0
  · rw [zero]
    refine Classical.byContradiction fun present => ?_
    obtain ⟨x, first, more, shape, letter, digit, -⟩ := hexLength_parts present
    rw [← List.take_append_drop n text, shape] at zero
    simp [hexLength, letter, digit] at zero
  · obtain ⟨x, first, more, rfl, letter, digit, total⟩ := hexLength_parts zero
    have numeral : isHexNumeral first = true := by simp [isHexNumeral, digit]
    have run := runLength_take isHexNumeral (first :: more) (n - 2)
    rw [total] at short ⊢
    rw [runLength_cons, if_pos numeral] at short
    obtain ⟨k, rfl⟩ : ∃ k, n = k + 3 := ⟨n - 3, by omega⟩
    rw [Nat.min_eq_left (by rw [runLength_cons, if_pos numeral]; omega)] at run
    rw [← run]
    simp [hexLength, letter, digit]

theorem decimalSuffix_take {floating : Prop} [Decidable floating]
    (short : (decimalSuffix floating text).2 ≤ n) :
    decimalSuffix floating (text.take n) = decimalSuffix floating text := by
  unfold decimalSuffix at short ⊢
  simp only [letterLength_take]
  by_cases present : floating
  · simp only [present, ↓reduceIte] at short ⊢
    rw [Nat.min_eq_left short]
  · simp only [present, ↓reduceIte] at short ⊢
    by_cases letter : letterLength floatingLetter text = 0
    · simp only [letter, ne_eq, not_true_eq_false, ↓reduceIte, Nat.zero_min] at short ⊢
      rw [Nat.min_eq_left short]
    · simp only [letter, ne_eq, not_false_eq_true, ↓reduceIte] at short ⊢
      rw [Nat.min_eq_left short, if_pos letter]

/-- A number that lies before the end of a text is found there. -/
theorem leading_take (short : (leading text).2 ≤ n) : leading (text.take n) = leading text := by
  by_cases hex : hexLength text = 0
  · obtain ⟨digits, digitsDef⟩ : ∃ digits, runLength isNumeral text = digits := ⟨_, rfl⟩
    obtain ⟨fraction, fractionDef⟩ : ∃ fraction, fractionLength (text.drop digits) = fraction :=
      ⟨_, rfl⟩
    obtain ⟨exponent, exponentDef⟩ : ∃ exponent,
      exponentLength (text.drop (digits + fraction)) = exponent :=
      ⟨_, rfl⟩
    have shape := leading_decimal hex digitsDef fractionDef exponentDef
    rw [shape] at short
    dsimp only at short
    have hexTake : hexLength (text.take n) = 0 := by
      rw [hexLength_take (by omega), hex]
    have digitsTake : runLength isNumeral (text.take n) = digits := by
      rw [runLength_take]
      omega
    have fractionTake : fractionLength ((text.take n).drop digits) = fraction := by
      rw [List.drop_take, fractionLength_take (by omega), fractionDef]
    have exponentTake : exponentLength ((text.take n).drop (digits + fraction)) = exponent := by
      rw [List.drop_take, exponentLength_take (by omega), exponentDef]
    rw [leading_decimal hexTake digitsTake fractionTake exponentTake, shape, List.drop_take,
      decimalSuffix_take (by omega)]
  · have shape : leading text =
        (.integer, hexLength text + letterLength integerSuffix (text.drop (hexLength text))) := by
      simp only [leading, ne_eq, hex, not_false_eq_true, ↓reduceIte]
    rw [shape] at short
    dsimp only at short
    have hexTake : hexLength (text.take n) = hexLength text := hexLength_take (by omega)
    have suffixTake : letterLength integerSuffix ((text.take n).drop (hexLength text)) =
        letterLength integerSuffix (text.drop (hexLength text)) := by
      rw [List.drop_take, letterLength_take]
      omega
    rw [shape, leading, hexTake, if_pos hex, suffixTake]

end Number

namespace StringLiteral

variable {text : List Char} {n : Nat} {extent : Extent}

theorem body_take {quote : Char} {triple : Bool} {mode : Mode}
    (found : body quote triple mode text = some extent) (short : extent.length ≤ n) :
    body quote triple mode (text.take n) = some extent := by
  obtain ⟨more, rfl⟩ := Nat.exists_eq_add_of_le short
  rw [List.take_add]
  exact body_cut _ found

/-- A literal that lies before the end of a text is found there. -/
theorem leading_take {quote : Char} (found : leading quote text = some extent)
    (short : extent.length ≤ n) : leading quote (text.take n) = some extent := by
  unfold leading at found ⊢
  obtain ⟨inner, inside, rfl⟩ := Option.map_eq_some_iff.mp found
  have bounds := body_length inside
  dsimp only at short
  have opening : (text.take n).take 3 = [quote, quote, quote] ↔
      text.take 3 = [quote, quote, quote] := by
    rw [List.take_take]
    by_cases long : 3 ≤ n
    · rw [Nat.min_eq_left long]
    · -- A literal in fewer characters has not even three quotes to open with.
      have single : ¬text.take 3 = [quote, quote, quote] := by
        intro triple
        rw [if_pos triple] at short
        omega
      refine iff_of_false (fun triple => ?_) single
      have length := congrArg List.length triple
      simp only [List.length_take, List.length_cons, List.length_nil] at length
      omega
  simp only [opening]
  rw [List.drop_take, body_take inside (by omega)]
  rfl

end StringLiteral

namespace Lexeme

theorem lineLength_take {text : List Char} {n : Nat} (short : lineLength text ≤ n) :
    lineLength (text.take n) = lineLength text :=
  (Number.runLength_take _ text n).trans (Nat.min_eq_left short)

theorem wordLength_take {text : List Char} {n : Nat} (short : wordLength text ≤ n) :
    wordLength (text.take n) = wordLength text :=
  (Number.runLength_take _ text n).trans (Nat.min_eq_left short)

theorem lineEndLength_take {text : List Char} {n : Nat} (short : lineEndLength text ≤ n) :
    lineEndLength (text.take n) = lineEndLength text := by
  cases text with
  | nil => rw [List.take_nil]
  | cons c rest =>
    cases n with
    | zero =>
      rw [List.take_zero]
      exact (Nat.le_zero.mp short).symm
    | succ n =>
      rw [List.take_succ_cons]
      by_cases ended : isLineEnd c.toNat = true
      · rw [lineEndLength_cons ended] at short ⊢
        rw [lineEndLength_cons ended]
        cases n with
        | zero =>
          rw [if_neg (by simp)]
          split at short
          · omega
          · rename_i single
            rw [if_neg single]
        | succ n => rw [List.head?_take, if_neg (Nat.succ_ne_zero n)]
      · rw [lineEndLength_of_not ended, lineEndLength_of_not ended]

theorem commentRest_take {text : List Char} {length n : Nat}
    (found : commentRest text = some length) (short : length ≤ n) :
    commentRest (text.take n) = some length := by
  fun_induction commentRest text generalizing length n with
  | case1 => cases found
  | case2 rest =>
    cases found
    obtain ⟨n, rfl⟩ : ∃ k, n = k + 2 := ⟨n - 2, by omega⟩
    rfl
  | case3 c rest other ih =>
    obtain ⟨inner, more, rfl⟩ := Option.map_eq_some_iff.mp found
    obtain ⟨n, rfl⟩ : ∃ k, n = k + 1 := ⟨n - 1, by omega⟩
    rw [List.take_succ_cons, commentRest, ih more (by omega)]
    · rfl
    · intro after star slash
      refine other (after ++ rest.drop n) star ?_
      rw [← List.cons_append, ← slash, List.take_append_drop]

theorem blankToLineEnd_take {text : List Char} (blank : blankToLineEnd text = true) (n : Nat) :
    blankToLineEnd (text.take n) = true := by
  induction text generalizing n with
  | nil => rw [List.take_nil]; rfl
  | cons c text ih =>
    cases n with
    | zero => rfl
    | succ n =>
      rw [List.take_succ_cons, blankToLineEnd]
      rw [blankToLineEnd, Bool.or_eq_true, Bool.and_eq_true] at blank
      rcases blank with ended | ⟨space, rest⟩
      · rw [ended, Bool.true_or]
      · rw [space, ih rest, Bool.and_self, Bool.or_true]

variable {atStart endsStatements : Bool} {c : Char} {rest : List Char} {kind : TokenKind}
  {length n : Nat}

/-- A token that lies before the end of a text is found there. -/
theorem TokenAt.take (found : TokenAt endsStatements c rest kind length) (short : length ≤ n + 1) :
    TokenAt endsStatements c (rest.take n) kind length := by
  cases found with
  | lineEnd ended shown =>
    have again :
        TokenAt endsStatements c (rest.take n) .newline
          (lineEndLength ((c :: rest).take (n + 1))) :=
      .lineEnd ended shown
    rwa [lineEndLength_take short] at again
  | word started =>
    have again : TokenAt endsStatements c (rest.take n) _ _ := .word started
    rwa [← List.take_succ_cons, wordLength_take short, List.take_take, Nat.min_eq_left short]
      at again
  | number digit =>
    have again : TokenAt endsStatements c (rest.take n) _ _ := .number digit
    rwa [← List.take_succ_cons, Number.leading_take short] at again
  | string extent quote inside =>
    have again := StringLiteral.leading_take inside short
    exact .string extent quote again
  | punctuation _ _ inside =>
    have positive := (punctuation?_length inside).1
    obtain ⟨more, rfl⟩ : ∃ more, n = length - 1 + more := ⟨n - (length - 1), by omega⟩
    have again := punctuation?_cut ((rest.drop (length - 1)).take more) inside
    rw [← List.take_add] at again
    exact .punctuation _ _ again

/-- A gap that lies before the end of a text is found there. -/
theorem GapAt.take (found : GapAt atStart endsStatements c rest length) (short : length ≤ n + 1) :
    GapAt atStart endsStatements c (rest.take n) length := by
  have next : ∀ {d : Char}, 0 < n → rest.head? = some d → (rest.take n).head? = some d := by
    intro d positive first
    rw [List.head?_take, if_neg (Nat.ne_of_gt positive), first]
  cases found with
  | blanks blank =>
    have again : GapAt atStart endsStatements c (rest.take n) _ := .blanks blank
    rwa [← List.take_succ_cons, Number.runLength_take, Nat.min_eq_left short] at again
  | lineEnd ended hidden =>
    have again :
        GapAt atStart endsStatements c (rest.take n) (lineEndLength ((c :: rest).take (n + 1))) :=
      .lineEnd ended hidden
    rwa [lineEndLength_take short] at again
  | lineComment slash second =>
    subst slash
    obtain ⟨more, rfl⟩ := List.head?_eq_some_iff.mp second
    have long : lineLength ('/' :: '/' :: more) = lineLength more + 2 := rfl
    have again : GapAt atStart endsStatements '/' (('/' :: more).take n) _ :=
      .lineComment rfl (next (by omega) second)
    rwa [← List.take_succ_cons, lineLength_take short] at again
  | blockComment inner slash star closed =>
    refine .blockComment inner slash (next (by omega) star) ?_
    rw [List.drop_take]
    exact commentRest_take closed (by omega)
  | firstLine hash mark start =>
    subst hash
    obtain ⟨more, rfl⟩ := List.head?_eq_some_iff.mp mark
    have long : lineLength ('#' :: '!' :: more) = lineLength more + 2 := rfl
    have again : GapAt atStart endsStatements '#' (('!' :: more).take n) _ :=
      .firstLine rfl (next (by omega) mark) start
    rwa [← List.take_succ_cons, lineLength_take short] at again
  | byteOrderMark mark start => exact .byteOrderMark mark start
  | continuation backslash spaced =>
    have blank : blankToLineEnd rest = true := spaced
    have again : GapAt atStart endsStatements c (rest.take n) _ :=
      .continuation backslash (blankToLineEnd_take blank n)
    rwa [lineLength_take (by omega), List.drop_take, lineEndLength_take (by omega)] at again

theorem leading_take {lexeme : Lexeme} (found : leading atStart endsStatements c rest = .ok lexeme)
    (short : lexeme.length ≤ n + 1) :
    leading atStart endsStatements c (rest.take n) = .ok lexeme := by
  cases lexeme with
  | token kind length => exact leading_of_tokenAt ((tokenAt_of_leading found).take short)
  | gap length => exact leading_of_gapAt ((gapAt_of_leading found).take short)

/-- A lexeme does not need what follows it to be found. -/
theorem leading_of_append {front more : List Char} {lexeme : Lexeme}
    (found : leading atStart endsStatements c (front ++ more) = .ok lexeme)
    (inside : lexeme.length - 1 ≤ front.length) :
    leading atStart endsStatements c front = .ok lexeme := by
  have cut := leading_take found (n := front.length) (by omega)
  rwa [List.take_left] at cut

/-- Whether the line may end a statement here does not matter to what cannot be read. -/
theorem leading_eq_error {problem : Problem}
    (refused : leading atStart endsStatements c rest = .error problem) (other : Bool) :
    leading atStart other c rest = .error problem := by
  unfold leading at refused ⊢
  dsimp only at refused ⊢
  by_cases blank : isBlank c.toNat = true
  · rw [if_pos blank] at refused
    cases refused
  by_cases ended : isLineEnd c.toNat = true
  · rw [if_neg blank, if_pos ended] at refused
    cases refused
  rw [if_neg blank, if_neg ended] at refused ⊢
  exact refused

end Lexeme

/-! ## Where the scanner stops -/

open Lexeme

/-- Where the scanner stops no lexeme can be read, and the text before is read to its end. -/
theorem tokensFrom_eq_error {index : LineIndex} {offset : Nat} {opened : List Delimiter}
    {skipped : Nat} {text : List Char} {error : SyntaxError}
    (refused : tokensFrom index offset opened skipped text = .error error) :
    ∃ front c rest problem, text = front ++ c :: rest ∧ skipped ≤ front.length ∧
      error = .atOffset problem index (offset + byteLength front) ∧
      (spellingsFrom (offset == 0) opened skipped front).isSome = true ∧
      ∀ ends, leading (offset + byteLength front == 0) ends c rest = .error problem := by
  have later : ∀ (offset : Nat) (c : Char), (offset + c.utf8Size == 0) = false := by
    intro offset c
    have some := c.utf8Size_pos
    exact beq_eq_false_iff_ne.mpr (by omega)
  fun_induction tokensFrom index offset opened skipped text with
  | case1 => cases refused
  | case2 offset opened skipped c rest ih =>
    obtain ⟨front, d, more, problem, rfl, inside, placed, read, stopped⟩ := ih refused
    rw [later] at read
    rw [Nat.add_assoc, ← byteLength_cons] at placed stopped
    exact ⟨c :: front, d, more, problem, rfl, by simpa using inside, placed, read, stopped⟩
  | case3 offset opened c rest problem found =>
    cases refused
    exact ⟨[], c, rest, problem, rfl, Nat.zero_le _, rfl, rfl, leading_eq_error found⟩
  | case4 offset opened c rest length found ih =>
    obtain ⟨front, d, more, problem, rfl, inside, placed, read, stopped⟩ := ih refused
    rw [later] at read
    rw [Nat.add_assoc, ← byteLength_cons] at placed stopped
    refine ⟨c :: front, d, more, problem, rfl, Nat.zero_le _, placed, ?_, stopped⟩
    rw [spellingsFrom, leading_of_append found inside]
    exact read
  | case5 offset opened c rest kind length found error failed ih =>
    cases refused
    obtain ⟨front, d, more, problem, rfl, inside, placed, read, stopped⟩ := ih failed
    rw [later] at read
    rw [Nat.add_assoc, ← byteLength_cons] at placed stopped
    refine ⟨c :: front, d, more, problem, rfl, Nat.zero_le _, placed, ?_, stopped⟩
    rw [spellingsFrom, leading_of_append found inside]
    simpa using read
  | case6 => cases refused

end GroovyTidy
