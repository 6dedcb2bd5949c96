import GroovyTidy.Token.Source

set_option autoImplicit false

/-!
A lexeme does not depend on what follows it, as long as the next character cannot go on with it: the
text is cut right after the lexeme and something else is put there, and the same lexeme is found.
Every length that the scanner computes gets one lemma about such a cut.
-/
namespace GroovyTidy

open Text

/-- The first character of a text, if there is one, has no property that would make a run longer. -/
def stopsAt (member : Char → Bool) (rest : List Char) : Prop :=
  ∀ c ∈ rest.head?, member c = false

theorem stopsAt.mono {large small : Char → Bool} {rest : List Char} (stops : stopsAt large rest)
    (inside : ∀ c, small c = true → large c = true) : stopsAt small rest := by
  intro c first
  cases known : small c with
  | false => rfl
  | true => exact absurd (inside c known) (by simp [stops c first])

theorem drop_cut {n k : Nat} {text : List Char} (rest : List Char) (short : k ≤ n)
    (inside : k ≤ text.length) :
    (text.take n ++ rest).drop k = (text.drop k).take (n - k) ++ rest := by
  rw [List.drop_append_of_le_length (by simp only [List.length_take]; omega), List.drop_take]

namespace Number

theorem runLength_cons (member : Char → Bool) (c : Char) (text : List Char) :
    runLength member (c :: text) = if member c then runLength member text + 1 else 0 := by
  unfold runLength
  rw [List.takeWhile_cons]
  split <;> rfl

theorem runLength_le (member : Char → Bool) (text : List Char) :
    runLength member text ≤ text.length :=
  (List.takeWhile_sublist _).length_le

theorem runLength_of_stops {member : Char → Bool} {rest : List Char} (stops : stopsAt member rest) :
    runLength member rest = 0 := by
  cases rest with
  | nil => rfl
  | cons c rest => rw [runLength_cons, stops c rfl, if_neg Bool.false_ne_true]

theorem runLength_cut {member : Char → Bool} {rest : List Char} (stops : stopsAt member rest)
    {k : Nat} {text : List Char} (short : runLength member text ≤ k) :
    runLength member (text.take k ++ rest) = runLength member text := by
  induction text generalizing k with
  | nil =>
    simp only [List.take_nil, List.nil_append]
    exact runLength_of_stops stops
  | cons c text ih =>
    cases k with
    | zero =>
      rw [List.take_zero, List.nil_append, runLength_of_stops stops]
      omega
    | succ k =>
      rw [runLength_cons] at short ⊢
      rw [List.take_succ_cons, List.cons_append, runLength_cons]
      cases known : member c with
      | false => rfl
      | true =>
        simp only [known, ↓reduceIte] at short ⊢
        rw [ih (by omega)]

theorem letterLength_cons (letters : List Char) (c : Char) (text : List Char) :
    letterLength letters (c :: text) = if letters.contains c then 1 else 0 := by
  rfl

theorem letterLength_le (letters : List Char) (text : List Char) :
    letterLength letters text ≤ text.length := by
  cases text with
  | nil => simp [letterLength]
  | cons c text =>
    rw [letterLength_cons, List.length_cons]
    split <;> omega

theorem letterLength_of_stops {letters : List Char} {rest : List Char}
    (stops : stopsAt letters.contains rest) : letterLength letters rest = 0 := by
  cases rest with
  | nil => rfl
  | cons c rest => rw [letterLength_cons, stops c rfl, if_neg Bool.false_ne_true]

theorem letterLength_cut {letters : List Char} {rest : List Char}
    (stops : stopsAt letters.contains rest) {k : Nat} {text : List Char}
    (short : letterLength letters text ≤ k) :
    letterLength letters (text.take k ++ rest) = letterLength letters text := by
  cases text with
  | nil =>
    simp only [List.take_nil, List.nil_append]
    exact letterLength_of_stops stops
  | cons c text =>
    cases k with
    | zero =>
      rw [List.take_zero, List.nil_append, letterLength_of_stops stops]
      omega
    | succ k => rw [List.take_succ_cons, List.cons_append, letterLength_cons, letterLength_cons]

theorem letterLength_inside (letters : List Char) (rest : List Char) {k : Nat} {text : List Char}
    (some : 0 < k) (present : 0 < text.length) :
    letterLength letters (text.take k ++ rest) = letterLength letters text := by
  obtain ⟨c, text, rfl⟩ := List.exists_cons_of_length_pos present
  obtain ⟨k, rfl⟩ := Nat.exists_eq_succ_of_ne_zero (Nat.ne_of_gt some)
  rw [List.take_succ_cons, List.cons_append, letterLength_cons, letterLength_cons]

/-- What may make a number longer. -/
def continues (c : Char) : Bool :=
  isIdentifierPart c.toNat || c == '.'

theorem numeral_continues (c : Char) (known : isNumeral c = true) : continues c = true := by
  simp only [isNumeral, Bool.or_eq_true, beq_iff_eq] at known
  rcases known with digit | rfl
  · simp [continues, isIdentifierPart, digit]
  · decide

theorem digit_continues (c : Char) (known : isDigit c.toNat = true) : continues c = true := by
  simp [continues, isIdentifierPart, known]

theorem hexNumeral_continues (c : Char) (known : isHexNumeral c = true) : continues c = true := by
  simp only [isHexNumeral, Bool.or_eq_true, beq_iff_eq] at known
  rcases known with digit | rfl
  · simp only [isHexDigit, Bool.or_eq_true, Bool.and_eq_true, decide_eq_true_eq] at digit
    simp only [continues, isIdentifierPart, isIdentifierStart, isLetter, Bool.or_eq_true,
      Bool.and_eq_true, decide_eq_true_eq]
    rcases digit with (digit | upper) | lower
    · exact Or.inl (Or.inr digit)
    · exact Or.inl (Or.inl (Or.inl (Or.inl ⟨by omega, by omega⟩)))
    · exact Or.inl (Or.inl (Or.inl (Or.inr ⟨by omega, by omega⟩)))
  · decide

theorem letters_continue {letters : List Char} (known : letters.all continues = true) (c : Char)
    (member : letters.contains c = true) : continues c = true :=
  List.all_eq_true.mp known c (List.contains_iff_mem.mp member)

theorem exponentLength_of_stops {text : List Char} (stops : letterLength ['e', 'E'] text = 0) :
    exponentLength text = 0 := by
  simp only [exponentLength, stops, true_or, ↓reduceIte]

/-- The parts of an exponent that is there. -/
theorem exponentLength_parts {text : List Char} (present : exponentLength text ≠ 0) :
    ∃ letter sign digits, letterLength ['e', 'E'] text = letter ∧
      letterLength ['+', '-'] (text.drop letter) = sign ∧
      runLength (fun c => isDigit c.toNat) (text.drop (letter + sign)) = digits ∧
      letter ≠ 0 ∧ digits ≠ 0 ∧ exponentLength text = letter + sign + digits ∧
      letter + sign + digits ≤ text.length := by
  refine ⟨_, _, _, rfl, rfl, rfl, ?_⟩
  have digitsLe := runLength_le (fun c => isDigit c.toNat)
    (text.drop (letterLength ['e', 'E'] text +
      letterLength ['+', '-'] (text.drop (letterLength ['e', 'E'] text))))
  simp only [List.length_drop] at digitsLe
  simp only [exponentLength] at present ⊢
  split at present
  · exact absurd rfl present
  · rename_i found
    rw [not_or] at found
    rw [if_neg (by rw [not_or]; exact found)]
    exact ⟨found.1, found.2, rfl, by omega⟩

theorem exponentLength_le (text : List Char) : exponentLength text ≤ text.length := by
  by_cases present : exponentLength text = 0
  · omega
  · obtain ⟨letter, sign, digits, -, -, -, -, -, total, inside⟩ := exponentLength_parts present
    omega

/-- A text that goes on with an exponent keeps it; one that does not must not end in the letter of
one. -/
theorem exponentLength_cut {rest : List Char} (stops : stopsAt continues rest) {k : Nat}
    {text : List Char} (short : exponentLength text ≤ k)
    (noLetter : exponentLength text = 0 → letterLength ['e', 'E'] (text.take k) = 0) :
    exponentLength (text.take k ++ rest) = exponentLength text := by
  have stopsDigit : stopsAt (fun c => isDigit c.toNat) rest := stops.mono digit_continues
  by_cases zero : exponentLength text = 0
  · rw [zero]
    apply exponentLength_of_stops
    have none := noLetter zero
    cases cut : text.take k with
    | nil => exact letterLength_of_stops (stops.mono (letters_continue (by decide)))
    | cons c taken =>
      rw [cut, letterLength_cons] at none
      rw [List.cons_append, letterLength_cons]
      exact none
  · -- All parts lie before the cut, and there is a digit, so the sign is not at the cut either.
    obtain ⟨letter, sign, digits, letterDef, signDef, digitsDef, someLetter, someDigits,
      total, inside⟩ :=
      exponentLength_parts zero
    have letterCut : letterLength ['e', 'E'] (text.take k ++ rest) = letter := by
      rw [letterLength_inside _ _ (by omega) (by omega), letterDef]
    have signCut : letterLength ['+', '-'] ((text.take k ++ rest).drop letter) = sign := by
      rw [drop_cut rest (by omega) (by omega),
        letterLength_inside _ _ (by omega) (by simp only [List.length_drop]; omega), signDef]
    have digitsCut :
        runLength (fun c => isDigit c.toNat) ((text.take k ++ rest).drop (letter + sign)) =
          digits := by
      rw [drop_cut rest (by omega) (by omega), runLength_cut stopsDigit (by omega), digitsDef]
    rw [total]
    simp only [exponentLength, letterCut, signCut, digitsCut]
    rw [if_neg (by omega)]

theorem fractionLength_le (text : List Char) : fractionLength text ≤ text.length := by
  unfold fractionLength
  split
  · rename_i first rest
    split
    · have run := runLength_le isNumeral (first :: rest)
      simp only [List.drop_succ_cons, List.drop_zero, List.length_cons] at run ⊢
      omega
    · omega
  · omega

theorem fractionLength_of_stops {text : List Char} (stops : stopsAt (· == '.') text) :
    fractionLength text = 0 := by
  unfold fractionLength
  split
  · exact absurd (stops '.' rfl) (by decide)
  · rfl

theorem fractionLength_parts {text : List Char} (present : fractionLength text ≠ 0) :
    ∃ first more, text = '.' :: first :: more ∧ isDigit first.toNat = true ∧
      fractionLength text = 1 + runLength isNumeral (first :: more) := by
  unfold fractionLength at present
  split at present
  · rename_i first more
    split at present
    · rename_i digit
      refine ⟨first, more, rfl, digit, ?_⟩
      simp only [fractionLength, digit, ↓reduceIte, List.drop_succ_cons, List.drop_zero]
    · exact absurd rfl present
  · exact absurd rfl present

theorem fractionLength_cut {rest : List Char} (stops : stopsAt continues rest) {k : Nat}
    {text : List Char} (short : fractionLength text ≤ k)
    (cut : fractionLength text = 0 → stopsAt (· == '.') (text.take k)) :
    fractionLength (text.take k ++ rest) = fractionLength text := by
  have stopsPoint : stopsAt (· == '.') rest := stops.mono (by simp [continues])
  by_cases zero : fractionLength text = 0
  · rw [zero]
    apply fractionLength_of_stops
    intro c first
    rw [List.head?_append] at first
    have none := cut zero
    cases taken : text.take k with
    | nil =>
      rw [taken] at first
      exact stopsPoint c (by simpa using first)
    | cons d more =>
      rw [taken] at first none
      exact none c (by simpa using first)
  · obtain ⟨first, more, rfl, digit, total⟩ := fractionLength_parts zero
    have run : runLength isNumeral (first :: more) + 1 ≤ k := by omega
    have numeral : isNumeral first = true := by simp [isNumeral, digit]
    rw [runLength_cons, numeral, if_pos rfl] at run
    obtain ⟨k, rfl⟩ : ∃ i, k = i + 2 := ⟨k - 2, by omega⟩
    have runCut : runLength isNumeral ((first :: more).take (k + 1) ++ rest) =
        runLength isNumeral (first :: more) :=
      runLength_cut (stops.mono numeral_continues)
        (by rw [runLength_cons, numeral, if_pos rfl]; omega)
    simp only [List.take_succ_cons, List.cons_append] at runCut ⊢
    simp only [fractionLength, digit, ↓reduceIte, List.drop_succ_cons, List.drop_zero, runCut]

theorem hexLength_parts {text : List Char} (present : hexLength text ≠ 0) :
    ∃ x first more, text = '0' :: x :: first :: more ∧ (x == 'x' || x == 'X') = true ∧
      isHexDigit first.toNat = true ∧
      hexLength text = 2 + runLength isHexNumeral (first :: more) := by
  unfold hexLength at present
  split at present
  · rename_i x first more
    split at present
    · rename_i found
      have both := found
      rw [Bool.and_eq_true] at both
      refine ⟨x, first, more, rfl, both.1, both.2, ?_⟩
      simp only [hexLength, found, ↓reduceIte, List.drop_succ_cons, List.drop_zero]
    · exact absurd rfl present
  · exact absurd rfl present

theorem hexLength_le (text : List Char) : hexLength text ≤ text.length := by
  by_cases present : hexLength text = 0
  · omega
  · obtain ⟨x, first, more, rfl, -, -, total⟩ := hexLength_parts present
    have run := runLength_le isHexNumeral (first :: more)
    simp only [List.length_cons] at run ⊢
    omega

theorem hexLength_cut {rest : List Char} (stops : stopsAt continues rest) {k : Nat}
    {text : List Char} (short : hexLength text ≤ k) :
    hexLength (text.take k ++ rest) = hexLength text := by
  by_cases zero : hexLength text = 0
  · rw [zero]
    refine Classical.byContradiction fun present => ?_
    obtain ⟨x, first, more, shape, letter, digit, -⟩ := hexLength_parts present
    -- Each of the three characters that show a hexadecimal number goes on with a number at a cut
    -- before it.
    have goesOn : ∀ c tail, rest = c :: tail → continues c = false := by
      rintro c tail rfl
      exact stops c rfl
    have zeroGoesOn : continues '0' = true := by decide
    have letterGoesOn : continues x = true := by
      rw [Bool.or_eq_true, beq_iff_eq, beq_iff_eq] at letter
      rcases letter with rfl | rfl <;> decide
    have digitGoesOn : continues first = true :=
      hexNumeral_continues first (by simp [isHexNumeral, digit])
    rcases text with _ | ⟨a, _ | ⟨b, _ | ⟨c, text⟩⟩⟩ <;> rcases k with _ | _ | _ | k <;>
      simp only [List.take_nil, List.take_zero, List.take_succ_cons, List.nil_append,
        List.cons_append, List.cons.injEq] at shape
    all_goals
      first
      | exact absurd (goesOn _ _ shape) (by simp [zeroGoesOn])
      | exact absurd (goesOn _ _ shape.2) (by simp [letterGoesOn])
      | exact absurd (goesOn _ _ shape.2.2) (by simp [digitGoesOn])
      | obtain ⟨rfl, rfl, rfl, -⟩ := shape
        simp [hexLength, letter, digit] at zero
  · obtain ⟨x, first, more, rfl, letter, digit, total⟩ := hexLength_parts zero
    rw [total] at short
    obtain ⟨k, rfl⟩ : ∃ i, k = i + 3 := by
      have numeral : isHexNumeral first = true := by simp [isHexNumeral, digit]
      rw [runLength_cons, numeral, if_pos rfl] at short
      exact ⟨k - 3, by omega⟩
    have runCut : runLength isHexNumeral ((first :: more).take (k + 1) ++ rest) =
        runLength isHexNumeral (first :: more) :=
      runLength_cut (stops.mono hexNumeral_continues) (by omega)
    rw [total]
    simp only [List.take_succ_cons, List.cons_append] at runCut ⊢
    simp only [hexLength, letter, digit, Bool.and_self, ↓reduceIte, List.drop_succ_cons,
      List.drop_zero, runCut]

/-- A suffix letter that is there is one of the letters. -/
theorem suffix_head {letters text : List Char} :
    ∀ c ∈ (text.take (letterLength letters text)).head?, letters.contains c = true := by
  intro c first
  cases text with
  | nil => simp at first
  | cons d text =>
    rw [letterLength_cons] at first
    split at first
    · rename_i known
      simp only [List.take_succ_cons, List.head?_cons, Option.mem_some_iff] at first
      rw [← first]
      exact known
    · simp at first

/-- A suffix starts neither a fraction nor an exponent. -/
theorem suffix_stops {letters : List Char}
    (plain : letters.all (fun c => c != '.' && c != 'e' && c != 'E') = true) (text : List Char) :
    stopsAt (· == '.') (text.take (letterLength letters text)) ∧
      letterLength ['e', 'E'] (text.take (letterLength letters text)) = 0 := by
  have known : ∀ c ∈ (text.take (letterLength letters text)).head?, c ≠ '.' ∧ c ≠ 'e' ∧
      c ≠ 'E' := by
    intro c first
    have member := List.contains_iff_mem.mp (suffix_head c first)
    have checked := List.all_eq_true.mp plain c member
    simp only [Bool.and_eq_true, bne_iff_ne, ne_eq] at checked
    exact ⟨checked.1.1, checked.1.2, checked.2⟩
  constructor
  · intro c first
    simpa using (known c first).1
  · apply letterLength_of_stops
    intro c first
    obtain ⟨-, lower, upper⟩ := known c first
    simp [lower, upper]

theorem letterLength_eq_one {letters text : List Char} (present : letterLength letters text ≠ 0) :
    letterLength letters text = 1 := by
  unfold letterLength at present ⊢
  split at present
  · rename_i known
    rw [if_pos known]
  · exact absurd rfl present

/-- The form of a decimal number and the length of its suffix, by whether it has a fraction or an
exponent and by what follows these. -/
def decimalSuffix (floating : Prop) [Decidable floating] (after : List Char) : LiteralForm × Nat :=
  if floating then (.floating, letterLength floatingSuffix after)
  else if letterLength floatingLetter after ≠ 0 then (.floating, letterLength floatingLetter after)
  else (.integer, letterLength integerSuffix after)

theorem decimalSuffix_le (floating : Prop) [Decidable floating] (after : List Char) :
    (decimalSuffix floating after).2 ≤ after.length := by
  unfold decimalSuffix
  split
  · exact letterLength_le _ after
  · split
    · exact letterLength_le _ after
    · exact letterLength_le _ after

theorem decimalSuffix_stops (floating : Prop) [Decidable floating] (after : List Char) :
    stopsAt (· == '.') (after.take (decimalSuffix floating after).2) ∧
      letterLength ['e', 'E'] (after.take (decimalSuffix floating after).2) = 0 := by
  unfold decimalSuffix
  split
  · exact suffix_stops (by decide) after
  · split
    · exact suffix_stops (by decide) after
    · exact suffix_stops (by decide) after

theorem decimalSuffix_cut {rest : List Char} (stops : stopsAt continues rest) (floating : Prop)
    [Decidable floating] (after : List Char) :
    decimalSuffix floating (after.take (decimalSuffix floating after).2 ++ rest) =
      decimalSuffix floating after := by
  have keeps : ∀ letters : List Char, letters.all continues = true →
      ∀ k, letterLength letters after ≤ k →
      letterLength letters (after.take k ++ rest) = letterLength letters after := by
    intro letters known k short
    exact letterLength_cut (stops.mono (letters_continue known)) short
  unfold decimalSuffix
  by_cases present : floating
  · simp only [present, ↓reduceIte]
    rw [keeps floatingSuffix (by decide) _ (Nat.le_refl _)]
  · simp only [present, ↓reduceIte]
    by_cases letter : letterLength floatingLetter after = 0
    · simp only [letter, ne_eq, not_true_eq_false, ↓reduceIte]
      rw [keeps floatingLetter (by decide) _ (by omega),
        keeps integerSuffix (by decide) _ (Nat.le_refl _)]
      simp only [letter, not_true_eq_false, ↓reduceIte]
    · simp only [letter, ne_eq, not_false_eq_true, ↓reduceIte]
      rw [keeps floatingLetter (by decide) _ (Nat.le_refl _)]
      simp only [letter, not_false_eq_true, ↓reduceIte]

/-- A decimal number is its parts and a suffix. -/
theorem leading_decimal {text : List Char} {digits fraction exponent : Nat}
    (hex : hexLength text = 0) (digitsDef : runLength isNumeral text = digits)
    (fractionDef : fractionLength (text.drop digits) = fraction)
    (exponentDef : exponentLength (text.drop (digits + fraction)) = exponent) :
    leading text =
      ((decimalSuffix (fraction ≠ 0 ∨ exponent ≠ 0) (text.drop (digits + fraction + exponent))).1,
        digits + fraction + exponent +
          (decimalSuffix (fraction ≠ 0 ∨ exponent ≠ 0)
            (text.drop (digits + fraction + exponent))).2) := by
  simp only [leading, hex, ne_eq, not_true_eq_false, ↓reduceIte, digitsDef, fractionDef,
    exponentDef, decimalSuffix]
  by_cases floating : ¬fraction = 0 ∨ ¬exponent = 0
  · simp only [floating, ↓reduceIte]
  · have plain : digits + fraction + exponent = digits := by omega
    rw [if_neg floating, if_neg floating, plain]
    by_cases letter : letterLength floatingLetter (text.drop digits) = 0
    · rw [if_neg (not_not_intro letter), if_neg (not_not_intro letter)]
    · rw [if_pos letter, if_pos letter, letterLength_eq_one letter]

/-- The parts of a decimal number with a cut at or after their end: what lies between starts neither
a fraction nor an exponent. -/
theorem decimal_cut {rest : List Char} (stops : stopsAt continues rest) {text : List Char}
    {digits fraction exponent n : Nat} (digitsDef : runLength isNumeral text = digits)
    (fractionDef : fractionLength (text.drop digits) = fraction)
    (exponentDef : exponentLength (text.drop (digits + fraction)) = exponent)
    (enough : digits + fraction + exponent ≤ n)
    (between :
      stopsAt (· == '.') ((text.drop (digits + fraction + exponent)).take
        (n - (digits + fraction + exponent))) ∧
      letterLength ['e', 'E']
        ((text.drop (digits + fraction + exponent)).take (n - (digits + fraction + exponent))) =
          0) :
    runLength isNumeral (text.take n ++ rest) = digits ∧
      fractionLength ((text.take n ++ rest).drop digits) = fraction ∧
      exponentLength ((text.take n ++ rest).drop (digits + fraction)) = exponent ∧
      (text.take n ++ rest).drop (digits + fraction + exponent) =
        (text.drop (digits + fraction + exponent)).take
          (n - (digits + fraction + exponent)) ++ rest := by
  have digitsLe := runLength_le isNumeral text
  have fractionLe := fractionLength_le (text.drop digits)
  have exponentLe := exponentLength_le (text.drop (digits + fraction))
  simp only [List.length_drop] at fractionLe exponentLe
  refine ⟨?_, ?_, ?_, ?_⟩
  · rw [runLength_cut (stops.mono numeral_continues) (by omega), digitsDef]
  · rw [drop_cut rest (by omega) (by omega)]
    rw [fractionLength_cut stops (by omega), fractionDef]
    intro none
    obtain rfl : fraction = 0 := by omega
    rw [Nat.add_zero] at exponentDef between
    by_cases zero : exponent = 0
    · rw [zero, Nat.add_zero] at between
      exact between.1
    · -- The exponent letter stands where a fraction would start.
      obtain ⟨letter, sign, numerals, letterDef, -, -, someLetter, -, -, -⟩ :=
        exponentLength_parts (exponentDef ▸ zero : exponentLength (text.drop digits) ≠ 0)
      intro c first
      cases shape : text.drop digits with
      | nil =>
        rw [shape] at first
        simp at first
      | cons d more =>
        obtain ⟨i, kept⟩ : ∃ i, n - digits = i + 1 := ⟨n - digits - 1, by omega⟩
        rw [shape, kept, List.take_succ_cons, List.head?_cons, Option.mem_some_iff] at first
        rw [shape, letterLength_cons] at letterDef
        split at letterDef
        · rename_i known
          simp only [List.contains_cons, List.contains_nil, Bool.or_false, Bool.or_eq_true,
            beq_iff_eq] at known
          rcases known with rfl | rfl <;> rw [← first] <;> rfl
        · exact absurd letterDef.symm someLetter
  · rw [drop_cut rest (by omega) (by omega)]
    rw [exponentLength_cut stops (by omega), exponentDef]
    intro none
    obtain rfl : exponent = 0 := by omega
    exact between.2
  · exact drop_cut rest (by omega) (by omega)

/-- A number does not depend on what follows it. -/
theorem leading_cut {rest : List Char} (stops : stopsAt continues rest) (text : List Char) :
    leading (text.take (leading text).2 ++ rest) = leading text := by
  by_cases hex : hexLength text = 0
  · obtain ⟨digits, digitsDef⟩ : ∃ digits, runLength isNumeral text = digits := ⟨_, rfl⟩
    obtain ⟨fraction, fractionDef⟩ : ∃ fraction, fractionLength (text.drop digits) = fraction :=
      ⟨_, rfl⟩
    obtain ⟨exponent, exponentDef⟩ : ∃ exponent,
      exponentLength (text.drop (digits + fraction)) = exponent :=
      ⟨_, rfl⟩
    have shape := leading_decimal hex digitsDef fractionDef exponentDef
    have hexCut : hexLength (text.take (leading text).2 ++ rest) = 0 := by
      rw [hexLength_cut stops (by omega), hex]
    have between :=
      decimalSuffix_stops (fraction ≠ 0 ∨ exponent ≠ 0) (text.drop (digits + fraction + exponent))
    obtain ⟨digitsCut, fractionCut, exponentCut, restCut⟩ :=
      decimal_cut stops digitsDef fractionDef exponentDef (Nat.le_add_right _ _)
        (by rw [Nat.add_sub_cancel_left]; exact between)
    rw [Nat.add_sub_cancel_left] at restCut
    rw [shape] at hexCut ⊢
    rw [leading_decimal hexCut digitsCut fractionCut exponentCut, restCut, decimalSuffix_cut stops]
  · have shape : leading text =
        (.integer, hexLength text + letterLength integerSuffix (text.drop (hexLength text))) := by
      simp only [leading, ne_eq, hex, not_false_eq_true, ↓reduceIte]
    have hexCut : hexLength (text.take (leading text).2 ++ rest) = hexLength text :=
      hexLength_cut stops (by simp only [shape]; omega)
    rw [shape] at hexCut ⊢
    simp only [leading, hexCut, ne_eq, hex, not_false_eq_true, ↓reduceIte]
    rw [drop_cut rest (by omega) (hexLength_le text), Nat.add_sub_cancel_left,
      letterLength_cut (stops.mono (letters_continue (by decide))) (Nat.le_refl _)]

end Number

namespace StringLiteral

theorem lookAhead?_one_congr {left right : List Char} (same : left.head? = right.head?) :
    (Cursor.ofText left).lookAhead? 1 = (Cursor.ofText right).lookAhead? 1 := by
  have first : ∀ text : List Char,
      (Cursor.ofText text).lookAhead? 1 = text.head?.bind fun c => (units c)[0]? := by
    intro text
    cases text with
    | nil => rfl
    | cons c text =>
      have known : ∃ unit, (units c)[0]? = some unit := by
        unfold units
        split
        · exact ⟨_, rfl⟩
        · exact ⟨_, rfl⟩
      obtain ⟨unit, found⟩ := known
      simp [Cursor.ofText, Cursor.lookAhead?, unitAt?, found]
  rw [first, first, same]

theorem dollar_congr {left right : List Char} (same : left.head? = right.head?) :
    dollar left = dollar right := by
  unfold dollar Cursor.isBeforeAnyOf Cursor.startsInterpolation
  rw [lookAhead?_one_congr same]

/-- A step of a literal sees one character ahead, and two where three quotes may close. -/
theorem step_congr {quote : Char} {triple : Bool} {mode : Mode} {c : Char} {left right : List Char}
    (same : left.head? = right.head?) (sameTwo : triple = true → left.take 2 = right.take 2) :
    step quote triple mode c left = step quote triple mode c right := by
  cases mode with
  | taken => rfl
  | block depth => rfl
  | plain =>
    cases triple with
    | false => simp only [step, dollar_congr same, Bool.not_false, ↓reduceIte]
    | true => simp only [step, dollar_congr same, sameTwo rfl]

theorem dollar_ne_close (rest : List Char) (length : Nat) : dollar rest ≠ .close length := by
  unfold dollar
  split
  · simp
  · split
    · simp
    · split <;> simp

/-- Only the quote closes a literal, alone or with two more after it. -/
theorem step_eq_close {quote : Char} {triple : Bool} {mode : Mode} {c : Char} {rest : List Char}
    {length : Nat} (closed : step quote triple mode c rest = .close length) :
    mode = .plain ∧ c = quote ∧ c ≠ '\\' ∧
      ((triple = false ∧ length = 1) ∨
        (triple = true ∧ length = 3 ∧ rest.take 2 = [quote, quote])) := by
  unfold step at closed
  cases mode with
  | taken => cases closed
  | block depth => cases closed
  | plain =>
    simp only at closed
    split at closed
    · cases closed
    · rename_i slash
      split at closed
      · rename_i same
        refine ⟨rfl, same, slash, ?_⟩
        cases triple with
        | false =>
          cases closed
          exact Or.inl ⟨rfl, rfl⟩
        | true =>
          simp only [Bool.not_true, Bool.false_eq_true, ↓reduceIte] at closed
          split at closed
          · rename_i two
            cases closed
            exact Or.inr ⟨rfl, rfl, two⟩
          · cases closed
      · split at closed
        · exact absurd closed (dollar_ne_close _ _)
        · split at closed <;> cases closed

/-- The closing quotes belong to a literal, and it ends inside the text. -/
theorem body_length {quote : Char} {triple : Bool} {mode : Mode} {text : List Char}
    {extent : Extent} (found : body quote triple mode text = some extent) :
    (if triple then 3 else 1) ≤ extent.length ∧ extent.length ≤ text.length := by
  induction text generalizing mode extent with
  | nil => simp [body] at found
  | cons c text ih =>
    unfold body at found
    split at found
    · cases found
    · rename_i length closed
      cases found
      obtain ⟨-, -, -, ⟨rfl, rfl⟩ | ⟨rfl, rfl, two⟩⟩ := step_eq_close closed
      · simp
      · have long := congrArg List.length two
        simp only [List.length_take, List.length_cons, List.length_nil] at long
        simp only [↓reduceIte, List.length_cons]
        omega
    · obtain ⟨inner, more, rfl⟩ := Option.map_eq_some_iff.mp found
      have bounds := ih more
      simp only [Extent.after, List.length_cons]
      omega

/-- A cut behind enough characters is not seen. -/
theorem take_cut {k n : Nat} {text : List Char} (rest : List Char) (short : k ≤ n)
    (inside : k ≤ text.length) : (text.take n ++ rest).take k = text.take k := by
  rw [List.take_append_of_le_length (by simp only [List.length_take]; omega), List.take_take,
    Nat.min_eq_left short]

theorem head?_cut {n : Nat} {text : List Char} (rest : List Char) (some : 0 < n)
    (inside : 0 < text.length) : (text.take n ++ rest).head? = text.head? := by
  obtain ⟨c, text, rfl⟩ := List.exists_cons_of_length_pos inside
  obtain ⟨n, rfl⟩ := Nat.exists_eq_succ_of_ne_zero (Nat.ne_of_gt some)
  rfl

/-- What follows the opening quotes does not depend on what follows the closing ones. -/
theorem body_cut {quote : Char} {triple : Bool} {mode : Mode} {text : List Char} {extent : Extent}
    (rest : List Char) (found : body quote triple mode text = some extent) :
    body quote triple mode (text.take extent.length ++ rest) = some extent := by
  induction text generalizing mode extent with
  | nil => simp [body] at found
  | cons c text ih =>
    have bounds := body_length found
    unfold body at found
    split at found
    · cases found
    · rename_i length closed
      cases found
      have sameStep : step quote triple mode c (text.take (length - 1) ++ rest) =
          .close length := by
        obtain ⟨rfl, rfl, slash, ⟨rfl, rfl⟩ | ⟨rfl, rfl, two⟩⟩ := step_eq_close closed
        · simp [step, slash]
        · have long := congrArg List.length two
          simp only [List.length_take, List.length_cons, List.length_nil] at long
          rw [← closed]
          refine step_congr (head?_cut rest (by omega) (by omega)) fun _ => ?_
          exact take_cut rest (by omega) (by omega)
      obtain ⟨k, rfl⟩ : ∃ k, length = k + 1 := ⟨length - 1, by
        simp only at bounds
        split at bounds <;> omega⟩
      rw [Nat.add_sub_cancel] at sameStep
      simp only [List.take_succ_cons, List.cons_append]
      unfold body
      rw [sameStep]
    · rename_i next interpolates stepped
      obtain ⟨inner, more, rfl⟩ := Option.map_eq_some_iff.mp found
      have innerBounds := body_length more
      have sameStep : step quote triple mode c (text.take inner.length ++ rest) =
          .next next interpolates := by
        rw [← stepped]
        have some : 0 < inner.length := by
          split at innerBounds <;> omega
        refine step_congr (head?_cut rest some (by omega)) fun threefold => ?_
        rw [threefold, if_pos rfl] at innerBounds
        exact take_cut rest (by omega) (by omega)
      simp only [Extent.after, List.take_succ_cons, List.cons_append]
      unfold body
      rw [sameStep]
      simp only [ih more, Option.map_some, Extent.after]

/-- A literal does not depend on what follows it, unless another quote does. -/
theorem leading_cut {quote : Char} {text rest : List Char} {extent : Extent}
    (stops : stopsAt (· == quote) rest) (found : leading quote text = some extent) :
    leading quote (text.take extent.length ++ rest) = some extent := by
  unfold leading at found ⊢
  obtain ⟨inner, inside, rfl⟩ := Option.map_eq_some_iff.mp found
  have bounds := body_length inside
  by_cases triple : text.take 3 = [quote, quote, quote]
  · simp only [triple, decide_true, ↓reduceIte] at inside bounds ⊢
    have long := congrArg List.length triple
    simp only [List.length_take, List.length_cons, List.length_nil] at long
    have sameStart : (text.take (3 + inner.length) ++ rest).take 3 = [quote, quote, quote] := by
      rw [take_cut rest (by omega) (by omega), triple]
    simp only [sameStart, decide_true, ↓reduceIte]
    rw [drop_cut rest (by omega) (by omega), Nat.add_sub_cancel_left, body_cut rest inside]
    rfl
  · simp only [triple, decide_false, Bool.false_eq_true, ↓reduceIte, List.length_drop]
      at inside bounds ⊢
    have sameStart : ¬(text.take (1 + inner.length) ++ rest).take 3 = [quote, quote, quote] := by
      intro opened
      by_cases long : 2 ≤ inner.length
      · rw [take_cut rest (by omega) (by omega)] at opened
        exact triple opened
      · -- The literal is empty, so a third quote would follow it.
        obtain ⟨a, b, text, rfl⟩ : ∃ a b more, text = a :: b :: more := by
          rcases text with _ | ⟨a, _ | ⟨b, more⟩⟩
          · simp at bounds
            omega
          · simp at bounds
            omega
          · exact ⟨a, b, more, rfl⟩
        have two : 1 + inner.length = 2 := by omega
        rw [two] at opened
        cases rest with
        | nil => simp at opened
        | cons c rest =>
          simp only [List.take_succ_cons, List.take_zero, List.cons_append, List.nil_append,
            List.cons.injEq, and_true] at opened
          have differs := stops c rfl
          simp [opened.2.2] at differs
    simp only [sameStart, decide_false, ↓reduceIte]
    rw [drop_cut rest (by omega) (by omega), Nat.add_sub_cancel_left, body_cut rest inside]
    rfl

end StringLiteral

end GroovyTidy
