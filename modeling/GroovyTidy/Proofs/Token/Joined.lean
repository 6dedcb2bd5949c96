import GroovyTidy.Proofs.Token.Gap
import GroovyTidy.Proofs.Token.Tiling
import Mathlib.Data.List.Forall2

set_option autoImplicit false

/-!
A text in front of a line feed. Its tokens are read in the same way if a line feed and more text
follow it. Only what stands at its end and may take a line feed along does so: a carriage return and
a line continuation.
-/
namespace GroovyTidy

open Text

/-- A run of characters other than line ends stops where a line ends. -/
theorem EndsLine.stops {tail : List Char} (ended : EndsLine tail) {member : Char → Bool}
    (feed : member '\n' = false) (carriage : member '\r' = false) : stopsAt member tail := by
  intro c first
  rcases (isLineEnd_iff c).mp (ended c first) with rfl | rfl
  · exact feed
  · exact carriage

/-- The rest of a text is empty or starts with a blank or a line end. -/
def EndsToken (rest : List Char) : Prop :=
  ∀ c ∈ rest.head?, isBlank c.toNat = true ∨ isLineEnd c.toNat = true

theorem EndsLine.endsToken {tail : List Char} (ended : EndsLine tail) : EndsToken tail :=
  fun c first => .inr (ended c first)

theorem isBlank_iff (c : Char) : isBlank c.toNat = true ↔ c = ' ' ∨ c = '\t' ∨ c = '\x0c' := by
  have same : ∀ d : Char, c.toNat = d.toNat ↔ c = d := fun d => Char.toNat_inj
  have space := same ' '
  have tab := same '\t'
  have feed := same '\x0c'
  simp only [isBlank, Bool.or_eq_true, beq_iff_eq, or_assoc]
  exact or_congr space (or_congr tab feed)

/-- A run of characters other than blanks and line ends stops before these. -/
theorem EndsToken.stops {tail : List Char} (ended : EndsToken tail) {member : Char → Bool}
    (other : [' ', '\t', '\x0c', '\n', '\r'].all (fun c => !member c) = true) :
    stopsAt member tail := by
  intro c first
  have listed : c ∈ [' ', '\t', '\x0c', '\n', '\r'] := by
    rcases ended c first with blank | ends
    · rcases (isBlank_iff c).mp blank with rfl | rfl | rfl <;> simp
    · rcases (isLineEnd_iff c).mp ends with rfl | rfl <;> simp
  simpa using List.all_eq_true.mp other c listed

theorem endsLine_feed (more : List Char) : EndsLine ('\n' :: more) := by
  intro c first
  cases first
  rfl

namespace Number

variable {tail : List Char}

theorem runLength_append {member : Char → Bool} (stops : stopsAt member tail) (text : List Char) :
    runLength member (text ++ tail) = runLength member text := by
  have cut := runLength_cut stops (runLength_le member text)
  rwa [List.take_length] at cut

theorem letterLength_append {letters : List Char} (stops : stopsAt letters.contains tail)
    (text : List Char) : letterLength letters (text ++ tail) = letterLength letters text := by
  have cut := letterLength_cut stops (letterLength_le letters text)
  rwa [List.take_length] at cut

theorem exponentLength_append (ended : EndsToken tail) (text : List Char) :
    exponentLength (text ++ tail) = exponentLength text := by
  have letter := letterLength_le ['e', 'E'] text
  have sign := letterLength_le ['+', '-'] (text.drop (letterLength ['e', 'E'] text))
  rw [List.length_drop] at sign
  unfold exponentLength
  dsimp only
  rw [letterLength_append (ended.stops rfl), List.drop_append_of_le_length letter,
    letterLength_append (ended.stops rfl), List.drop_append_of_le_length (by omega),
    runLength_append (ended.stops rfl)]

theorem fractionLength_append (ended : EndsToken tail) (text : List Char) :
    fractionLength (text ++ tail) = fractionLength text := by
  have noNumeral : stopsAt isNumeral tail := ended.stops rfl
  match text with
  | [] => exact fractionLength_of_stops (ended.stops rfl)
  | c :: rest =>
    by_cases point : c = '.'
    · subst point
      cases rest with
      | nil =>
        cases tail with
        | nil => rfl
        | cons d tail =>
          have noDigit : stopsAt (fun d => isDigit d.toNat) (d :: tail) := ended.stops rfl
          exact if_neg (Bool.eq_false_iff.mp (noDigit d rfl))
      | cons first rest =>
        have run := runLength_append noNumeral (first :: rest)
        show (if isDigit first.toNat then 1 + runLength isNumeral (first :: rest ++ tail) else 0) =
            _
        rw [run]
        rfl
    · have stops : ∀ rest, stopsAt (· == '.') (c :: rest) := by
        intro rest d first
        cases first
        exact beq_eq_false_iff_ne.mpr point
      rw [List.cons_append, fractionLength_of_stops (stops _), fractionLength_of_stops (stops _)]

theorem hexLength_append (ended : EndsToken tail) (text : List Char) :
    hexLength (text ++ tail) = hexLength text := by
  have noNumeral : stopsAt continues tail := ended.stops rfl
  have cut := hexLength_cut noNumeral (hexLength_le text)
  rwa [List.take_length] at cut

theorem decimalSuffix_append (ended : EndsToken tail) (floating : Prop) [Decidable floating]
    (text : List Char) : decimalSuffix floating (text ++ tail) = decimalSuffix floating text := by
  unfold decimalSuffix
  rw [letterLength_append (ended.stops rfl), letterLength_append (ended.stops rfl),
    letterLength_append (ended.stops rfl)]

/-- A number does not go on behind a blank or a line end. -/
theorem leading_append (ended : EndsToken tail) (text : List Char) :
    leading (text ++ tail) = leading text := by
  by_cases hex : hexLength text = 0
  · obtain ⟨digits, digitsDef⟩ : ∃ digits, runLength isNumeral text = digits := ⟨_, rfl⟩
    obtain ⟨fraction, fractionDef⟩ : ∃ fraction, fractionLength (text.drop digits) = fraction :=
      ⟨_, rfl⟩
    obtain ⟨exponent, exponentDef⟩ : ∃ exponent,
      exponentLength (text.drop (digits + fraction)) = exponent :=
      ⟨_, rfl⟩
    have digitsLe := runLength_le isNumeral text
    have fractionLe := fractionLength_le (text.drop digits)
    have exponentLe := exponentLength_le (text.drop (digits + fraction))
    rw [List.length_drop] at fractionLe exponentLe
    have inside : ∀ {k : Nat}, k ≤ digits + fraction + exponent →
        (text ++ tail).drop k = text.drop k ++ tail :=
      fun short => List.drop_append_of_le_length (by omega)
    have digitsToo : runLength isNumeral (text ++ tail) = digits := by
      rw [runLength_append (ended.stops rfl), digitsDef]
    have fractionToo : fractionLength ((text ++ tail).drop digits) = fraction := by
      rw [inside (by omega), fractionLength_append ended, fractionDef]
    have exponentToo : exponentLength ((text ++ tail).drop (digits + fraction)) = exponent := by
      rw [inside (by omega), exponentLength_append ended, exponentDef]
    rw [leading_decimal ((hexLength_append ended text).trans hex) digitsToo fractionToo exponentToo,
      leading_decimal hex digitsDef fractionDef exponentDef, inside (Nat.le_refl _),
      decimalSuffix_append ended]
  · simp only [leading, hexLength_append ended, ne_eq, hex, not_false_eq_true, ↓reduceIte]
    rw [List.drop_append_of_le_length (hexLength_le text), letterLength_append (ended.stops rfl)]

end Number

namespace StringLiteral

theorem body_append {quote : Char} {triple : Bool} {mode : Mode} {text : List Char}
    {extent : Extent} (found : body quote triple mode text = some extent) (tail : List Char) :
    body quote triple mode (text ++ tail) = some extent := by
  have cut := body_cut (text.drop extent.length ++ tail) found
  rwa [← List.append_assoc, List.take_append_drop] at cut

theorem triple_append {quote next : Char} (other : quote ≠ next) (text more : List Char) :
    (text ++ next :: more).take 3 = [quote, quote, quote] ↔
    text.take 3 = [quote, quote, quote] := by
  by_cases long : 3 ≤ text.length
  · rw [List.take_append_of_le_length long]
  · constructor
    · intro quotes
      have here : ((text ++ next :: more).take 3)[text.length]? = some next := by
        rw [List.getElem?_take, if_pos (by omega), List.getElem?_append_right (Nat.le_refl _),
          Nat.sub_self]
        rfl
      rw [quotes] at here
      have member := List.mem_of_getElem? here
      simp only [List.mem_cons, List.not_mem_nil, or_false, or_self] at member
      exact absurd member.symm other
    · intro quotes
      have length := congrArg List.length quotes
      simp only [List.length_take, List.length_cons, List.length_nil] at length
      omega

/-- A literal that is closed before a character other than its quote stays the same. -/
theorem leading_append {quote next : Char} (other : quote ≠ next) {text : List Char}
    {extent : Extent} (found : leading quote text = some extent) (more : List Char) :
    leading quote (text ++ next :: more) = some extent := by
  unfold leading at found ⊢
  dsimp only at found ⊢
  obtain ⟨inner, inside, rfl⟩ := Option.map_eq_some_iff.mp found
  have bounds := body_length inside
  rw [List.length_drop] at bounds
  have opened : (if text.take 3 = [quote, quote, quote] then 3 else 1) ≤ text.length := by
    split at bounds <;> omega
  simp only [triple_append other]
  rw [List.drop_append_of_le_length opened, body_append inside]
  rfl

end StringLiteral

namespace Lexeme

theorem commentRest_append {text : List Char} {length : Nat}
    (found : commentRest text = some length) (tail : List Char) :
    commentRest (text ++ tail) = some length := by
  fun_induction commentRest text generalizing length with
  | case1 => cases found
  | case2 rest =>
    cases found
    rfl
  | case3 c rest other ih =>
    obtain ⟨inner, more, rfl⟩ := Option.map_eq_some_iff.mp found
    rw [List.cons_append, commentRest, ih more]
    · rfl
    · intro after star slash
      cases rest with
      | nil => cases more
      | cons d rest =>
        rw [List.cons_append, List.cons.injEq] at slash
        exact other rest star (by rw [slash.1])

theorem lineLength_append {tail : List Char} (ended : EndsLine tail) (text : List Char) :
    lineLength (text ++ tail) = lineLength text :=
  Number.runLength_append (ended.stops rfl rfl) text

theorem wordLength_append {tail : List Char} (ended : EndsToken tail) (text : List Char) :
    wordLength (text ++ tail) = wordLength text :=
  Number.runLength_append (ended.stops rfl) text

theorem blankToLineEnd_append {text : List Char} (blank : blankToLineEnd text = true)
    (more : List Char) : blankToLineEnd (text ++ '\n' :: more) = true := by
  induction text with
  | nil => rfl
  | cons c text ih =>
    rw [List.cons_append, blankToLineEnd]
    rw [blankToLineEnd, Bool.or_eq_true, Bool.and_eq_true] at blank
    rcases blank with ended | ⟨space, rest⟩
    · rw [ended, Bool.true_or]
    · rw [space, ih rest, Bool.and_self, Bool.or_true]

theorem lineEndLength_of_not {c : Char} (other : ¬isLineEnd c.toNat = true) (rest : List Char) :
    lineEndLength (c :: rest) = 0 := by
  unfold lineEndLength
  split
  · rename_i shape
    cases shape
    exact absurd rfl other
  · rename_i shape
    cases shape
    rw [if_neg other]
  · rfl

/-- Only a line end that is all of a text, or an empty one, takes the line feed along. -/
theorem lineEndLength_append (text more : List Char) :
    lineEndLength (text ++ '\n' :: more) = lineEndLength text ∨
      lineEndLength text = text.length ∧
      lineEndLength (text ++ '\n' :: more) = lineEndLength text + 1 := by
  cases text with
  | nil => exact .inr ⟨rfl, rfl⟩
  | cons c rest =>
    by_cases ended : isLineEnd c.toNat = true
    · rw [List.cons_append, lineEndLength_cons ended, lineEndLength_cons ended]
      cases rest with
      | nil =>
        by_cases carriage : c = '\r'
        · simp [carriage]
        · simp [carriage]
      | cons d rest => exact .inl rfl
    · left
      rw [List.cons_append, lineEndLength_of_not ended, lineEndLength_of_not ended]

variable {atStart endsStatements : Bool} {c : Char} {rest : List Char} {kind : TokenKind}
  {length : Nat}

/-- A token in front of a line feed. -/
theorem TokenAt.append (found : TokenAt endsStatements c rest kind length) (more : List Char) :
    TokenAt endsStatements c (rest ++ '\n' :: more) kind length ∨
      kind = .newline ∧ length = (c :: rest).length ∧
        TokenAt endsStatements c (rest ++ '\n' :: more) kind (length + 1) := by
  cases found with
  | lineEnd ended shown =>
    have again : TokenAt endsStatements c (rest ++ '\n' :: more) .newline
        (lineEndLength (c :: rest ++ '\n' :: more)) := .lineEnd ended shown
    rcases lineEndLength_append (c :: rest) more with same | ⟨whole, longer⟩
    · rw [same] at again
      exact .inl again
    · rw [longer] at again
      exact .inr ⟨rfl, whole, again⟩
  | word started =>
    left
    have run : wordLength (c :: rest) ≤ (c :: rest).length := Number.runLength_le _ _
    have again : TokenAt endsStatements c (rest ++ '\n' :: more) _ _ := .word started
    rw [← List.cons_append, wordLength_append (endsLine_feed more).endsToken,
      List.take_append_of_le_length run] at again
    exact again
  | number digit =>
    left
    have again : TokenAt endsStatements c (rest ++ '\n' :: more) _ _ := .number digit
    rw [← List.cons_append, Number.leading_append (endsLine_feed more).endsToken] at again
    exact again
  | string extent quote inside =>
    left
    refine .string extent quote (StringLiteral.leading_append ?_ inside more)
    rcases quote with rfl | rfl <;> decide
  | punctuation _ _ inside =>
    left
    have cut := punctuation?_cut (rest.drop (length - 1) ++ '\n' :: more) inside
    rw [← List.append_assoc, List.take_append_drop] at cut
    exact .punctuation _ _ cut

/-- A gap in front of a line feed. -/
theorem GapAt.append (found : GapAt atStart endsStatements c rest length) (more : List Char) :
    GapAt atStart endsStatements c (rest ++ '\n' :: more) length ∨
      length = (c :: rest).length ∧
      GapAt atStart endsStatements c (rest ++ '\n' :: more) (length + 1) := by
  have next : ∀ {d : Char}, rest.head? = some d → (rest ++ '\n' :: more).head? = some d := by
    intro d first
    rw [List.head?_append, first]
    rfl
  cases found with
  | blanks blank =>
    left
    have again : GapAt atStart endsStatements c (rest ++ '\n' :: more) _ := .blanks blank
    rw [← List.cons_append, Number.runLength_append ((endsLine_feed more).stops rfl rfl)] at again
    exact again
  | lineEnd ended hidden =>
    have again :
        GapAt atStart endsStatements c (rest ++ '\n' :: more)
          (lineEndLength (c :: rest ++ '\n' :: more)) :=
      .lineEnd ended hidden
    rcases lineEndLength_append (c :: rest) more with same | ⟨whole, longer⟩
    · rw [same] at again
      exact .inl again
    · rw [longer] at again
      exact .inr ⟨whole, again⟩
  | lineComment slash second =>
    left
    have again : GapAt atStart endsStatements c (rest ++ '\n' :: more) _ :=
      .lineComment slash (next second)
    rw [← List.cons_append, lineLength_append (endsLine_feed more)] at again
    exact again
  | blockComment inner slash star closed =>
    left
    refine .blockComment inner slash (next star) ?_
    obtain ⟨rest, rfl⟩ := List.head?_eq_some_iff.mp star
    exact commentRest_append closed _
  | firstLine hash mark start =>
    left
    have again : GapAt atStart endsStatements c (rest ++ '\n' :: more) _ :=
      .firstLine hash (next mark) start
    rw [← List.cons_append, lineLength_append (endsLine_feed more)] at again
    exact again
  | byteOrderMark mark start => exact .inl (.byteOrderMark mark start)
  | continuation backslash spaced =>
    have blank : blankToLineEnd rest = true := spaced
    have line : lineLength rest ≤ rest.length := Number.runLength_le _ _
    have again : GapAt atStart endsStatements c (rest ++ '\n' :: more) _ :=
      .continuation backslash (blankToLineEnd_append blank more)
    rw [lineLength_append (endsLine_feed more), List.drop_append_of_le_length line] at again
    rcases lineEndLength_append (rest.drop (lineLength rest)) more with same | ⟨whole, longer⟩
    · rw [same] at again
      exact .inl again
    · rw [longer] at again
      refine .inr ⟨?_, again⟩
      rw [whole, List.length_drop, List.length_cons]
      omega

theorem leading_of_gapAt (found : GapAt atStart endsStatements c rest length) :
    leading atStart endsStatements c rest = .ok (.gap length) := by
  cases found with
  | blanks blank => simp only [leading, blank, ↓reduceIte]
  | lineEnd ended hidden =>
    simp only [leading, not_blank_of_lineEnd ended, ended, hidden, Bool.false_eq_true, ↓reduceIte]
  | lineComment slash second =>
    subst slash
    obtain ⟨rest, rfl⟩ := List.head?_eq_some_iff.mp second
    rfl
  | blockComment inner slash star closed =>
    subst slash
    obtain ⟨rest, rfl⟩ := List.head?_eq_some_iff.mp star
    have inside : commentRest rest = some inner := closed
    simp +decide [leading, inside]
  | firstLine hash mark start =>
    subst hash start
    obtain ⟨rest, rfl⟩ := List.head?_eq_some_iff.mp mark
    rfl
  | byteOrderMark mark start =>
    subst mark start
    rfl
  | continuation backslash spaced =>
    subst backslash
    simp +decide [leading, spaced]

theorem GapAt.length_bounds {opened : List Delimiter}
    (found : GapAt atStart (GroovyTidy.endsStatements opened) c rest length) :
    0 < length ∧ length ≤ (c :: rest).length := by
  obtain ⟨item, after, shape, rfl, here⟩ := gapItem_of_leading (leading_of_gapAt found)
  refine ⟨List.length_pos_iff.mpr here.ne_nil, ?_⟩
  rw [shape, List.length_append]
  omega

/-- Only two lexemes ask whether they stand at the start of a source. -/
theorem leading_later (noMark : c ≠ '\ufeff') (noLine : ¬(c = '#' ∧ rest.head? = some '!')) :
    leading true endsStatements c rest = leading false endsStatements c rest := by
  simp only [leading, noMark, noLine, false_and, ↓reduceIte]

end Lexeme

/-! ## Spellings of a text -/

open Lexeme

/-- The spellings of the tokens of a text, after characters that still belong to the lexeme before
it. Of where the text stands in a source it is said only whether it is at the start. -/
def spellingsFrom : Bool → List Delimiter → Nat → List Char → Option (List Spelling)
  | _, _, _, [] => some [(.endOfInput, "")]
  | _, opened, skipped + 1, _ :: rest => spellingsFrom false opened skipped rest
  | atStart, opened, 0, c :: rest =>
    match leading atStart (endsStatements opened) c rest with
    | .error _ => none
    | .ok (.gap length) => spellingsFrom false opened (length - 1) rest
    | .ok (.token kind length) =>
      (spellingsFrom false (openAfter opened kind) (length - 1) rest).map
        ((kind, String.ofList ((c :: rest).take length)) :: ·)

theorem tokensFrom_spellings (index : LineIndex) (offset : Nat) (opened : List Delimiter)
    (skipped : Nat) (text : List Char) :
    (tokensFrom index offset opened skipped text).toOption.map (List.map Token.spelling) =
      spellingsFrom (offset == 0) opened skipped text := by
  have later : ∀ (offset : Nat) (c : Char), (offset + c.utf8Size == 0) = false := by
    intro offset c
    have some := c.utf8Size_pos
    exact beq_eq_false_iff_ne.mpr (by omega)
  fun_induction tokensFrom index offset opened skipped text with
  | case1 => rfl
  | case2 offset opened skipped c rest ih =>
    rw [ih, later]
    rfl
  | case3 offset opened c rest problem found =>
    rw [spellingsFrom, found]
    rfl
  | case4 offset opened c rest length found ih =>
    rw [spellingsFrom, found, ih, later]
  | case5 offset opened c rest kind length found error refused ih =>
    rw [spellingsFrom, found]
    rw [refused, later] at ih
    simp only [← ih]
    rfl
  | case6 offset opened c rest kind length found token tokens more =>
    rename_i ih
    rw [spellingsFrom, found]
    rw [more, later] at ih
    simp only [← ih]
    rfl

theorem spellingsFrom_tokenize (source : String) :
    spellingsFrom true [] 0 source.toList =
      (tokenize source).toOption.map (List.map Token.spelling) :=
  (tokensFrom_spellings (.ofText source.toList) 0 [] 0 source.toList).symm

theorem spellingsFrom_of_tokenize {source : String} {tokens : List Token}
    (read : tokenize source = .ok tokens) :
    spellingsFrom true [] 0 source.toList = some (tokens.map Token.spelling) := by
  rw [spellingsFrom_tokenize, read]
  rfl

theorem tokenize_of_spellingsFrom {source : String} {spellings : List Spelling}
    (known : spellingsFrom true [] 0 source.toList = some spellings) :
    ∃ tokens, tokenize source = .ok tokens ∧ tokens.map Token.spelling = spellings := by
  rw [spellingsFrom_tokenize] at known
  cases result : tokenize source with
  | error error =>
    rw [result] at known
    cases known
  | ok tokens =>
    rw [result] at known
    exact ⟨tokens, rfl, Option.some.inj known⟩

/-- Not at the start of a source the same tokens are read, unless the text starts with what may
stand only there. -/
theorem spellingsFrom_later {opened : List Delimiter} {text : List Char}
    (noMark : text.head? ≠ some '\ufeff') (noLine : text.take 2 ≠ ['#', '!']) :
    spellingsFrom true opened 0 text = spellingsFrom false opened 0 text := by
  cases text with
  | nil => rfl
  | cons c rest =>
    have other : ¬(c = '#' ∧ rest.head? = some '!') := by
      rintro ⟨rfl, mark⟩
      obtain ⟨rest, rfl⟩ := List.head?_eq_some_iff.mp mark
      exact noLine rfl
    rw [spellingsFrom, spellingsFrom, leading_later (by simpa using noMark) other]

/-! ## A text before a line feed -/

/-- The same spelling, or two line ends. -/
def Spelling.Similar (left right : Spelling) : Prop :=
  left = right ∨ left.1 = .newline ∧ right.1 = .newline

/-- The tokens of a text in front of a line feed, and then those of the rest, of which the line feed
may already be taken along. The induction follows the scanner. So many characters are passed over in
both cases, or the text ends with them and one more is passed over in front of the line feed. -/
theorem spellingsFrom_append {atStart : Bool} {opened : List Delimiter} {skipped taken : Nat}
    {text : List Char} {spellings : List Spelling}
    (known : spellingsFrom atStart opened skipped text = some spellings)
    (inside : skipped ≤ text.length)
    (same : taken = skipped ∨ skipped = text.length ∧ taken = skipped + 1) (more : List Char) :
    ∃ body front start passed, spellings = body ++ [(.endOfInput, "")] ∧
      List.Forall₂ Spelling.Similar front body ∧
      passed ≤ 1 ∧
      spellingsFrom atStart opened taken (text ++ '\n' :: more) =
        (spellingsFrom start ((body.map Prod.fst).foldl openAfter opened) passed ('\n' :: more)).map
          (front ++ ·) := by
  fun_induction spellingsFrom atStart opened skipped text generalizing taken spellings with
  | case1 atStart opened skipped =>
    cases known
    refine ⟨[], [], atStart, taken, rfl, .nil, ?_, ?_⟩
    · rw [List.length_nil] at inside same
      omega
    · simp
  | case2 atStart opened skipped c rest ih =>
    rw [List.length_cons] at inside same
    obtain ⟨taken, rfl⟩ := Nat.exists_eq_succ_of_ne_zero (show taken ≠ 0 by omega)
    have step : taken = skipped ∨ skipped = rest.length ∧ taken = skipped + 1 := by omega
    exact ih known (by omega) step
  | case3 => cases known
  | case4 atStart opened c rest length found ih =>
    have here := gapAt_of_leading found
    have bounds := here.length_bounds
    rw [List.length_cons] at bounds same
    obtain rfl : taken = 0 := by omega
    rcases here.append more with again | ⟨whole, again⟩
    · have step := ih known (by omega) (.inl rfl)
      rw [List.cons_append, spellingsFrom, leading_of_gapAt again]
      exact step
    · rw [List.length_cons] at whole
      have step := ih known (by omega) (.inr ⟨by omega, rfl⟩)
      rw [List.cons_append, spellingsFrom, leading_of_gapAt again]
      rwa [Nat.sub_add_cancel bounds.1] at step
  | case5 atStart opened c rest kind length found ih =>
    have here := tokenAt_of_leading found
    have bounds := here.length_bounds
    rw [List.length_cons] at bounds same
    obtain rfl : taken = 0 := by omega
    obtain ⟨others, later, rfl⟩ := Option.map_eq_some_iff.mp known
    have step : ∀ {longer : Nat},
        TokenAt (endsStatements opened) c (rest ++ '\n' :: more) kind longer →
        (longer - 1 = length - 1 ∨ length - 1 = rest.length ∧ longer - 1 = length - 1 + 1) →
        Spelling.Similar (kind, String.ofList ((c :: (rest ++ '\n' :: more)).take longer))
          (kind, String.ofList ((c :: rest).take length)) →
        ∃ body front start passed, (kind, String.ofList ((c :: rest).take length)) :: others =
          body ++ [(.endOfInput, "")] ∧ List.Forall₂ Spelling.Similar front body ∧ passed ≤ 1 ∧
          spellingsFrom atStart opened 0 (c :: rest ++ '\n' :: more) =
            (spellingsFrom start ((body.map Prod.fst).foldl openAfter opened) passed
              ('\n' :: more)).map
              (front ++ ·) := by
      intro longer again passes similar
      obtain ⟨body, front, start, passed, rfl, all, once, rest⟩ := ih later (by omega) passes
      refine ⟨_ :: body, _ :: front, start, passed, rfl, .cons similar all, once, ?_⟩
      rw [List.cons_append, spellingsFrom, leading_of_tokenAt again]
      dsimp only
      rw [rest, Option.map_map]
      rfl
    rcases here.append more with again | ⟨newline, whole, again⟩
    · refine step again (.inl rfl) (.inl ?_)
      rw [← List.cons_append, List.take_append_of_le_length (by rw [List.length_cons]; omega)]
    · rw [List.length_cons] at whole
      exact step again (.inr ⟨by omega, by omega⟩) (.inr ⟨newline, newline⟩)

theorem spellingsFrom_lineFeed (start : Bool) (text : List Char) :
    spellingsFrom start [] 0 ('\n' :: text) =
      (spellingsFrom false [] 0 text).map ((.newline, "\n") :: ·) :=
  rfl

/-- Two line feeds of which the first one may already be taken along. -/
theorem spellingsFrom_lineFeeds {passed : Nat} (once : passed ≤ 1) (start : Bool)
    (text : List Char) :
    ∃ gap, gap ≠ [] ∧ (∀ spelling ∈ gap, spelling = (.newline, "\n")) ∧
      spellingsFrom start [] passed ('\n' :: '\n' :: text) =
        (spellingsFrom false [] 0 text).map (gap ++ ·) := by
  match passed, once with
  | 0, _ =>
    refine ⟨[(.newline, "\n"), (.newline, "\n")], by simp, by simp, ?_⟩
    rw [spellingsFrom_lineFeed, spellingsFrom_lineFeed, Option.map_map]
    rfl
  | 1, _ => exact ⟨[(.newline, "\n")], by simp, by simp, spellingsFrom_lineFeed false text⟩

/-- Two sources with an empty line between them have the tokens of both, with line ends between
them. -/
theorem tokenize_joined {source other : String} {body tokens : List Token} {last : Token}
    (read : tokenize source = .ok (body ++ [last])) (closed : openAfterAll [] body = [])
    (otherRead : tokenize other = .ok tokens) (noMark : other.toList.head? ≠ some '\ufeff')
    (noLine : other.toList.take 2 ≠ ['#', '!']) :
    ∃ front gap back, tokenize (source ++ "\n\n" ++ other) = .ok (front ++ (gap ++ back)) ∧
      List.Forall₂ Spelling.Similar (front.map Token.spelling) (body.map Token.spelling) ∧
      gap ≠ [] ∧
      (∀ token ∈ gap, token.kind = .newline) ∧
      back.map Token.spelling = tokens.map Token.spelling := by
  have known := spellingsFrom_of_tokenize read
  obtain ⟨spellings, front, start, passed, shape, similar, once, joined⟩ :=
    spellingsFrom_append known (Nat.zero_le _) (.inl rfl) ('\n' :: other.toList)
  rw [List.map_append, List.map_singleton] at shape
  obtain ⟨rfl, -⟩ := List.append_inj' shape rfl
  have opened : ((body.map Token.spelling).map Prod.fst).foldl openAfter [] =
      openAfterAll [] body := by
    rw [List.map_map, List.foldl_map]
    rfl
  obtain ⟨gap, some, all, feeds⟩ := spellingsFrom_lineFeeds once start other.toList
  have text : (source ++ "\n\n" ++ other).toList =
      source.toList ++ '\n' :: '\n' :: other.toList := by
    simp
  rw [← text, opened, closed, feeds, ← spellingsFrom_later noMark noLine,
    spellingsFrom_of_tokenize otherRead, Option.map_some, Option.map_some] at joined
  obtain ⟨whole, success, spelled⟩ := tokenize_of_spellingsFrom joined
  obtain ⟨front, rest, rfl, rfl, restSpelled⟩ := List.map_eq_append_iff.mp spelled
  obtain ⟨gap, back, rfl, rfl, backSpelled⟩ := List.map_eq_append_iff.mp restSpelled
  refine ⟨front, gap, back, success, similar, by simpa using some, ?_, backSpelled⟩
  intro token member
  exact congrArg Prod.fst (all _ (List.mem_map_of_mem member))

end GroovyTidy
