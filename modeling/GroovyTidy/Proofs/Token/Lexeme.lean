import GroovyTidy.Proofs.Token.Cut

set_option autoImplicit false

/-!
Tokens at the front of a text, told apart by what they start with. A token stays the same if what
follows it is replaced, unless the next character goes on with it.
-/
namespace GroovyTidy

open Text

/-- A character right after a token of a kind with a text may make it longer. -/
def TokenKind.goesOn (kind : TokenKind) (text : List Char) (c : Char) : Bool :=
  match kind with
  | .literal .integer | .literal .floating => Number.continues c
  | .literal .string | .literal .interpolated => c == '\'' || c == '"'
  | .newline => text == ['\r'] && c == '\n'
  | kind => kind.fixedText?.isNone && isIdentifierPart c.toNat

/-- The kinds that words have. -/
def TokenKind.isWord : TokenKind → Bool
  | .identifier | .capitalizedIdentifier | .literal .boolean | .literal .null | .packageWord
  | .importWord | .asWord | .returnWord | .primitiveType | .modifier _ => true
  | _ => false

theorem TokenKind.ofWord_isWord (word : String) : (ofWord word).isWord = true := by
  unfold ofWord
  repeat' split
  all_goals rfl

theorem TokenKind.fixedText?_of_isWord {kind : TokenKind} (word : kind.isWord = true) :
    kind.fixedText? = none := by
  unfold isWord at word
  split at word
  all_goals first
    | rfl
    | cases word

theorem TokenKind.eq_of_ofWord {word : String} (package : ofWord word = .packageWord) :
    word = "package" := by
  unfold ofWord at package
  split at package
  · assumption
  · repeat' split at package
    all_goals cases package

/-- A word goes on with what names go on with. -/
theorem TokenKind.goesOn_of_isWord {kind : TokenKind} (word : kind.isWord = true) (text : List Char)
    (c : Char) : kind.goesOn text c = isIdentifierPart c.toNat := by
  unfold isWord at word
  split at word
  all_goals first
    | rfl
    | cases word

namespace Lexeme

/-- The token at the front of `c :: rest` and its length, by the character it starts with. -/
inductive TokenAt (endsStatements : Bool) (c : Char) (rest : List Char) :
    TokenKind → Nat → Prop where
  | lineEnd (ended : isLineEnd c.toNat = true) (shown : endsStatements = true) :
      TokenAt endsStatements c rest .newline (lineEndLength (c :: rest))
  | word (started : isIdentifierStart c.toNat = true) :
      TokenAt endsStatements c rest
        (.ofWord (String.ofList ((c :: rest).take (wordLength (c :: rest)))))
        (wordLength (c :: rest))
  | number (digit : isDigit c.toNat = true) :
      TokenAt endsStatements c rest (.literal (Number.leading (c :: rest)).1)
        (Number.leading (c :: rest)).2
  | string (extent : StringLiteral.Extent) (quote : c = '\'' ∨ c = '"')
      (found : StringLiteral.leading c (c :: rest) = some extent) :
      TokenAt endsStatements c rest
        (.literal (if extent.interpolated then .interpolated else .string)) extent.length
  | punctuation (kind : TokenKind) (length : Nat)
      (found : punctuation? (c :: rest) = some (kind, length)) :
      TokenAt endsStatements c rest kind length

/-- What is passed over at the front of `c :: rest` and its length, by the character it starts
with. -/
inductive GapAt (atStart endsStatements : Bool) (c : Char) (rest : List Char) : Nat → Prop where
  | blanks (blank : isBlank c.toNat = true) :
      GapAt atStart endsStatements c rest (Number.runLength (fun b => isBlank b.toNat) (c :: rest))
  | lineEnd (ended : isLineEnd c.toNat = true) (hidden : endsStatements = false) :
      GapAt atStart endsStatements c rest (lineEndLength (c :: rest))
  | lineComment (slash : c = '/') (second : rest.head? = some '/') :
      GapAt atStart endsStatements c rest (lineLength (c :: rest))
  | blockComment (length : Nat) (slash : c = '/') (star : rest.head? = some '*')
      (closed : commentRest (rest.drop 1) = some length) : GapAt atStart endsStatements c rest
      (length + 2)
  | firstLine (hash : c = '#') (mark : rest.head? = some '!') (start : atStart = true) :
      GapAt atStart endsStatements c rest (lineLength (c :: rest))
  | byteOrderMark (mark : c = '\ufeff') (start : atStart = true) :
      GapAt atStart endsStatements c rest 1
  | continuation (backslash : c = '\\') (spaced : (Cursor.ofText rest).blankToLineEnd = true) :
      GapAt atStart endsStatements c rest
        (1 + lineLength rest + lineEndLength (rest.drop (lineLength rest)))

/-- A token or something to pass over is at the front of `c :: rest`. -/
def LexemeAt (atStart endsStatements : Bool) (c : Char) (rest : List Char) : Lexeme → Prop
  | .token kind length => TokenAt endsStatements c rest kind length
  | .gap length => GapAt atStart endsStatements c rest length

variable {atStart endsStatements : Bool} {c : Char} {rest : List Char} {kind : TokenKind}
  {length : Nat}

/-- The scanner decides by the first characters, one kind of lexeme after another. -/
theorem lexemeAt_of_leading {lexeme : Lexeme}
    (found : leading atStart endsStatements c rest = .ok lexeme) :
    LexemeAt atStart endsStatements c rest lexeme := by
  unfold leading at found
  dsimp only at found
  by_cases blank : isBlank c.toNat = true
  · rw [if_pos blank] at found
    cases found
    exact GapAt.blanks blank
  rw [if_neg blank] at found
  by_cases ended : isLineEnd c.toNat = true
  · rw [if_pos ended] at found
    cases shown : endsStatements with
    | true =>
      rw [shown] at found
      cases found
      exact TokenAt.lineEnd ended rfl
    | false =>
      rw [shown] at found
      cases found
      exact GapAt.lineEnd ended rfl
  rw [if_neg ended] at found
  by_cases started : isIdentifierStart c.toNat = true
  · rw [if_pos started] at found
    cases found
    exact TokenAt.word started
  rw [if_neg started] at found
  by_cases digit : isDigit c.toNat = true
  · rw [if_pos digit] at found
    cases found
    exact TokenAt.number digit
  rw [if_neg digit] at found
  by_cases quote : c = '\'' ∨ c = '"'
  · rw [if_pos quote, quoted] at found
    cases inside : StringLiteral.leading c (c :: rest) with
    | none =>
      rw [inside] at found
      cases found
    | some extent =>
      rw [inside] at found
      cases found
      exact TokenAt.string extent quote inside
  rw [if_neg quote] at found
  by_cases slashes : c = '/' ∧ rest.head? = some '/'
  · rw [if_pos slashes] at found
    cases found
    exact GapAt.lineComment slashes.1 slashes.2
  rw [if_neg slashes] at found
  by_cases star : c = '/' ∧ rest.head? = some '*'
  · rw [if_pos star] at found
    cases closed : commentRest (rest.drop 1) with
    | none =>
      rw [closed] at found
      cases found
    | some inner =>
      rw [closed] at found
      cases found
      exact GapAt.blockComment inner star.1 star.2 closed
  rw [if_neg star] at found
  by_cases hash : c = '#' ∧ rest.head? = some '!'
  · rw [if_pos hash] at found
    by_cases start : atStart = true
    · rw [if_pos start] at found
      cases found
      exact GapAt.firstLine hash.1 hash.2 start
    · rw [if_neg start] at found
      cases found
  rw [if_neg hash] at found
  by_cases mark : c = '\ufeff' ∧ atStart = true
  · rw [if_pos mark] at found
    cases found
    exact GapAt.byteOrderMark mark.1 mark.2
  rw [if_neg mark] at found
  by_cases continued : c = '\\' ∧ (Cursor.ofText rest).blankToLineEnd = true
  · rw [if_pos continued] at found
    cases found
    exact GapAt.continuation continued.1 continued.2
  rw [if_neg continued] at found
  cases shape : punctuation? (c :: rest) with
  | none =>
    rw [shape] at found
    cases found
  | some mark =>
    rw [shape] at found
    cases found
    exact TokenAt.punctuation _ _ shape

theorem tokenAt_of_leading
    (found : leading atStart endsStatements c rest = .ok (.token kind length)) :
    TokenAt endsStatements c rest kind length :=
  lexemeAt_of_leading found

theorem gapAt_of_leading (found : leading atStart endsStatements c rest = .ok (.gap length)) :
    GapAt atStart endsStatements c rest length :=
  lexemeAt_of_leading found

/-- The characters that punctuation starts with. -/
def punctuationHeads : List Char :=
  ['?', '-', '+', '(', ')', '[', ']', '\x7b', '\x7d', ';', ',', '.', '=', '<', '>', '*']

theorem punctuation?_head (found : punctuation? (c :: rest) = some (kind, length)) :
    c ∈ punctuationHeads := by
  unfold punctuation? at found
  split at found <;> first
    | (rename_i shape; cases shape; decide)
    | cases found

theorem leading_of_punctuation (found : punctuation? (c :: rest) = some (kind, length)) :
    leading atStart endsStatements c rest = .ok (.token kind length) := by
  have head := punctuation?_head found
  simp only [punctuationHeads, List.mem_cons, List.not_mem_nil, or_false] at head
  unfold leading
  dsimp only
  rw [found]
  rcases head with
    rfl | rfl | rfl | rfl | rfl | rfl | rfl | rfl | rfl | rfl | rfl | rfl | rfl | rfl | rfl | rfl
      <;> rfl

theorem not_blank_of_identifierStart {n : Nat} (started : isIdentifierStart n = true) :
    isBlank n = false ∧ isLineEnd n = false := by
  simp only [isIdentifierStart, isLetter, isBlank, isLineEnd, Bool.or_eq_true, Bool.and_eq_true,
    decide_eq_true_eq, beq_iff_eq, Bool.or_eq_false_iff, beq_eq_false_iff_ne] at started ⊢
  omega

theorem not_word_of_digit {n : Nat} (digit : isDigit n = true) :
    isBlank n = false ∧ isLineEnd n = false ∧ isIdentifierStart n = false := by
  simp only [isDigit, isIdentifierStart, isLetter, isBlank, isLineEnd, Bool.or_eq_false_iff,
    Bool.and_eq_true, Bool.and_eq_false_iff, decide_eq_true_eq, decide_eq_false_iff_not,
    beq_eq_false_iff_ne] at digit ⊢
  omega

theorem not_whiteSpace_of_identifierStart {n : Nat} (started : isIdentifierStart n = true) :
    isWhiteSpace n = false := by
  simp only [isIdentifierStart, isLetter, isWhiteSpace, Bool.or_eq_true, Bool.and_eq_true,
    decide_eq_true_eq, beq_iff_eq, Bool.or_eq_false_iff, Bool.and_eq_false_iff,
    decide_eq_false_iff_not, beq_eq_false_iff_ne] at started ⊢
  omega

theorem not_whiteSpace_of_digit {n : Nat} (digit : isDigit n = true) : isWhiteSpace n = false := by
  simp only [isDigit, isWhiteSpace, Bool.and_eq_true, decide_eq_true_eq, Bool.or_eq_false_iff,
    Bool.and_eq_false_iff, decide_eq_false_iff_not, beq_eq_false_iff_ne] at digit ⊢
  omega

theorem not_blank_of_lineEnd {n : Nat} (ended : isLineEnd n = true) : isBlank n = false := by
  simp only [isBlank, isLineEnd, Bool.or_eq_true, Bool.or_eq_false_iff, beq_iff_eq,
    beq_eq_false_iff_ne] at ended ⊢
  omega

theorem leading_of_tokenAt (found : TokenAt endsStatements c rest kind length) :
    leading atStart endsStatements c rest = .ok (.token kind length) := by
  cases found with
  | lineEnd ended shown =>
    simp only [leading, not_blank_of_lineEnd ended, ended, shown, Bool.false_eq_true, ↓reduceIte]
  | word started =>
    obtain ⟨blank, ended⟩ := not_blank_of_identifierStart started
    simp only [leading, blank, ended, started, Bool.false_eq_true, ↓reduceIte]
  | number digit =>
    obtain ⟨blank, ended, word⟩ := not_word_of_digit digit
    simp only [leading, blank, ended, word, digit, Bool.false_eq_true, ↓reduceIte]
  | string extent quote inside =>
    rcases quote with rfl | rfl
    · have shape : quoted '\'' ('\'' :: rest) =
          .ok (.token (.literal (if extent.interpolated then .interpolated else .string))
            extent.length) := by
        simp only [quoted, inside]
      exact shape
    · have shape : quoted '"' ('"' :: rest) =
          .ok (.token (.literal (if extent.interpolated then .interpolated else .string))
            extent.length) := by
        simp only [quoted, inside]
      exact shape
  | punctuation _ _ inside => exact leading_of_punctuation inside

theorem TokenAt.not_blank (found : TokenAt endsStatements c rest kind length) :
    isBlank c.toNat = false := by
  cases found with
  | lineEnd ended => exact not_blank_of_lineEnd ended
  | word started => exact (not_blank_of_identifierStart started).1
  | number digit => exact (not_word_of_digit digit).1
  | string _ quote => rcases quote with rfl | rfl <;> rfl
  | punctuation _ _ inside =>
    have known : punctuationHeads.all (fun d => !isBlank d.toNat) = true := by decide
    simpa using List.all_eq_true.mp known c (punctuation?_head inside)

/-! ## Lengths -/

theorem lineEndLength_cons (ended : isLineEnd c.toNat = true) :
    lineEndLength (c :: rest) = if c = '\r' ∧ rest.head? = some '\n' then 2 else 1 := by
  unfold lineEndLength
  split
  · rename_i shape
    cases shape
    rw [if_pos ⟨rfl, rfl⟩]
  · rename_i first tail other shape
    cases shape
    rw [if_pos ended, if_neg]
    rintro ⟨rfl, feed⟩
    cases rest with
    | nil => cases feed
    | cons d rest =>
      rw [List.head?_cons, Option.some.injEq] at feed
      subst feed
      exact other rest rfl rfl
  · rename_i shape
    cases shape

theorem punctuation?_length (found : punctuation? (c :: rest) = some (kind, length)) :
    0 < length ∧ length ≤ (c :: rest).length := by
  unfold punctuation? at found
  split at found <;> first
    | (rename_i shape; cases shape; cases found; simp)
    | cases found

theorem numeral_of_digit {n : Char} (digit : isDigit n.toNat = true) :
    Number.isNumeral n = true := by
  simp [Number.isNumeral, digit]

theorem number_length (digit : isDigit c.toNat = true) :
    0 < (Number.leading (c :: rest)).2 ∧ (Number.leading (c :: rest)).2 ≤ (c :: rest).length := by
  by_cases hex : Number.hexLength (c :: rest) = 0
  · obtain ⟨digits, digitsDef⟩ : ∃ digits, Number.runLength Number.isNumeral (c :: rest) = digits :=
      ⟨_, rfl⟩
    obtain ⟨fraction, fractionDef⟩ : ∃ fraction,
      Number.fractionLength ((c :: rest).drop digits) = fraction :=
      ⟨_, rfl⟩
    obtain ⟨exponent, exponentDef⟩ : ∃ exponent,
      Number.exponentLength ((c :: rest).drop (digits + fraction)) =
      exponent := ⟨_, rfl⟩
    have some : 0 < digits := by
      rw [← digitsDef, Number.runLength_cons, if_pos (numeral_of_digit digit)]
      omega
    have digitsLe := Number.runLength_le Number.isNumeral (c :: rest)
    have fractionLe := Number.fractionLength_le ((c :: rest).drop digits)
    have exponentLe := Number.exponentLength_le ((c :: rest).drop (digits + fraction))
    have suffixLe := Number.decimalSuffix_le (fraction ≠ 0 ∨ exponent ≠ 0)
      ((c :: rest).drop (digits + fraction + exponent))
    rw [Number.leading_decimal hex digitsDef fractionDef exponentDef]
    simp only [List.length_drop] at fractionLe exponentLe suffixLe
    constructor
    · dsimp only
      omega
    · dsimp only
      omega
  · have hexLe := Number.hexLength_le (c :: rest)
    have suffixLe := Number.letterLength_le Number.integerSuffix
      ((c :: rest).drop (Number.hexLength (c :: rest)))
    simp only [List.length_drop] at suffixLe
    simp only [Number.leading, ne_eq, hex, not_false_eq_true, ↓reduceIte]
    omega

/-- A number is an integer or has a fraction, an exponent or a letter of its own. -/
theorem number_form (text : List Char) :
    (Number.leading text).1 = .integer ∨ (Number.leading text).1 = .floating := by
  unfold Number.leading
  dsimp only
  repeat' split
  all_goals simp

theorem number_goesOn (text shown : List Char) (d : Char) :
    TokenKind.goesOn (.literal (Number.leading text).1) shown d = Number.continues d := by
  rcases number_form text with integer | floating
  · rw [integer]
    rfl
  · rw [floating]
    rfl

theorem wordLength_cons (started : isIdentifierStart c.toNat = true) :
    wordLength (c :: rest) = wordLength rest + 1 := by
  unfold wordLength
  rw [Number.runLength_cons, if_pos (by simp [isIdentifierPart, started])]

theorem TokenAt.length_bounds (found : TokenAt endsStatements c rest kind length) :
    0 < length ∧ length ≤ (c :: rest).length := by
  cases found with
  | lineEnd ended shown =>
    rw [lineEndLength_cons ended]
    split
    · rename_i pair
      cases rest with
      | nil => simp at pair
      | cons d rest => simp
    · simp
  | word started =>
    have run := Number.runLength_le (fun c => isIdentifierPart c.toNat) rest
    rw [wordLength_cons started, List.length_cons]
    unfold wordLength
    omega
  | number digit => exact number_length digit
  | string extent quote inside =>
    unfold StringLiteral.leading at inside
    obtain ⟨inner, body, rfl⟩ := Option.map_eq_some_iff.mp inside
    have bounds := StringLiteral.body_length body
    simp only [List.length_drop] at bounds ⊢
    split at bounds <;> omega
  | punctuation _ _ inside => exact punctuation?_length inside

/-! ## What follows a token -/

theorem punctuation?_cut (tail : List Char)
    (found : punctuation? (c :: rest) = some (kind, length)) :
    punctuation? (c :: (rest.take (length - 1) ++ tail)) = some (kind, length) := by
  unfold punctuation? at found
  split at found <;> first
    | (rename_i shape; cases shape; cases found; rfl)
    | cases found

theorem take_pos (some : 0 < length) : (c :: rest).take length = c :: rest.take (length - 1) := by
  obtain ⟨k, rfl⟩ := Nat.exists_eq_succ_of_ne_zero (Nat.ne_of_gt some)
  rfl

/-- A line end does not depend on what follows it, unless a line feed follows a carriage return. -/
theorem lineEndLength_cut (ended : isLineEnd c.toNat = true) {tail : List Char}
    (stops : stopsAt (TokenKind.newline.goesOn ((c :: rest).take (lineEndLength (c :: rest))))
      tail) :
    lineEndLength (c :: (rest.take (lineEndLength (c :: rest) - 1) ++ tail)) =
      lineEndLength (c :: rest) := by
  rw [lineEndLength_cons ended, lineEndLength_cons ended]
  by_cases pair : c = '\r' ∧ rest.head? = some '\n'
  · obtain ⟨rfl, feed⟩ := pair
    obtain ⟨more, rfl⟩ := List.head?_eq_some_iff.mp feed
    rfl
  · simp only [pair, ↓reduceIte, Nat.sub_self, List.take_zero, List.nil_append]
    rw [if_neg]
    rintro ⟨rfl, feed⟩
    have one : lineEndLength ('\r' :: rest) = 1 := by
      rw [lineEndLength_cons ended, if_neg pair]
    have differs := stops '\n' feed
    simp [one, TokenKind.goesOn] at differs

/-- A token does not depend on what follows it, unless the next character goes on with it. -/
theorem TokenAt.cut (found : TokenAt endsStatements c rest kind length) {tail : List Char}
    {shown : Bool} (stops : stopsAt (kind.goesOn ((c :: rest).take length)) tail)
    (visible : kind = .newline → shown = true) :
    TokenAt shown c (rest.take (length - 1) ++ tail) kind length := by
  have bounds := found.length_bounds
  have cutText : (c :: rest).take length = c :: rest.take (length - 1) := take_pos bounds.1
  cases found with
  | lineEnd ended _ =>
    have again : TokenAt shown c (rest.take (lineEndLength (c :: rest) - 1) ++ tail) .newline
        (lineEndLength (c :: (rest.take (lineEndLength (c :: rest) - 1) ++ tail))) :=
      .lineEnd ended (visible rfl)
    rwa [lineEndLength_cut ended stops] at again
  | word started =>
    have part : stopsAt (fun d => isIdentifierPart d.toNat) tail := by
      intro d first
      rw [← stops d first, TokenKind.goesOn_of_isWord (TokenKind.ofWord_isWord _)]
    have same : wordLength (c :: (rest.take (wordLength (c :: rest) - 1) ++ tail)) =
        wordLength (c :: rest) := by
      rw [← List.cons_append, ← cutText]
      exact Number.runLength_cut part (Nat.le_refl _)
    have again : TokenAt shown c (rest.take (wordLength (c :: rest) - 1) ++ tail) _ _ :=
      .word started
    rw [same, ← List.cons_append, ← cutText, StringLiteral.take_cut tail (Nat.le_refl _) bounds.2]
      at again
    exact again
  | number digit =>
    have part : stopsAt Number.continues tail := by
      intro d first
      rw [← stops d first]
      exact (number_goesOn _ _ _).symm
    have same := Number.leading_cut part (c :: rest)
    rw [cutText, List.cons_append] at same
    have again : TokenAt shown c (rest.take ((Number.leading (c :: rest)).2 - 1) ++ tail) _ _ :=
      .number digit
    rwa [same] at again
  | string extent quote inside =>
    have part : stopsAt (· == c) tail := by
      refine stops.mono ?_
      intro d same
      rw [beq_iff_eq.mp same]
      rcases quote with rfl | rfl
      · cases extent.interpolated <;> rfl
      · cases extent.interpolated <;> rfl
    have same := StringLiteral.leading_cut part inside
    rw [cutText, List.cons_append] at same
    exact .string extent quote same
  | punctuation _ _ inside => exact .punctuation _ _ (punctuation?_cut tail inside)

end Lexeme

end GroovyTidy
