import GroovyTidy.Proofs.Text.Positions
import GroovyTidy.Proofs.Token.Gap
import GroovyTidy.Proofs.Token.LiteralUnits
import GroovyTidy.Proofs.Token.Spelling

set_option autoImplicit false

/-!
The tokens of a source by byte offsets. A scanner that keeps the offset at which it stands cuts the
source there, moves on by a number of bytes and looks lines up, each of which is an operation that
can fail. None of them does on any source, and the tokens or the error are those that are found
character by character.
-/
namespace GroovyTidy

namespace Text

/-- The byte offset of the first character with a property. -/
def findChar? (test : Char → Bool) : List Char → Option Nat
  | [] => none
  | c :: rest => if test c then some 0 else (findChar? test rest).map (c.utf8Size + ·)

/-- The byte offset at which a pattern first occurs. -/
def findText? (pattern : List Char) : List Char → Option Nat
  | [] => none
  | c :: rest =>
    if pattern.isPrefixOf (c :: rest) then some 0 else (findText? pattern rest).map (c.utf8Size + ·)

/-- The offset so many bytes further, if no character is cut in two there. -/
def bump? (text : List Char) (offset bytes : Nat) : Option Nat :=
  (sliceFrom? text (offset + bytes)).map fun _ => offset + bytes

end Text

open Text

namespace Lexeme

variable (source : List Char)

/-- The offset after a word, from the one after its first character on. -/
def wordEnd? (offset : Nat) : Option Nat :=
  (sliceFrom? source offset).bind fun rest =>
    bump? source offset ((findChar? (fun c => !isIdentifierPart c.toNat) rest).getD
      (byteLength rest))

/-- The offset after a comment, if it is closed, from the one after its opening on. -/
def commentEnd? (offset : Nat) : Option (Option Nat) :=
  (sliceFrom? source offset).bind fun rest =>
    (findText? ['*', '/'] rest).elim (some none) fun found =>
      (bump? source offset (found + 2)).map some

/-- The offset after a line continuation, if it is one, from the one after the backslash on. -/
def continuationEnd? (offset : Nat) : Option (Option Nat) :=
  (sliceFrom? source offset).bind fun rest =>
    if (Cursor.ofText rest).blankToLineEnd then
      ((findChar? (fun c => isLineEnd c.toNat) rest).elim (some (byteLength rest)) fun found =>
        (sliceFrom? rest found).map fun line =>
          found + if ['\r', '\n'].isPrefixOf line then 2 else 1).bind
          fun bytes => (bump? source offset bytes).map some
    else some none

/-- The offset after a string literal and whether it interpolates, if it is closed, from the one
after its first quote on. -/
def literalEnd? (quote : Char) (offset : Nat) : Option (Option (Nat × Bool)) :=
  (sliceFrom? source offset).bind fun rest =>
    (StringLiteral.leadingUnits? quote rest).bind fun found =>
      found.elim (some none) fun extent => (bump? source offset extent.1).map fun stop =>
        some (stop, extent.2)

/-- The kind of token, unless it is a gap, that stands at an offset, and the offset at which it
ends. -/
def leadingBytes? (offset : Nat) (endsStatements : Bool) (c : Char) (rest : List Char) :
    Option (Except Problem (Option TokenKind × Nat)) :=
  let text := c :: rest
  let matched (kind : Option TokenKind) (length : Nat) : Option
      (Except Problem (Option TokenKind × Nat)) :=
    some (.ok (kind, offset + byteLength (text.take length)))
  if isBlank c.toNat then matched none (Number.runLength (fun b => isBlank b.toNat) text)
  else if isLineEnd c.toNat then
    matched (if endsStatements then some .newline else none) (lineEndLength text)
  else if isIdentifierStart c.toNat then
    (wordEnd? source (offset + c.utf8Size)).bind fun stop =>
      (slice? source offset stop).map fun word => .ok (some (.ofWord (String.ofList word)), stop)
  else if isDigit c.toNat then
    matched (some (.literal (Number.leading text).1)) (Number.leading text).2
  else if c = '\'' ∨ c = '"' then
    (literalEnd? source c (offset + c.utf8Size)).map fun found =>
      found.elim (.error .unterminatedString) fun extent =>
        .ok (some (.literal (if extent.2 then .interpolated else .string)), extent.1)
  else if c = '/' ∧ rest.head? = some '/' then matched none (lineLength text)
  else if c = '/' ∧ rest.head? = some '*' then
    (commentEnd? source (offset + byteLength ['/', '*'])).map fun found =>
      found.elim (.error .unterminatedComment) fun stop => .ok (none, stop)
  else if c = '#' ∧ rest.head? = some '!' then
    if offset = 0 then matched none (lineLength text) else some (.error .misplacedShebang)
  else if c = '\ufeff' ∧ offset = 0 then matched none 1
  else if c = '\\' then
    (continuationEnd? source (offset + c.utf8Size)).map fun found =>
      found.elim (.error (.unexpectedCharacter c)) fun stop => .ok (none, stop)
  else
    match punctuation? text with
    | some (kind, length) => matched (some kind) length
    | none => some (.error (.unexpectedCharacter c))

end Lexeme

namespace Lexeme

/-- The kind of a token, and none for a gap. -/
def kind? : Lexeme → Option TokenKind
  | .token kind _ => some kind
  | .gap _ => none

/-- The kind of a lexeme at the front of a text, and the byte offset at which it ends if the text
starts at another. -/
def endingAt (offset : Nat) (text : List Char) (lexeme : Lexeme) : Option TokenKind × Nat :=
  (lexeme.kind?, offset + byteLength (text.take lexeme.length))

end Lexeme

/-- The position of an offset, for which its line is looked up among those that start in the bytes
of the source. -/
def positionAt? (source : List Char) (offset : Nat) : Option Position :=
  locate? source (lineStarts (toBytes (String.ofList source))) offset

/-- The tokens from an offset on. A lexeme that does not move the scanner on would be a failure,
too. -/
def tokensAt? (source : List Char) (offset : Nat) (opened : List Delimiter) :
    Option (Except SyntaxError (List Token)) :=
  match sliceFrom? source offset with
  | none => none
  | some [] =>
    (positionAt? source offset).map fun position =>
      .ok [.place .endOfInput "" offset position.line position.column]
  | some (c :: rest) =>
    match Lexeme.leadingBytes? source offset (endsStatements opened) c rest with
    | none => none
    | some (.error problem) =>
      (positionAt? source offset).map fun position =>
        .error { problem, offset, line := position.line, column := position.column }
    | some (.ok (kind, stop)) =>
      if offset < stop ∧ stop ≤ byteLength source then
        match kind with
        | none => tokensAt? source stop opened
        | some kind =>
          (slice? source offset stop).bind fun text =>
            (positionAt? source offset).bind fun position =>
              (tokensAt? source stop (openAfter opened kind)).map fun result =>
                result.map (.place kind (String.ofList text) offset position.line
                  position.column :: ·)
      else none
termination_by byteLength source - offset

/-! ## Searching -/

theorem findChar?_cases (test : Char → Bool) (text : List Char) :
    findChar? test text = none ∧ Number.runLength (fun c => !test c) text = text.length ∨
      ∃ front c back, text = front ++ c :: back ∧ test c = true ∧
        Number.runLength (fun c => !test c) text = front.length ∧
        findChar? test text = some (byteLength front) := by
  induction text with
  | nil => exact .inl ⟨rfl, rfl⟩
  | cons c text ih =>
    rw [findChar?, Number.runLength_cons]
    cases here : test c with
    | true => exact .inr ⟨[], c, text, rfl, here, rfl, rfl⟩
    | false =>
      rcases ih with ⟨none, run⟩ | ⟨front, d, back, rfl, found, run, offset⟩
      · exact .inl ⟨by simp [none], by simp [run]⟩
      · exact .inr ⟨c :: front, d, back, rfl, found, by simp [run], by simp [offset]⟩

theorem findText?_eq (text : List Char) :
    (findText? ['*', '/'] text).map (· + 2) =
      (Lexeme.commentRest text).map fun length => byteLength (text.take length) := by
  fun_induction Lexeme.commentRest text with
  | case1 => rfl
  | case2 => rfl
  | case3 c rest other ih =>
    have absent : ['*', '/'].isPrefixOf (c :: rest) = false := by
      cases rest with
      | nil => simp [List.isPrefixOf]
      | cons d rest =>
        by_contra found
        simp only [List.isPrefixOf, Bool.and_true, Bool.not_eq_false, Bool.and_eq_true, beq_iff_eq]
          at found
        exact other rest found.1.symm (by rw [found.2])
    rw [findText?, if_neg (Bool.eq_false_iff.mp absent), Option.map_map, Option.map_map]
    have further := congrArg (Option.map (c.utf8Size + ·)) ih
    rw [Option.map_map, Option.map_map] at further
    exact further

namespace Lexeme

section

variable {source rest : List Char} {offset : Nat} (cut : sliceFrom? source offset = some rest)
include cut

theorem bump?_take (length : Nat) :
    bump? source offset (byteLength (rest.take length)) =
      some (offset + byteLength (rest.take length)) := by
  rw [← List.take_append_drop length rest] at cut
  rw [bump?, sliceFrom?_add cut, Option.map_some]

theorem slice?_take (length : Nat) :
    slice? source offset (offset + byteLength (rest.take length)) = some (rest.take length) := by
  rw [← List.take_append_drop length rest] at cut
  exact slice?_add cut

theorem wordEnd?_eq :
    wordEnd? source offset = some (offset + byteLength (rest.take (wordLength rest))) := by
  have bytes : (findChar? (fun c => !isIdentifierPart c.toNat) rest).getD (byteLength rest) =
      byteLength (rest.take (wordLength rest)) := by
    have cases := findChar?_cases (fun c => !isIdentifierPart c.toNat) rest
    simp only [Bool.not_not] at cases
    rw [wordLength]
    rcases cases with ⟨none, run⟩ | ⟨front, c, back, rfl, -, run, found⟩
    · rw [none, run, List.take_length, Option.getD_none]
    · rw [found, run, List.take_left, Option.getD_some]
  rw [wordEnd?, cut, Option.bind_some, bytes, bump?_take cut]

theorem commentEnd?_eq : commentEnd? source offset =
    some ((commentRest rest).map fun length => offset + byteLength (rest.take length)) := by
  have found := findText?_eq rest
  rw [commentEnd?, cut, Option.bind_some]
  cases known : commentRest rest with
  | none =>
    rw [known, Option.map_none, Option.map_eq_none_iff] at found
    rw [found]
    rfl
  | some length =>
    rw [known, Option.map_some] at found
    obtain ⟨start, first, ends⟩ := Option.map_eq_some_iff.mp found
    rw [first, Option.elim_some, ends, bump?_take cut]
    rfl

omit cut in
/-- The bytes of a line end are as many as its characters. -/
theorem byteLength_lineEnd {c : Char} (ended : isLineEnd c.toNat = true) (rest : List Char) :
    byteLength ((c :: rest).take (lineEndLength (c :: rest))) =
      if ['\r', '\n'].isPrefixOf (c :: rest) then 2 else 1 := by
  rw [lineEndLength_cons ended]
  rcases (isLineEnd_iff c).mp ended with rfl | rfl
  · rfl
  · cases rest with
    | nil => rfl
    | cons d rest =>
      by_cases feed : d = '\n'
      · subst feed
        rfl
      · have one : '\r'.utf8Size = 1 := rfl
        simp [List.isPrefixOf, feed, Ne.symm feed, one]

theorem continuationEnd?_eq : continuationEnd? source offset =
    some (if (Cursor.ofText rest).blankToLineEnd then
      some (offset +
        byteLength (rest.take (lineLength rest + lineEndLength (rest.drop (lineLength rest)))))
      else none) := by
  rw [continuationEnd?, cut, Option.bind_some]
  by_cases blank : (Cursor.ofText rest).blankToLineEnd = true
  · rw [if_pos blank, if_pos blank, lineLength]
    rcases findChar?_cases (fun c => isLineEnd c.toNat) rest with
      ⟨none, run⟩ | ⟨front, c, back, rfl, ended, run, found⟩
    · have whole := bump?_take cut rest.length
      rw [List.take_length] at whole
      rw [none, Option.elim_none, Option.bind_some, whole, run, List.drop_length, lineEndLength,
        Nat.add_zero, List.take_length]
      rfl
    · have tail : sliceFrom? (front ++ c :: back) (byteLength front) = some (c :: back) :=
        sliceFrom?_eq_some_iff.mpr ⟨front, rfl, rfl⟩
      have taken := bump?_take cut (front.length + lineEndLength (c :: back))
      rw [List.take_length_add_append, byteLength_append, byteLength_lineEnd ended] at taken
      rw [found, Option.elim_some, tail, Option.map_some, Option.bind_some, run,
        List.drop_left, taken, List.take_length_add_append, byteLength_append,
        byteLength_lineEnd ended]
      rfl
  · rw [if_neg blank, if_neg blank]

theorem literalEnd?_eq {quote : Char} (quoted : quote = '\'' ∨ quote = '"') :
    literalEnd? source quote offset =
    some ((StringLiteral.leading quote (quote :: rest)).map fun extent =>
      (offset + byteLength (rest.take (extent.length - 1)), extent.interpolated)) := by
  have ascii : quote.toNat < 0x80 := by rcases quoted with rfl | rfl <;> decide
  have notEscape : quote ≠ '\\' := by rcases quoted with rfl | rfl <;> decide
  rw [literalEnd?, cut, Option.bind_some, StringLiteral.leadingUnits?_eq ascii notEscape,
    Option.bind_some]
  cases StringLiteral.leading quote (quote :: rest) with
  | none => rfl
  | some extent =>
    rw [Option.map_some, Option.elim_some, bump?_take cut]
    rfl

end

/-! ## One lexeme -/

section

variable {source rest : List Char} {c : Char} {offset : Nat}

/-- A word is cut out with the offset after it. -/
theorem wordEnd?_slice (cut : sliceFrom? source offset = some (c :: rest))
    (started : isIdentifierStart c.toNat = true) :
    ((wordEnd? source (offset + c.utf8Size)).bind fun stop =>
      (slice? source offset stop).map fun word =>
        (.ok (some (.ofWord (String.ofList word)), stop) : Except Problem
          (Option TokenKind × Nat))) =
      some (.ok (endingAt offset (c :: rest)
        (.token (.ofWord (String.ofList ((c :: rest).take (wordLength (c :: rest)))))
          (wordLength (c :: rest))))) := by
  have word : (c :: rest).take (wordLength (c :: rest)) = c :: rest.take (wordLength rest) := by
    rw [wordLength_cons started, List.take_succ_cons]
  have stop : offset + c.utf8Size + byteLength (rest.take (wordLength rest)) =
      offset + byteLength ((c :: rest).take (wordLength (c :: rest))) := by
    rw [word, byteLength_cons, Nat.add_assoc]
  rw [wordEnd?_eq (sliceFrom?_next cut), Option.bind_some, stop, slice?_take cut]
  rfl

theorem literalEnd?_quoted (cut : sliceFrom? source offset = some (c :: rest))
    (quote : c = '\'' ∨ c = '"') :
    ((literalEnd? source c (offset + c.utf8Size)).map fun found =>
      found.elim (Except.error Problem.unterminatedString) fun extent =>
        .ok (some (TokenKind.literal (if extent.2 then .interpolated else .string)), extent.1)) =
      some ((quoted c (c :: rest)).map (endingAt offset (c :: rest))) := by
  rw [literalEnd?_eq (sliceFrom?_next cut) quote, Option.map_some, Lexeme.quoted]
  cases found : StringLiteral.leading c (c :: rest) with
  | none => rfl
  | some extent =>
    have token : TokenAt true c rest _ extent.length := .string extent quote found
    simp only [Option.map_some, Option.elim_some, Except.map, endingAt, kind?, length,
      take_pos token.length_bounds.1, byteLength_cons, Nat.add_assoc]

/-- The offset after a comment, from that of its opening on. -/
theorem commentEnd?_opened (cut : sliceFrom? source offset = some ('/' :: '*' :: rest)) :
    commentEnd? source (offset + byteLength ['/', '*']) =
      some ((commentRest rest).map fun length =>
        offset + byteLength (('/' :: '*' :: rest).take (length + 2))) := by
  have opened : sliceFrom? source (offset + byteLength ['/', '*']) = some rest := sliceFrom?_add cut
  rw [commentEnd?_eq opened]
  congr 2
  funext length
  simp only [List.take_succ_cons, byteLength_cons, byteLength_nil, Nat.add_assoc, Nat.zero_add]

theorem continuationEnd?_opened (cut : sliceFrom? source offset = some ('\\' :: rest)) :
    continuationEnd? source (offset + '\\'.utf8Size) =
      some (if (Cursor.ofText rest).blankToLineEnd then
        some (offset + byteLength (('\\' :: rest).take
          (1 + lineLength rest + lineEndLength (rest.drop (lineLength rest))))) else none) := by
  have whole : 1 + lineLength rest + lineEndLength (rest.drop (lineLength rest)) =
      lineLength rest + lineEndLength (rest.drop (lineLength rest)) + 1 := by omega
  rw [continuationEnd?_eq (sliceFrom?_next cut), whole, List.take_succ_cons, byteLength_cons,
    Nat.add_assoc]

end

/-- The lexeme at an offset is found, and it ends between characters. -/
theorem leadingBytes?_eq {source rest : List Char} {c : Char} {offset : Nat}
    (cut : sliceFrom? source offset = some (c :: rest)) (ends : Bool) :
    leadingBytes? source offset ends c rest =
      some ((leading (offset == 0) ends c rest).map (endingAt offset (c :: rest))) := by
  unfold leadingBytes? leading
  dsimp only
  by_cases blank : isBlank c.toNat = true
  · rw [if_pos blank, if_pos blank]
    rfl
  rw [if_neg blank, if_neg blank]
  by_cases ended : isLineEnd c.toNat = true
  · rw [if_pos ended, if_pos ended]
    cases ends <;> rfl
  rw [if_neg ended, if_neg ended]
  by_cases started : isIdentifierStart c.toNat = true
  · rw [if_pos started, if_pos started]
    exact wordEnd?_slice cut started
  rw [if_neg started, if_neg started]
  by_cases digit : isDigit c.toNat = true
  · rw [if_pos digit, if_pos digit]
    rfl
  rw [if_neg digit, if_neg digit]
  by_cases quoted : c = '\'' ∨ c = '"'
  · rw [if_pos quoted, if_pos quoted]
    exact literalEnd?_quoted cut quoted
  rw [if_neg quoted, if_neg quoted]
  by_cases line : c = '/' ∧ rest.head? = some '/'
  · rw [if_pos line, if_pos line]
    rfl
  rw [if_neg line, if_neg line]
  by_cases comment : c = '/' ∧ rest.head? = some '*'
  · rw [if_pos comment, if_pos comment]
    obtain ⟨rfl, star⟩ := comment
    obtain ⟨more, rfl⟩ := List.head?_eq_some_iff.mp star
    rw [commentEnd?_opened cut, Option.map_some, List.drop_succ_cons, List.drop_zero]
    cases commentRest more <;> rfl
  rw [if_neg comment, if_neg comment]
  by_cases mark : c = '#' ∧ rest.head? = some '!'
  · rw [if_pos mark, if_pos mark]
    by_cases start : offset = 0
    · rw [if_pos start, if_pos (beq_iff_eq.mpr start)]
      rfl
    · rw [if_neg start, if_neg fun same => start (beq_iff_eq.mp same)]
      rfl
  rw [if_neg mark, if_neg mark]
  by_cases first : c = '\ufeff' ∧ offset = 0
  · rw [if_pos first, if_pos ⟨first.1, beq_iff_eq.mpr first.2⟩]
    rfl
  have later : ¬ (c = '\ufeff' ∧ (offset == 0) = true) :=
    fun both => first ⟨both.1, beq_iff_eq.mp both.2⟩
  rw [if_neg first, if_neg later]
  by_cases backslash : c = '\\'
  · subst backslash
    rw [if_pos rfl, continuationEnd?_opened cut, Option.map_some]
    by_cases spaced : (Cursor.ofText rest).blankToLineEnd = true
    · rw [if_pos spaced, if_pos ⟨rfl, spaced⟩]
      rfl
    · rw [if_neg spaced, if_neg fun both => spaced both.2]
      rfl
  · rw [if_neg backslash, if_neg fun both => backslash both.1]
    cases punctuation? (c :: rest) with
    | none => rfl
    | some found => rfl

theorem length_bounds_of_leading {atStart : Bool} {opened : List Delimiter} {c : Char}
    {rest : List Char} {lexeme : Lexeme}
    (found : leading atStart (endsStatements opened) c rest = .ok lexeme) :
    0 < lexeme.length ∧ lexeme.length ≤ (c :: rest).length := by
  cases lexeme with
  | token kind length => exact (tokenAt_of_leading found).length_bounds
  | gap length =>
    obtain ⟨item, after, shape, total, here⟩ := gapItem_of_leading found
    have filled := List.length_pos_iff.mpr here.ne_nil
    rw [Lexeme.length, shape, List.length_append]
    omega

end Lexeme

/-! ## The whole source -/

theorem positionAt?_eq (source : List Char) (offset : Nat) :
    positionAt? source offset = some ((LineIndex.ofText source).locate offset) :=
  locate?_lineStarts source offset

/-- From every offset between characters the tokens are found, or the error. -/
theorem tokensAt?_eq {source rest : List Char} {offset : Nat}
    (cut : sliceFrom? source offset = some rest) (opened : List Delimiter) :
    tokensAt? source offset opened = some (tokensFrom (.ofText source) offset opened 0 rest) := by
  induction lengthDef : rest.length using Nat.strongRecOn generalizing rest offset opened with
  | ind length ih =>
    rw [tokensAt?, cut]
    cases rest with
    | nil =>
      rw [positionAt?_eq]
      rfl
    | cons c rest =>
      dsimp only
      rw [Lexeme.leadingBytes?_eq cut, tokensFrom]
      cases found : Lexeme.leading (offset == 0) (endsStatements opened) c rest with
      | error problem =>
        simp only [Except.map, positionAt?_eq, Option.map_some]
        rfl
      | ok lexeme =>
        have bounds := Lexeme.length_bounds_of_leading found
        have stop : offset + byteLength ((c :: rest).take lexeme.length) =
            offset + c.utf8Size + byteLength (rest.take (lexeme.length - 1)) := by
          rw [Lexeme.take_pos bounds.1, byteLength_cons, Nat.add_assoc]
        have after : sliceFrom? source (offset + byteLength ((c :: rest).take lexeme.length)) =
            some (rest.drop (lexeme.length - 1)) := by
          rw [stop]
          have further := sliceFrom?_next cut
          rw [← List.take_append_drop (lexeme.length - 1) rest] at further
          exact sliceFrom?_add further
        have shorter : (rest.drop (lexeme.length - 1)).length < length := by
          rw [← lengthDef, List.length_drop, List.length_cons]
          omega
        have moves : offset < offset + byteLength ((c :: rest).take lexeme.length) ∧
            offset + byteLength ((c :: rest).take lexeme.length) ≤ byteLength source := by
          have total := byteLength_of_sliceFrom? after
          have positive := c.utf8Size_pos
          omega
        have later : ∀ opened,
            tokensAt? source (offset + byteLength ((c :: rest).take lexeme.length)) opened =
            some (tokensFrom (.ofText source) (offset + c.utf8Size) opened
              (lexeme.length - 1) rest) := by
          intro opened
          rw [tokensFrom_drop, ← stop]
          exact ih _ shorter after opened rfl
        cases lexeme with
        | gap length =>
          simp only [Except.map, Lexeme.endingAt, Lexeme.kind?]
          rw [if_pos moves]
          exact later opened
        | token kind length =>
          simp only [Except.map, Lexeme.endingAt, Lexeme.kind?]
          rw [if_pos moves, Lexeme.slice?_take cut, Option.bind_some, positionAt?_eq,
            Option.bind_some, later, Option.map_some, Lexeme.length]
          cases tokensFrom (.ofText source) (offset + c.utf8Size) (openAfter opened kind)
            (length - 1) rest <;> rfl

/-- On every source the scanner by byte offsets does what the scanner by characters does. -/
theorem tokensAt?_start (source : String) : tokensAt? source.toList 0 [] = some (tokenize source) :=
  tokensAt?_eq (sliceFrom?_zero source.toList) []

end GroovyTidy
