import GroovyTidy.Proofs.Text.Positions
import GroovyTidy.Proofs.Token.Joined

set_option autoImplicit false

/-!
A byte order mark in front of a source. The scanner passes over the mark, so the tokens and the
errors behind it are those of the source without it, three bytes further and, on the first line, one
column further. This fails for sources whose first line starts with `#!`, which is passed over only
at the very start of a source and refused behind the mark.
-/
namespace GroovyTidy

open Text Lexeme

/-- The token in the source with a byte order mark in front of it. -/
def Token.behindMark (token : Token) : Token :=
  { token with
    span := ⟨token.span.start + 3, token.span.stop + 3⟩
    column := if token.line = 1 then token.column + 1 else token.column }

/-- The error in the source with a byte order mark in front of it. -/
def SyntaxError.behindMark (error : SyntaxError) : SyntaxError :=
  { error with
    offset := error.offset + 3
    column := if error.line = 1 then error.column + 1 else error.column }

/-- What the scanner finds in the source with a byte order mark in front of it. -/
def behindMark (found : Except SyntaxError (List Token)) : Except SyntaxError (List Token) :=
  (found.map (List.map Token.behindMark)).mapError SyntaxError.behindMark

/-! ## Positions -/

/-- The mark closes no line, so it only takes a column of the first one. -/
theorem locate_behindMark (front rest : List Char) :
    (LineIndex.ofText ('\ufeff' :: (front ++ rest))).locate (byteLength front + 3) =
      ((LineIndex.ofText (front ++ rest)).locate (byteLength front)).later false := by
  have marked := locate_front ('\ufeff' :: front) rest
  rw [List.cons_append, byteLength_cons, Nat.add_comm, positionAfter, ← locate_front] at marked
  exact marked

theorem later_false_line (position : Position) : (position.later false).line = position.line := by
  rw [Position.later, if_neg Bool.false_ne_true]
  split
  · rename_i first
    exact first.symm
  · rfl

theorem later_false_column (position : Position) :
    (position.later false).column = if position.line = 1 then position.column + 1
      else position.column := by
  rw [Position.later, if_neg Bool.false_ne_true]
  split <;> rfl

theorem placeToken_behindMark (front rest : List Char) (kind : TokenKind) (text : String) :
    placeToken (.ofText ('\ufeff' :: (front ++ rest))) kind text (byteLength front + 3) =
      (placeToken (.ofText (front ++ rest)) kind text (byteLength front)).behindMark := by
  simp only [placeToken, Token.place, Token.behindMark, locate_behindMark, later_false_line,
    later_false_column, Nat.add_right_comm]
  rfl

theorem atOffset_behindMark (front rest : List Char) (problem : Problem) :
    SyntaxError.atOffset problem (.ofText ('\ufeff' :: (front ++ rest))) (byteLength front + 3) =
      (SyntaxError.atOffset problem (.ofText (front ++ rest)) (byteLength front)).behindMark := by
  simp only [SyntaxError.atOffset, SyntaxError.behindMark, locate_behindMark, later_false_line,
    later_false_column]
  rfl

/-! ## Tokens -/

/-- The text does not start with what may stand only at the start of a source. -/
def Unheaded (text : List Char) : Prop :=
  text.head? ≠ some '\ufeff' ∧ text.take 2 ≠ ['#', '!']

theorem Unheaded.leading_eq {c : Char} {rest : List Char} (unheaded : Unheaded (c :: rest))
    (ends : Bool) : leading true ends c rest = leading false ends c rest := by
  apply leading_later
  · simpa using unheaded.1
  · rintro ⟨rfl, mark⟩
    obtain ⟨rest, rfl⟩ := List.head?_eq_some_iff.mp mark
    exact unheaded.2 rfl

/-- The scanner runs over the same characters with and without the mark. Only at the start of the
source it could notice the difference. -/
theorem tokensFrom_behindMark (passed : List Char) {text : List Char} (opened : List Delimiter)
    (skipped : Nat) (start : passed = [] → Unheaded text) :
    tokensFrom (.ofText ('\ufeff' :: (passed ++ text))) (byteLength passed + 3) opened
      skipped text =
      behindMark (tokensFrom (.ofText (passed ++ text)) (byteLength passed) opened
        skipped text) := by
  induction text generalizing passed opened skipped with
  | nil =>
    rw [tokensFrom, tokensFrom, placeToken_behindMark]
    rfl
  | cons c rest ih =>
    have next : ∀ (opened : List Delimiter) (skipped : Nat),
        tokensFrom (.ofText ('\ufeff' :: (passed ++ c :: rest)))
          (byteLength passed + 3 + c.utf8Size) opened skipped rest =
          behindMark (tokensFrom (.ofText (passed ++ c :: rest)) (byteLength passed + c.utf8Size)
            opened skipped rest) := by
      intro opened skipped
      have later := ih (passed ++ [c]) opened skipped (by simp)
      rwa [List.append_assoc, List.singleton_append, byteLength_append, byteLength_cons,
        byteLength_nil, Nat.add_zero, Nat.add_right_comm] at later
    cases skipped with
    | succ skipped => rw [tokensFrom, tokensFrom, next]
    | zero =>
      have same : leading (byteLength passed + 3 == 0) (endsStatements opened) c rest =
          leading (byteLength passed == 0) (endsStatements opened) c rest := by
        cases passed with
        | nil => exact ((start rfl).leading_eq _).symm
        | cons first passed =>
          have size := first.utf8Size_pos
          rw [byteLength_cons, beq_eq_false_iff_ne.mpr (by omega),
            beq_eq_false_iff_ne.mpr (by omega)]
      rw [tokensFrom, tokensFrom, same]
      cases leading (byteLength passed == 0) (endsStatements opened) c rest with
      | error problem =>
        simp only [atOffset_behindMark]
        rfl
      | ok lexeme =>
        cases lexeme with
        | gap length => exact next opened (length - 1)
        | token kind length =>
          simp only [next, placeToken_behindMark]
          cases tokensFrom (.ofText (passed ++ c :: rest)) (byteLength passed + c.utf8Size)
            (openAfter opened kind) (length - 1) rest <;> rfl

/-- The scanner passes over the mark itself. -/
theorem tokenize_mark (source : String) :
    tokenize ("\ufeff" ++ source) =
      tokensFrom (.ofText ('\ufeff' :: source.toList)) 3 [] 0 source.toList := by
  rw [tokenize, String.toList_append]
  rfl

theorem exists_behindMark_ok {found : Except SyntaxError (List Token)} :
    (∃ tokens, behindMark found = .ok tokens) ↔ ∃ tokens, found = .ok tokens := by
  cases found with
  | error error => simp [behindMark, Except.map, Except.mapError]
  | ok tokens => simp [behindMark, Except.map, Except.mapError]

/-- A byte order mark is passed over: what the scanner finds behind it is what it finds without it,
moved by three bytes and, on the first line, by one column. Only a source that starts with `#!` is
refused with a mark in front, whatever follows. -/
theorem tokenize_behind_mark (source : String) (noMark : source.toList.head? ≠ some '\ufeff') :
    ((∃ marked, tokenize ("\ufeff" ++ source) = .ok marked) ↔
      (∃ tokens, tokenize source = .ok tokens) ∧ source.toList.take 2 ≠ ['#', '!']) ∧
    (source.toList.take 2 ≠ ['#', '!'] →
      tokenize ("\ufeff" ++ source) = behindMark (tokenize source)) ∧
    (source.toList.take 2 = ['#', '!'] →
      tokenize ("\ufeff" ++ source) = .error ⟨.misplacedShebang, 3, 1, 2⟩) := by
  have plain : source.toList.take 2 ≠ ['#', '!'] →
      tokenize ("\ufeff" ++ source) = behindMark (tokenize source) := by
    intro noLine
    rw [tokenize_mark]
    exact tokensFrom_behindMark [] [] 0 fun _ => ⟨noMark, noLine⟩
  have refused : source.toList.take 2 = ['#', '!'] →
      tokenize ("\ufeff" ++ source) = .error ⟨.misplacedShebang, 3, 1, 2⟩ := by
    intro line
    obtain ⟨more, shape⟩ : ∃ more, source.toList = '#' :: '!' :: more :=
      ⟨source.toList.drop 2, by rw [← List.take_append_drop 2 source.toList, line]; rfl⟩
    have stopped : leading (3 == 0) (endsStatements []) '#' ('!' :: more) =
        .error .misplacedShebang := rfl
    have position : (LineIndex.ofText ('\ufeff' :: '#' :: '!' :: more)).locate 3 = ⟨1, 2⟩ :=
      locate_front ['\ufeff'] ('#' :: '!' :: more)
    rw [tokenize_mark, shape, tokensFrom, stopped]
    simp only [SyntaxError.atOffset, position]
  refine ⟨?_, plain, refused⟩
  by_cases line : source.toList.take 2 = ['#', '!']
  · simp [refused line, line]
  · simp only [plain line, exists_behindMark_ok, ne_eq, line, not_false_eq_true, and_true]

/-- The first line has a token after a comment, and the second line is not moved. -/
theorem tokenize_behind_mark_of_lines :
    tokenize "/* é */ a\nb" =
      .ok [⟨.identifier, "a", ⟨9, 10⟩, 1, 9⟩, ⟨.newline, "\n", ⟨10, 11⟩, 1, 10⟩,
        ⟨.identifier, "b", ⟨11, 12⟩, 2, 1⟩, ⟨.endOfInput, "", ⟨12, 12⟩, 2, 2⟩] ∧
    tokenize "\ufeff/* é */ a\nb" =
      .ok [⟨.identifier, "a", ⟨12, 13⟩, 1, 10⟩, ⟨.newline, "\n", ⟨13, 14⟩, 1, 11⟩,
        ⟨.identifier, "b", ⟨14, 15⟩, 2, 1⟩, ⟨.endOfInput, "", ⟨15, 15⟩, 2, 2⟩] := by
  have read : tokenize "/* é */ a\nb" =
      .ok [⟨.identifier, "a", ⟨9, 10⟩, 1, 9⟩, ⟨.newline, "\n", ⟨10, 11⟩, 1, 10⟩,
        ⟨.identifier, "b", ⟨11, 12⟩, 2, 1⟩, ⟨.endOfInput, "", ⟨12, 12⟩, 2, 2⟩] := by
    rfl
  have marked := (tokenize_behind_mark "/* é */ a\nb" (by decide)).2.1 (by decide)
  rw [read] at marked
  exact ⟨read, marked⟩

/-- A first line that starts with `#!` is passed over, and with a mark in front it is refused with a
message that it may stand on the first line only, although that is where it stands. -/
theorem mark_before_shebang_refused :
    (¬ ∀ source : String, source.toList.head? ≠ some '\ufeff' →
      ((∃ marked, tokenize ("\ufeff" ++ source) = .ok marked) ↔
        ∃ tokens, tokenize source = .ok tokens)) ∧
    ∃ error, tokenize "\ufeff#!a\nb" = .error error ∧ error.line = 1 ∧
      error.message = "'#!' is only allowed on the first line" := by
  have read : tokenize "#!a\nb" =
      .ok [⟨.newline, "\n", ⟨3, 4⟩, 1, 4⟩, ⟨.identifier, "b", ⟨4, 5⟩, 2, 1⟩,
        ⟨.endOfInput, "", ⟨5, 5⟩, 2, 2⟩] := by
    rfl
  have refused : tokenize "\ufeff#!a\nb" = .error ⟨.misplacedShebang, 3, 1, 2⟩ := by
    rfl
  refine ⟨?_, _, refused, rfl, rfl⟩
  intro transparent
  obtain ⟨marked, success⟩ := (transparent "#!a\nb" (by decide)).mpr ⟨_, read⟩
  cases success.symm.trans refused

end GroovyTidy
