import GroovyTidy.Proofs.Token.Joined
import GroovyTidy.Proofs.Token.LiteralReturns

set_option autoImplicit false

/-!
Sources with a carriage return before each line feed. They have the same tokens, at the same lines
and columns, unless a backslash stands before a line feed in a literal between single quotes: such a
literal has no end any more.
-/
namespace GroovyTidy

open Text

/-! ## Lines -/

theorem EndsLine.withReturns {tail : List Char} (ended : EndsLine tail) :
    EndsLine (withReturns tail) := by
  cases tail with
  | nil => exact ended
  | cons c tail =>
    by_cases feed : c = '\n'
    · subst feed
      intro d first
      cases first
      rfl
    · rw [withReturns_cons feed]
      exact ended

namespace Lexeme

theorem punctuation?_inLine {c : Char} {rest : List Char} {kind : TokenKind} {length : Nat}
    (found : punctuation? (c :: rest) = some (kind, length)) :
    ((c :: rest).take length).any (fun d => isLineEnd d.toNat) = false := by
  unfold punctuation? at found
  split at found <;> first
    | (rename_i shape; cases shape; cases found; rfl)
    | cases found

section

variable {tail : List Char} (ended : EndsLine tail)
include ended

theorem head?_append_line {d : Char} (other : isLineEnd d.toNat = false) (line : List Char) :
    (line ++ tail).head? = some d ↔ line.head? = some d := by
  cases line with
  | cons c line => rfl
  | nil =>
    refine iff_of_false ?_ (by simp)
    intro first
    rw [ended d first] at other
    cases other

theorem punctuation?_append (c : Char) (line : List Char) :
    punctuation? (c :: (line ++ tail)) = punctuation? (c :: line) := by
  cases shorter : punctuation? (c :: line) with
  | some token =>
    have cut := punctuation?_cut (line.drop (token.2 - 1) ++ tail) shorter
    rwa [← List.append_assoc, List.take_append_drop] at cut
  | none =>
    cases found : punctuation? (c :: (line ++ tail)) with
    | none => rfl
    | some token =>
      have bounds := punctuation?_length found
      have inLine := punctuation?_inLine found
      -- A token that needs the tail takes its first character, which is a line end.
      have inside : token.2 - 1 ≤ line.length := by
        by_contra longer
        cases tail with
        | nil =>
          rw [List.append_nil, List.length_cons] at bounds
          omega
        | cons d tail =>
          have taken : d ∈ (c :: (line ++ d :: tail)).take token.2 := by
            rw [← List.cons_append, List.take_append, List.mem_append]
            obtain ⟨k, more⟩ : ∃ k, token.2 - (c :: line).length = k + 1 :=
              Nat.exists_eq_add_one.mpr (by rw [List.length_cons]; omega)
            rw [more]
            exact .inr List.mem_cons_self
          rw [List.any_eq_false] at inLine
          exact inLine d taken (ended d rfl)
      have cut := punctuation?_cut (line.drop (token.2 - 1)) found
      rw [List.take_append_of_le_length inside, List.take_append_drop, shorter] at cut
      cases cut

theorem blankToLineEnd_line (line : List Char) :
    blankToLineEnd (line ++ tail) = blankToLineEnd line := by
  induction line with
  | nil =>
    cases tail with
    | nil => rfl
    | cons c tail =>
      show (isLineEnd c.toNat || _) = true
      rw [ended c rfl, Bool.true_or]
  | cons c line ih => rw [List.cons_append, blankToLineEnd, blankToLineEnd, ih]

/-- What does not look for its end on other lines is not changed by them. -/
theorem leading_append {c : Char} {line : List Char} (other : isLineEnd c.toNat = false)
    (noQuote : ¬ (c = '\'' ∨ c = '"')) (noEscape : c ≠ '\\')
    (noComment : ¬ (c = '/' ∧ line.head? = some '*')) (atStart ends : Bool) :
    leading atStart ends c (line ++ tail) = leading atStart ends c line := by
  have blanks : Number.runLength (fun b => isBlank b.toNat) (c :: (line ++ tail)) = _ :=
    Number.runLength_append (ended.stops rfl rfl) (c :: line)
  have word : wordLength (c :: (line ++ tail)) = _ := wordLength_append ended.endsToken (c :: line)
  have number : Number.leading (c :: (line ++ tail)) = _ :=
    Number.leading_append ended.endsToken (c :: line)
  have toEnd : lineLength (c :: (line ++ tail)) = _ := lineLength_append ended (c :: line)
  have wordTaken : (c :: (line ++ tail)).take (wordLength (c :: line)) =
      (c :: line).take (wordLength (c :: line)) :=
    List.take_append_of_le_length (Number.runLength_le _ (c :: line))
  have slash := head?_append_line ended (d := '/') rfl line
  have star := head?_append_line ended (d := '*') rfl line
  have mark := head?_append_line ended (d := '!') rfl line
  simp only [leading, blanks, word, wordTaken, number, toEnd, slash, star, mark, noQuote, noEscape,
    noComment, other, false_and, punctuation?_append ended, Bool.false_eq_true, ↓reduceIte]

end

/-! ## Lexemes -/

/-- A lexeme in the text with carriage returns. -/
def widen (text : List Char) : Lexeme → Lexeme
  | .token kind length => .token kind (withReturns (text.take length)).length
  | .gap length => .gap (withReturns (text.take length)).length

/-- What is found at the front of a text, and what is found there with carriage returns: the same
lexeme or the same error, or no end of a literal, if the text is a literal that escapes a line feed
or has no end itself. -/
inductive Returned (text : List Char) : Except Problem Lexeme → Except Problem Lexeme → Prop where
  | same (found : Except Problem Lexeme)
      (kept : ∀ kind length, found = .ok (.token kind length) →
        ¬ StringLiteral.EscapesFeed (text.take length)) :
      Returned text found (found.map (widen text))
  | unended (found : Except Problem Lexeme)
      (escaped : ∀ lexeme, found = .ok lexeme →
        ∃ kind length, lexeme = .token kind length ∧ StringLiteral.EscapesFeed (text.take length)) :
      Returned text found (.error .unterminatedString)

theorem Returned.error {text : List Char} {problem : Problem} {outcome : Except Problem Lexeme}
    (returned : Returned text (.error problem) outcome) : ∃ other, outcome = .error other := by
  cases returned with
  | same => exact ⟨problem, rfl⟩
  | unended => exact ⟨.unterminatedString, rfl⟩

theorem widen_of_line {text : List Char} {lexeme : Lexeme} (inside : lexeme.length ≤ text.length)
    (line : '\n' ∉ text.take lexeme.length) : lexeme.widen text = lexeme := by
  have same : (withReturns (text.take lexeme.length)).length = lexeme.length := by
    rw [withReturns_of_not_mem line, List.length_take_of_le inside]
  cases lexeme with
  | token kind length => exact congrArg (token kind) same
  | gap length => exact congrArg gap same

theorem lineEndLength_withReturns {text : List Char} (plain : '\r' ∉ text) :
    lineEndLength (withReturns text) = (withReturns (text.take (lineEndLength text))).length := by
  cases text with
  | nil => rfl
  | cons c text =>
    by_cases feed : c = '\n'
    · subst feed
      rfl
    · have other : ¬ isLineEnd c.toNat = true := by
        rw [isLineEnd_iff, not_or]
        exact ⟨feed, fun carriage => plain (carriage ▸ List.mem_cons_self)⟩
      rw [withReturns_cons feed, lineEndLength_of_not other, lineEndLength_of_not other]
      rfl

/-- The first end of a comment stays the first one. -/
theorem commentRest_withReturns (text : List Char) :
    commentRest (withReturns text) =
      (commentRest text).map fun length => (withReturns (text.take length)).length := by
  fun_induction commentRest text with
  | case1 => rfl
  | case2 rest => rfl
  | case3 c rest unclosed ih =>
    by_cases feed : c = '\n'
    · subst feed
      have twice : commentRest (withReturns ('\n' :: rest)) =
          ((commentRest (withReturns rest)).map (· + 1)).map (· + 1) := rfl
      rw [twice, ih]
      simp [Option.map_map, Function.comp_def, withReturns_feed]
    · have once : commentRest (withReturns (c :: rest)) =
          (commentRest (withReturns rest)).map (· + 1) := by
        rw [withReturns_cons feed, commentRest]
        intro after star slash
        have first : rest.head? = some '/' := by
          rw [← head?_withReturns (by decide) (by decide), slash]
          rfl
        obtain ⟨more, rfl⟩ := List.head?_eq_some_iff.mp first
        exact unclosed more star rfl
      rw [once, ih]
      simp [Option.map_map, Function.comp_def, withReturns_cons feed]

section

variable {c : Char} {rest : List Char} (atStart : Bool) (opened : List Delimiter)

theorem leading_withReturns_lineEnd :
    leading atStart (endsStatements opened) '\r' ('\n' :: withReturns rest) =
      (leading atStart (endsStatements opened) '\n' rest).map (widen ('\n' :: rest)) := by
  cases endsStatements opened <;> rfl

theorem leading_comment (ends : Bool) (rest : List Char) :
    leading atStart ends '/' ('*' :: rest) =
      (commentRest rest).elim (.error .unterminatedComment) fun length =>
        .ok (.gap (length + 2)) := by
  cases found : commentRest rest with
  | none => simp +decide [leading, found]
  | some length => simp +decide [leading, found]

theorem leading_withReturns_comment :
    leading atStart (endsStatements opened) '/' (withReturns ('*' :: rest)) =
      (leading atStart (endsStatements opened) '/' ('*' :: rest)).map
        (widen ('/' :: '*' :: rest)) := by
  rw [withReturns_cons (by decide), leading_comment, leading_comment, commentRest_withReturns]
  cases commentRest rest with
  | none => rfl
  | some length => rfl

theorem leading_backslash (ends : Bool) (rest : List Char) :
    leading atStart ends '\\' rest =
      if blankToLineEnd rest then
        .ok (.gap (1 + lineLength rest + lineEndLength (rest.drop (lineLength rest))))
      else .error (.unexpectedCharacter '\\') := by
  have spaced : (Cursor.ofText rest).blankToLineEnd = blankToLineEnd rest := rfl
  have none : punctuation? ('\\' :: rest) = none := rfl
  simp +decide [leading, spaced, none]

theorem leading_withReturns_backslash (plain : '\r' ∉ rest) :
    leading atStart (endsStatements opened) '\\' (withReturns rest) =
      (leading atStart (endsStatements opened) '\\' rest).map (widen ('\\' :: rest)) := by
  obtain ⟨line, tail, rfl, length, inside, ended⟩ := lineLength_split rest
  have noFeed : '\n' ∉ line := fun member => absurd (inside _ member) (by decide)
  have plainTail : '\r' ∉ tail := fun member => plain (List.mem_append_right line member)
  have lengthToo : lineLength (line ++ withReturns tail) = line.length := by
    rw [lineLength_append ended.withReturns, length, lineLength_append ended]
  rw [withReturns_append, withReturns_of_not_mem noFeed, leading_backslash, leading_backslash,
    blankToLineEnd_line ended.withReturns, blankToLineEnd_line ended, lengthToo, ← length,
    List.drop_left, List.drop_left, lineEndLength_withReturns plainTail]
  cases blankToLineEnd line with
  | false => rfl
  | true =>
    have taken : ('\\' :: (line ++ tail)).take (1 + line.length + lineEndLength tail) =
        '\\' :: (line ++ tail.take (lineEndLength tail)) := by
      rw [Nat.add_assoc, Nat.add_comm 1, List.take_succ_cons, List.take_length_add_append]
    simp only [↓reduceIte, Except.map, widen, taken]
    rw [withReturns_cons (by decide), withReturns_append, withReturns_of_not_mem noFeed,
      List.length_cons, List.length_append]
    congr 2
    omega

theorem leading_withReturns_inLine (other : isLineEnd c.toNat = false)
    (noQuote : ¬ (c = '\'' ∨ c = '"')) (noEscape : c ≠ '\\')
    (noComment : ¬ (c = '/' ∧ rest.head? = some '*')) :
    leading atStart (endsStatements opened) c (withReturns rest) =
      (leading atStart (endsStatements opened) c rest).map (widen (c :: rest)) := by
  obtain ⟨line, tail, rfl, -, inside, ended⟩ := lineLength_split rest
  have noFeed : '\n' ∉ line := fun member => absurd (inside _ member) (by decide)
  rw [head?_append_line ended rfl] at noComment
  rw [withReturns_append, withReturns_of_not_mem noFeed,
    leading_append ended.withReturns other noQuote noEscape noComment,
    leading_append ended other noQuote noEscape noComment]
  cases found : leading atStart (endsStatements opened) c line with
  | error problem => rfl
  | ok lexeme =>
    obtain ⟨-, short⟩ := length_bounds_of_leading found
    have taken : (c :: (line ++ tail)).take lexeme.length = (c :: line).take lexeme.length :=
      List.take_append_of_le_length short
    have same : lexeme.widen (c :: (line ++ tail)) = lexeme := by
      apply widen_of_line
      · exact Nat.le_trans short (List.prefix_append (c :: line) tail).length_le
      · rw [taken]
        intro member
        rcases List.mem_cons.mp (List.mem_of_mem_take member) with rfl | member
        · cases other
        · exact noFeed member
    exact congrArg Except.ok same.symm

/-- At a quote stands the same literal, or one that escapes a line feed and has no end with carriage
returns. -/
theorem leading_withReturns_quote (quoted : c = '\'' ∨ c = '"') :
    Returned (c :: rest) (leading atStart (endsStatements opened) c rest)
      (leading atStart (endsStatements opened) c (withReturns rest)) := by
  have notFeed : c ≠ '\n' := by
    rcases quoted with rfl | rfl <;> decide
  obtain ⟨triple, inside, shape, opening⟩ := StringLiteral.exists_opening c rest
  rw [← shape] at opening
  have returned := StringLiteral.leading_withReturns quoted opening
  rw [leading_quote quoted, leading_quote quoted, ← withReturns_cons notFeed]
  unfold Lexeme.quoted
  rw [shape] at returned
  rw [returned]
  cases found : StringLiteral.leading c (c :: rest) with
  | none =>
    rw [Option.map_none, ite_self]
    exact .same (.error .unterminatedString) (by simp)
  | some extent =>
    have here := StringLiteral.escapesFeed_of_leading quoted opening (shape ▸ found)
    rw [shape] at here
    cases feed : StringLiteral.escapes c triple .plain inside with
    | true =>
      refine .unended _ ?_
      rintro lexeme ⟨⟩
      exact ⟨_, _, rfl, here.mpr feed⟩
    | false =>
      refine .same (.ok (.token _ extent.length)) ?_
      rintro kind length ⟨⟩ escapes
      rw [here.mp escapes] at feed
      cases feed

theorem leading_withReturns (plain : '\r' ∉ c :: rest) :
    ∃ first more, withReturns (c :: rest) = first :: more ∧
      Returned (c :: rest) (leading atStart (endsStatements opened) c rest)
        (leading atStart (endsStatements opened) first more) := by
  rw [List.mem_cons, not_or] at plain
  by_cases quoted : c = '\'' ∨ c = '"'
  · have notFeed : c ≠ '\n' := by
      rcases quoted with rfl | rfl <;> decide
    exact ⟨c, withReturns rest, withReturns_cons notFeed rest,
      leading_withReturns_quote atStart opened quoted⟩
  have kept : ∀ kind length,
      leading atStart (endsStatements opened) c rest = .ok (.token kind length) →
      ¬ StringLiteral.EscapesFeed ((c :: rest).take length) := by
    intro kind length found escapes
    have filled : 0 < length := (length_bounds_of_leading found).1
    rw [take_pos filled] at escapes
    exact quoted escapes.quoted
  have same : ∀ found,
      found = (leading atStart (endsStatements opened) c rest).map (widen (c :: rest)) →
      Returned (c :: rest) (leading atStart (endsStatements opened) c rest) found := by
    rintro _ rfl
    exact .same _ kept
  by_cases feed : c = '\n'
  · subst feed
    exact ⟨'\r', '\n' :: withReturns rest, rfl, same _ (leading_withReturns_lineEnd atStart opened)⟩
  refine ⟨c, withReturns rest, withReturns_cons feed rest, same _ ?_⟩
  by_cases escape : c = '\\'
  · subst escape
    exact leading_withReturns_backslash atStart opened plain.2
  by_cases comment : c = '/' ∧ rest.head? = some '*'
  · obtain ⟨rfl, star⟩ := comment
    obtain ⟨rest, rfl⟩ := List.head?_eq_some_iff.mp star
    exact leading_withReturns_comment atStart opened
  · have other : isLineEnd c.toNat = false := by
      rw [Bool.eq_false_iff, Ne, isLineEnd_iff, not_or]
      exact ⟨feed, Ne.symm plain.1⟩
    exact leading_withReturns_inLine atStart opened other quoted escape comment

end

end Lexeme

/-! ## Tokens -/

open Lexeme

/-- What is said of a token besides its bytes, with its text spelled in some way. -/
def Token.seen (spell : List Char → List Char) (token : Token) :
    TokenKind × List Char × Nat × Nat :=
  (token.kind, spell token.text.toList, token.line, token.column)

/-- What is found in a source, and what is found with carriage returns: the same tokens if no
literal of the source escapes a line feed, and an error if there is an error in the source or a
literal that has no end any more. -/
inductive ReturnedTokens :
    Except SyntaxError (List Token) → Except SyntaxError (List Token) → Prop where
  | read {tokens marked : List Token}
      (same : marked.map (Token.seen id) = tokens.map (Token.seen withReturns))
      (kept : ∀ token ∈ tokens, ¬ StringLiteral.EscapesFeed token.text.toList) :
      ReturnedTokens (.ok tokens) (.ok marked)
  | refused (found : Except SyntaxError (List Token)) (error : SyntaxError)
      (escaped : ∀ tokens, found = .ok tokens →
        error.problem = .unterminatedString ∧
          ∃ token ∈ tokens, StringLiteral.EscapesFeed token.text.toList) :
      ReturnedTokens found (.error error)

theorem exists_of_map_eq_ok {found : Except SyntaxError (List Token)} {token : Token}
    {tokens : List Token} (success : found.map (token :: ·) = .ok tokens) :
    ∃ others, found = .ok others ∧ tokens = token :: others := by
  cases found with
  | error error => cases success
  | ok others =>
    cases success
    exact ⟨others, rfl, rfl⟩

theorem ReturnedTokens.cons {found returned : Except SyntaxError (List Token)}
    (later : ReturnedTokens found returned) {token marked : Token}
    (same : marked.seen id = token.seen withReturns)
    (kept : ¬ StringLiteral.EscapesFeed token.text.toList) :
    ReturnedTokens (found.map (token :: ·)) (returned.map (marked :: ·)) := by
  cases later with
  | read sameLater keptLater =>
    refine .read ?_ (List.forall_mem_cons.mpr ⟨kept, keptLater⟩)
    rw [List.map_cons, List.map_cons, same, sameLater]
  | refused found error escaped =>
    refine .refused _ error ?_
    intro tokens success
    obtain ⟨others, read, rfl⟩ := exists_of_map_eq_ok success
    obtain ⟨unended, other, member, feed⟩ := escaped others read
    exact ⟨unended, other, List.mem_cons_of_mem token member, feed⟩

/-- The tokens of what follows the front of a source. -/
def tokensBehind (passed : List Char) (opened : List Delimiter) (text : List Char) :
    Except SyntaxError (List Token) :=
  tokensFrom (.ofText (passed ++ text)) (byteLength passed) opened 0 text

section

variable {passed : List Char} {opened : List Delimiter} {c : Char} {front back : List Char}

theorem tokensBehind_token {kind : TokenKind}
    (found : leading (byteLength passed == 0) (endsStatements opened) c (front ++ back) =
      .ok (.token kind (front.length + 1))) :
    tokensBehind passed opened (c :: (front ++ back)) =
      (tokensBehind (passed ++ c :: front) (openAfter opened kind) back).map
        (placeToken (.ofText (passed ++ c :: (front ++ back))) kind (String.ofList (c :: front))
          (byteLength passed) :: ·) := by
  rw [tokensBehind, tokensFrom_token _ found, tokensBehind, byteLength_append, List.append_assoc,
    List.cons_append]

theorem tokensBehind_gap
    (found : leading (byteLength passed == 0) (endsStatements opened) c (front ++ back) =
      .ok (.gap (front.length + 1))) :
    tokensBehind passed opened (c :: (front ++ back)) =
      tokensBehind (passed ++ c :: front) opened back := by
  rw [tokensBehind, tokensFrom, found]
  simp only [Nat.add_sub_cancel]
  rw [tokensFrom_drop, List.take_left, List.drop_left, tokensBehind, byteLength_append,
    byteLength_cons, Nat.add_assoc, List.append_assoc, List.cons_append]

theorem tokensBehind_error {rest : List Char} {problem : Problem}
    (found : leading (byteLength passed == 0) (endsStatements opened) c rest = .error problem) :
    tokensBehind passed opened (c :: rest) =
      .error (.atOffset problem (.ofText (passed ++ c :: rest)) (byteLength passed)) := by
  rw [tokensBehind, tokensFrom, found]

theorem placeToken_withReturns (plain : '\r' ∉ passed) (text : List Char) (kind : TokenKind)
    (front : List Char) :
    (placeToken (.ofText (withReturns passed ++ withReturns text)) kind
      (String.ofList (withReturns front))
        (byteLength (withReturns passed))).seen id =
      (placeToken (.ofText (passed ++ text)) kind (String.ofList front) (byteLength passed)).seen
        withReturns := by
  simp only [placeToken, Token.place, Token.seen, locate_front, positionAfter_withReturns plain,
    String.toList_ofList, id]

theorem start_withReturns (passed : List Char) :
    (byteLength (withReturns passed) == 0) = (byteLength passed == 0) := by
  cases passed with
  | nil => rfl
  | cons c passed =>
    obtain ⟨first, more, shape⟩ := exists_cons_withReturns c passed
    have size := c.utf8Size_pos
    have sizeFirst := first.utf8Size_pos
    rw [shape, byteLength_cons, byteLength_cons, beq_eq_false_iff_ne.mpr (by omega),
      beq_eq_false_iff_ne.mpr (by omega)]

theorem leading_behind_withReturns {rest : List Char} (plain : '\r' ∉ passed ++ c :: rest) :
    ∃ first more outcome, withReturns (c :: rest) = first :: more ∧
      leading (byteLength (withReturns passed) == 0) (endsStatements opened) first more = outcome ∧
      Returned (c :: rest) (leading (byteLength passed == 0) (endsStatements opened) c rest)
        outcome := by
  have plainText : '\r' ∉ c :: rest := fun member => plain (List.mem_append_right passed member)
  obtain ⟨first, more, shape, returned⟩ :=
    leading_withReturns (byteLength passed == 0) opened plainText
  exact ⟨first, more, _, shape, by rw [start_withReturns], returned⟩

/-- One lexeme is passed, or refused if it is a literal that escapes a line feed. -/
theorem tokensBehind_withReturns_step {lexeme : Lexeme}
    (plain : '\r' ∉ passed ++ c :: (front ++ back))
    (found : leading (byteLength passed == 0) (endsStatements opened) c (front ++ back) =
      .ok lexeme) (taken : lexeme.length = front.length + 1)
    (later : ∀ opened, ReturnedTokens (tokensBehind (passed ++ c :: front) opened back)
      (tokensBehind (withReturns (passed ++ c :: front)) opened (withReturns back))) :
    ReturnedTokens (tokensBehind passed opened (c :: (front ++ back)))
      (tokensBehind (withReturns passed) opened (withReturns (c :: (front ++ back)))) := by
  have plainPassed : '\r' ∉ passed := fun member => plain (List.mem_append_left _ member)
  have text : (c :: (front ++ back)).take (front.length + 1) = c :: front := by
    rw [List.take_succ_cons, List.take_left]
  obtain ⟨first, more, outcome, shape, foundReturned, returned⟩ := leading_behind_withReturns plain
  rw [found] at returned
  cases returned with
  | unended escaped =>
    -- Whatever follows, the first token of the source is the literal that is refused now.
    obtain ⟨kind, length, rfl, feed⟩ := escaped lexeme rfl
    obtain rfl : length = front.length + 1 := taken
    rw [text] at feed
    rw [tokensBehind_token found, shape, tokensBehind_error foundReturned]
    refine .refused _ _ ?_
    intro tokens success
    obtain ⟨others, -, rfl⟩ := exists_of_map_eq_ok success
    refine ⟨rfl, _, List.mem_cons_self, ?_⟩
    rw [placeToken, Token.place, String.toList_ofList]
    exact feed
  | same kept =>
    -- The lexeme takes its own characters with their carriage returns, so both runs go on at the
    -- same place.
    obtain ⟨head, frontReturned, shapeFront⟩ := exists_cons_withReturns c front
    have whole : withReturns (c :: (front ++ back)) =
        head :: (frontReturned ++ withReturns back) := by
      rw [← List.cons_append, withReturns_append, shapeFront, List.cons_append]
    obtain ⟨rfl, rfl⟩ := List.cons.inj (shape.symm.trans whole)
    rw [withReturns_append, shapeFront] at later
    cases lexeme with
    | gap length =>
      obtain rfl : length = front.length + 1 := taken
      rw [Except.map, widen, text, shapeFront] at foundReturned
      rw [tokensBehind_gap found, whole, tokensBehind_gap foundReturned]
      exact later opened
    | token kind length =>
      obtain rfl : length = front.length + 1 := taken
      have unescaped := kept kind _ rfl
      have placed := placeToken_withReturns plainPassed (c :: (front ++ back)) kind (c :: front)
      rw [text] at unescaped
      rw [shapeFront, whole] at placed
      rw [Except.map, widen, text, shapeFront] at foundReturned
      rw [tokensBehind_token found, whole, tokensBehind_token foundReturned]
      apply (later (openAfter opened kind)).cons placed
      rw [placeToken, Token.place, String.toList_ofList]
      exact unescaped

end

/-- A lexeme takes some characters of the text and leaves the others. -/
theorem split_of_leading {atStart : Bool} {opened : List Delimiter} {c : Char} {rest : List Char}
    {lexeme : Lexeme} (found : leading atStart (endsStatements opened) c rest = .ok lexeme) :
    ∃ front back, rest = front ++ back ∧ lexeme.length = front.length + 1 := by
  obtain ⟨filled, short⟩ := length_bounds_of_leading found
  rw [List.length_cons] at short
  refine ⟨rest.take (lexeme.length - 1), rest.drop (lexeme.length - 1),
    (List.take_append_drop ..).symm, ?_⟩
  rw [List.length_take_of_le (by omega)]
  omega

/-- The scanner passes lexeme after lexeme in the same way. The induction is on the length of the
text, since a lexeme may be long. -/
theorem tokensBehind_withReturns (passed : List Char) (opened : List Delimiter) {text : List Char}
    (plain : '\r' ∉ passed ++ text) :
    ReturnedTokens (tokensBehind passed opened text)
      (tokensBehind (withReturns passed) opened (withReturns text)) := by
  induction lengthDef : text.length using Nat.strongRecOn generalizing passed opened text with
  | ind length ih =>
    cases text with
    | nil =>
      have plainPassed : '\r' ∉ passed := fun member => plain (List.mem_append_left _ member)
      refine .read ?_ ?_
      · exact congrArg (· :: []) (placeToken_withReturns plainPassed [] .endOfInput [])
      · rintro token member ⟨quote, items, inner, -, shape, -⟩
        cases List.mem_singleton.mp member
        cases shape
    | cons c rest =>
      cases found : leading (byteLength passed == 0) (endsStatements opened) c rest with
      | error problem =>
        obtain ⟨first, more, outcome, shape, foundReturned, returned⟩ :=
          leading_behind_withReturns plain
        rw [found] at returned
        obtain ⟨other, rfl⟩ := returned.error
        rw [tokensBehind_error found, shape, tokensBehind_error foundReturned]
        exact .refused _ _ (by simp)
      | ok lexeme =>
        obtain ⟨front, back, rfl, taken⟩ := split_of_leading found
        apply tokensBehind_withReturns_step plain found taken
        intro opened
        have shorter : back.length < length := by
          rw [← lengthDef, List.length_cons, List.length_append]
          omega
        refine ih back.length shorter (passed ++ c :: front) opened ?_ rfl
        rwa [List.append_assoc, List.cons_append]

theorem tokenize_returned {source : String} (plain : '\r' ∉ source.toList) :
    ReturnedTokens (tokenize source) (tokenize (String.ofList (withReturns source.toList))) := by
  have returned := tokensBehind_withReturns [] [] plain
  rw [tokenize, tokenize, String.toList_ofList]
  exact returned

/-- With a carriage return before each line feed a source has the same tokens at the same positions,
if none of its literals between single quotes has a line feed after a backslash. Such a literal has
no end any more. -/
theorem tokenize_with_returns (source : String) (plain : '\r' ∉ source.toList) :
    ((∃ marked, tokenize (String.ofList (withReturns source.toList)) = .ok marked) ↔
      ∃ tokens, tokenize source = .ok tokens ∧
        ∀ token ∈ tokens, ¬ StringLiteral.EscapesFeed token.text.toList) ∧
    (∀ tokens marked, tokenize source = .ok tokens →
      tokenize (String.ofList (withReturns source.toList)) = .ok marked →
      marked.map (fun token => (token.kind, token.text.toList, token.line, token.column)) =
        tokens.map fun token =>
          (token.kind, withReturns token.text.toList, token.line, token.column)) ∧
    ∀ tokens, tokenize source = .ok tokens →
      (∃ token ∈ tokens, StringLiteral.EscapesFeed token.text.toList) →
      ∃ error, tokenize (String.ofList (withReturns source.toList)) = .error error ∧
        error.problem = .unterminatedString := by
  have returned := tokenize_returned plain
  generalize tokenize source = found at returned ⊢
  generalize tokenize (String.ofList (withReturns source.toList)) = outcome at returned ⊢
  cases returned with
  | @read tokens marked same kept =>
    refine ⟨iff_of_true ⟨marked, rfl⟩ ⟨tokens, rfl, kept⟩, ?_, ?_⟩
    · rintro _ _ ⟨⟩ ⟨⟩
      exact same
    · rintro _ ⟨⟩ ⟨token, member, feed⟩
      exact absurd feed (kept token member)
  | refused _ error escaped =>
    refine ⟨iff_of_false (by simp) ?_, by simp, ?_⟩
    · rintro ⟨tokens, success, kept⟩
      obtain ⟨-, token, member, feed⟩ := escaped tokens success
      exact kept token member feed
    · intro tokens success _
      exact ⟨error, rfl, (escaped tokens success).1⟩

/-- A line continuation, a comment over two lines and a line feed after a backslash between triple
quotes change nothing but the bytes. -/
theorem tokenize_with_returns_of_lines :
    '\r' ∉ "a\\\n= /*\n*/ \'\'\'\\\n\'\'\'\nb".toList ∧
    tokenize "a\\\n= /*\n*/ \'\'\'\\\n\'\'\'\nb" =
      .ok [⟨.identifier, "a", ⟨0, 1⟩, 1, 1⟩, ⟨.assign, "=", ⟨3, 4⟩, 2, 1⟩,
        ⟨.literal .string, "\'\'\'\\\n\'\'\'", ⟨11, 19⟩, 3, 4⟩, ⟨.newline, "\n", ⟨19, 20⟩, 4, 4⟩,
        ⟨.identifier, "b", ⟨20, 21⟩, 5, 1⟩, ⟨.endOfInput, "", ⟨21, 21⟩, 5, 2⟩] ∧
    ∃ marked, tokenize "a\\\r\n= /*\r\n*/ \'\'\'\\\r\n\'\'\'\r\nb" = .ok marked ∧
      marked.map (fun token => (token.kind, token.text.toList, token.line, token.column)) =
        [(.identifier, ['a'], 1, 1), (.assign, ['='], 2, 1),
          (.literal .string, "\'\'\'\\\r\n\'\'\'".toList, 3, 4), (.newline, ['\r', '\n'], 4, 4),
          (.identifier, ['b'], 5, 1), (.endOfInput, [], 5, 2)] := by
  have plain : '\r' ∉ "a\\\n= /*\n*/ \'\'\'\\\n\'\'\'\nb".toList := by
    decide
  have read : tokenize "a\\\n= /*\n*/ \'\'\'\\\n\'\'\'\nb" = .ok [⟨.identifier, "a", ⟨0, 1⟩, 1, 1⟩,
      ⟨.assign, "=", ⟨3, 4⟩, 2, 1⟩, ⟨.literal .string, "\'\'\'\\\n\'\'\'", ⟨11, 19⟩, 3, 4⟩,
      ⟨.newline, "\n", ⟨19, 20⟩, 4, 4⟩, ⟨.identifier, "b", ⟨20, 21⟩, 5, 1⟩,
      ⟨.endOfInput, "", ⟨21, 21⟩, 5, 2⟩] := by
    rfl
  obtain ⟨marked, success⟩ : ∃ marked,
    tokenize "a\\\r\n= /*\r\n*/ \'\'\'\\\r\n\'\'\'\r\nb" = .ok marked :=
    ⟨_, rfl⟩
  exact ⟨plain, read, marked, success, (tokenize_with_returns _ plain).2.1 _ marked read success⟩

/-- A backslash takes the line feed along, but of the carriage return with the line feed it takes
only the first. -/
theorem escaped_line_feed_unended :
    (¬ ∀ source : String, '\r' ∉ source.toList →
      ((∃ marked, tokenize (String.ofList (withReturns source.toList)) = .ok marked) ↔
        ∃ tokens, tokenize source = .ok tokens)) ∧
    tokenize "\'a\\\nb\'" =
      .ok [⟨.literal .string, "\'a\\\nb\'", ⟨0, 6⟩, 1, 1⟩, ⟨.endOfInput, "", ⟨6, 6⟩, 2, 3⟩] ∧
    tokenize "\'a\\\r\nb\'" = .error ⟨.unterminatedString, 0, 1, 1⟩ := by
  have read : tokenize "\'a\\\nb\'" =
      .ok [⟨.literal .string, "\'a\\\nb\'", ⟨0, 6⟩, 1, 1⟩, ⟨.endOfInput, "", ⟨6, 6⟩, 2, 3⟩] := by
    rfl
  have refused : tokenize "\'a\\\r\nb\'" = .error ⟨.unterminatedString, 0, 1, 1⟩ := by
    rfl
  refine ⟨?_, read, refused⟩
  intro transparent
  obtain ⟨marked, success⟩ := (transparent "\'a\\\nb\'" (by decide)).mpr ⟨_, read⟩
  cases success.symm.trans refused

end GroovyTidy
