import GroovyTidy.Proofs.Text.Rows
import GroovyTidy.Proofs.Token.LineEnds

set_option autoImplicit false

/-!
Refusals as they are shown. A refusal is told on one line, and below an empty line follow the rows
of the excerpt. The line of the refusal is found by the index of lines and the rows are cut in
another way, so it can be missing among them: exactly if the source is refused at its end, behind a
last line feed.
-/
namespace GroovyTidy

open Text

/-! ## The first line -/

theorem TokenKind.staysInLine_describe (kind : TokenKind) :
    staysInLine kind.describe.toList = true := by
  cases kind with
  | literal part | modifier part | opening part | closing part => cases part <;> decide +kernel
  | _ => decide +kernel

theorem Token.staysInLine_describe (token : Token) : staysInLine token.describe.toList = true := by
  unfold Token.describe
  split
  · exact TokenKind.staysInLine_describe _
  · exact TokenKind.staysInLine_describe _
  · exact staysInLine_quoteText _

theorem Wanted.staysInLine_describe (wanted : Wanted) :
    staysInLine wanted.describe.toList = true := by
  cases wanted with
  | token kind => exact kind.staysInLine_describe
  | _ => decide

/-- The message about a problem stays in its line, unless it is told in its own words. -/
theorem Problem.staysInLine_message {problem : Problem}
    (known : ∀ message, problem ≠ .stated message) : staysInLine problem.message.toList = true := by
  cases problem with
  | unexpectedCharacter c =>
    change staysInLine ("unexpected character " ++ quoteChar c).toList = true
    simp [staysInLine_quoteChar]
  | unexpectedToken wanted found =>
    change staysInLine ("expected " ++ wanted.describe ++ ", found " ++ found.describe).toList =
      true
    simp [wanted.staysInLine_describe, found.staysInLine_describe]
  | stated message => exact absurd rfl (known message)
  | _ => decide

theorem SyntaxError.staysInLine_describe {error : SyntaxError}
    (known : ∀ message, error.problem ≠ .stated message) :
    staysInLine error.describe.toList = true := by
  have shown : staysInLine error.message.toList = true := Problem.staysInLine_message known
  change staysInLine ("Syntax error at " ++ toString error.line ++ ":" ++
    toString error.column ++ ": " ++
    error.message).toList = true
  simp [shown, staysInLine_toDigits]

theorem Lexeme.quoted_ne_stated (quote : Char) (text : List Char) (message : String) :
    quoted quote text ≠ .error (.stated message) := by
  unfold quoted
  cases StringLiteral.leading quote text <;> simp

/-- The scanner has no words of its own for a problem. -/
theorem Lexeme.leading_ne_stated (atStart ends : Bool) (c : Char) (rest : List Char)
    (message : String) : leading atStart ends c rest ≠ .error (.stated message) := by
  unfold leading
  dsimp only
  cases commentRest (rest.drop 1) <;> cases punctuation? (c :: rest) <;>
    simp [ite_eq_iff, quoted_ne_stated]

/-! ## The line of the refusal among the rows -/

theorem length_linesWithEnds (text : List Char) :
    (linesWithEnds text).length = (positionAfter text []).line := by
  induction text with
  | nil => rfl
  | cons c rest ih =>
    have positive := positionAfter_line_pos rest []
    rw [linesWithEnds_cons, positionAfter, List.append_nil, Position.later]
    by_cases closes : closesLine c rest = true
    · rw [if_pos closes, if_pos closes, List.length_cons, ih]
    · rw [if_neg closes, if_neg closes, List.length_modifyHead, ih]
      split
      · assumption
      · rfl

theorem positionAfter_line_le (front rest : List Char) :
    (positionAfter front rest).line ≤ (positionAfter (front ++ rest) []).line := by
  by_cases none : rest = []
  · rw [none, List.append_nil]
  · have before := positionAfter_before front none []
    rw [List.append_nil] at before
    rcases before with earlier | ⟨same, -⟩
    · exact Nat.le_of_lt earlier
    · exact Nat.le_of_eq same

/-- A line feed at the end of what follows a place ends the line of the place or a later one. -/
theorem positionAfter_line_lt (front rest : List Char) :
    (positionAfter front (rest ++ ['\n'])).line <
      (positionAfter (front ++ (rest ++ ['\n'])) []).line := by
  have ended := positionAfter_lineEnd (front ++ rest) (.feed [])
  rw [List.append_assoc] at ended
  rw [ended]
  by_cases none : rest = []
  · rw [none, List.append_nil]
    exact Nat.lt_succ_self _
  · rcases positionAfter_before front none ['\n'] with earlier | ⟨same, -⟩
    · exact Nat.lt_succ_of_lt earlier
    · exact Nat.lt_succ_of_le (Nat.le_of_eq same)

/-- The line of a place is not among those of an excerpt exactly if the place is behind a last line
feed. -/
theorem unshown_iff {front rest : List Char} (filled : front ++ rest ≠ []) :
    (excerptLines (front ++ rest))[(positionAfter front rest).line - 1]? = none ↔
      rest = [] ∧ (front ++ rest).getLast? = some '\n' := by
  have counted : (excerptLines (front ++ rest)).length + (unshownLine (front ++ rest)).length =
      (positionAfter (front ++ rest) []).line := by
    rw [← length_linesWithEnds, ← List.length_append, ← map_withoutEnd_linesWithEnds,
      List.length_map]
  have positive := positionAfter_line_pos front rest
  rw [List.getElem?_eq_none_iff]
  by_cases fed : (front ++ rest).getLast? = some '\n'
  · rw [unshownLine, if_pos (.inr fed), List.length_singleton] at counted
    by_cases none : rest = []
    · subst none
      rw [List.append_nil] at counted ⊢
      simp only [true_and]
      exact iff_of_true (by omega) (by rwa [List.append_nil] at fed)
    · obtain ⟨init, last, rfl⟩ := List.eq_nil_or_concat rest |>.resolve_left none
      rw [List.concat_eq_append] at *
      obtain rfl : last = '\n' := by simpa [← List.append_assoc] using fed
      have later := positionAfter_line_lt front init
      exact iff_of_false (by omega) (fun behind => none behind.1)
  · have shown : unshownLine (front ++ rest) = [] := if_neg (not_or.mpr ⟨filled, fed⟩)
    have inside := positionAfter_line_le front rest
    rw [shown, List.length_nil] at counted
    exact iff_of_false (by omega) (fun behind => fed behind.2)

/-! ## Refusals -/

/-- Every refusal has a known problem, which stands between the parts of the source that it
divides. -/
theorem parse_refused {source : String} {error : SyntaxError}
    (refused : parse source = .error error) :
    (∀ message, error.problem ≠ .stated message) ∧
      ∃ front rest, source.toList = front ++ rest ∧ error.offset = byteLength front ∧
        error.line = (positionAfter front rest).line := by
  have found : ∃ before after, error.Located source before after := by
    unfold parse at refused
    cases scanned : tokenize source with
    | error other =>
      rw [scanned] at refused
      cases refused
      exact located_of_scanner scanned
    | ok tokens =>
      rw [scanned] at refused
      exact located_of_grammar scanned refused
  obtain ⟨before, after, located⟩ := found
  constructor
  · cases scanned : tokenize source with
    | error other =>
      obtain ⟨-, -, c, rest, -, stopped⟩ := located.lexeme other scanned
      rintro message problem
      exact Lexeme.leading_ne_stated _ _ _ _ message (problem ▸ stopped true)
    | ok tokens =>
      obtain ⟨token, -, -, wanted, problem⟩ := located.token tokens scanned
      intro message
      rw [problem]
      exact Problem.noConfusion
  · have divided : source.toList = before.toList ++ after.toList := by
      rw [located.divided, String.toList_append]
    have offset : error.offset = byteLength before.toList := by rw [located.offset, utf8ByteSize_eq]
    have position := located.position
    rw [divided, offset, locate_front] at position
    exact ⟨before.toList, after.toList, divided, offset, by rw [position]⟩

/-- A refusal is shown by one line, an empty one and the rows of an excerpt. Exactly one of the rows
is marked, with the number and the text of the line that the refusal names, unless the refusal is at
the end of a source that ends in a line feed. Then no row is marked. -/
theorem refusal_marked_unless_behind_feed {source : String} {error : SyntaxError}
    (refused : parse source = .error error) :
    ∃ rows : List (List Char),
      linesWithEnds (error.withExcerpt source).toList =
        (error.describe.toList :: [] :: rows).map (· ++ ['\n']) ++ [[]] ∧
      (error.offset = source.utf8ByteSize ∧ source.toList.getLast? = some '\n' →
        ∀ row ∈ rows, ¬ ['>', '>'] <+: row) ∧
      (¬ (error.offset = source.utf8ByteSize ∧ source.toList.getLast? = some '\n') →
        ∃ line, (excerptLines source.toList)[error.line - 1]? = some line ∧
          rows.filter (fun row => ['>', '>'].isPrefixOf row) = [rowText true error.line line]) := by
  obtain ⟨known, front, rest, divided, offset, line⟩ := parse_refused refused
  have counted : 1 ≤ error.line := line ▸ positionAfter_line_pos front rest
  have filled : front ++ rest ≠ [] := by
    rw [← divided]
    intro empty
    rw [String.toList_eq_nil_iff.mp empty] at refused
    cases refused
  have missing := unshown_iff filled
  have marked := filter_excerptRows (front ++ rest) counted
  have ended : error.offset = source.utf8ByteSize ↔ rest = [] := by
    rw [offset, utf8ByteSize_eq, divided, byteLength_append]
    cases rest with
    | nil => simp
    | cons c rest =>
      have some := c.utf8Size_pos
      simp
      omega
  refine ⟨excerptRows (front ++ rest) error.line, ?_, ?_, ?_⟩
  · have shown : (error.withExcerpt source).toList =
        (error.describe.toList :: [] :: excerptRows (front ++ rest) error.line).flatMap
          (· ++ ['\n']) := by
      simp [SyntaxError.withExcerpt, divided, toList_excerpt _ counted]
    rw [shown]
    refine linesWithEnds_rows
      (List.forall_mem_cons.mpr ⟨SyntaxError.staysInLine_describe known, ?_⟩)
    exact List.forall_mem_cons.mpr ⟨rfl, fun row => staysInLine_of_mem_excerptRows⟩
  · rw [ended, divided, ← missing, ← line]
    intro absent row member
    rw [absent] at marked
    have unmarked := List.filter_eq_nil_iff.mp marked row member
    rwa [List.isPrefixOf_iff_prefix] at unmarked
  · rw [ended, divided, ← missing, ← line]
    intro present
    obtain ⟨shown, found⟩ := Option.ne_none_iff_exists'.mp present
    exact ⟨shown, found, by rw [marked, found]; rfl⟩

/-- Behind a carriage return at the end of a source the empty line of the refusal is shown and
marked. -/
theorem refusal_marked_unless_behind_feed_of_return :
    parse "f(\r" = .error ⟨.unexpectedToken .expression (.place .endOfInput "" 3 2 1), 3, 2, 1⟩ ∧
    ∃ rows : List (List Char),
      linesWithEnds
        (SyntaxError.withExcerpt ⟨.unexpectedToken .expression (.place .endOfInput "" 3 2 1), 3, 2,
          1⟩
          "f(\r").toList =
        ("Syntax error at 2:1: expected expression, found end of input".toList :: [] :: rows).map
          (· ++ ['\n']) ++ [[]] ∧
      rows.filter (fun row => ['>', '>'].isPrefixOf row) = [">>   2 | ".toList] := by
  have refused : parse "f(\r" =
      .error ⟨.unexpectedToken .expression (.place .endOfInput "" 3 2 1), 3, 2, 1⟩ := by
    rfl
  obtain ⟨rows, lines, -, marked⟩ := refusal_marked_unless_behind_feed refused
  obtain ⟨line, shown, only⟩ := marked (by decide)
  obtain rfl : [] = line := Option.some.inj shown
  exact ⟨refused, rows, lines, only⟩

/-- A call whose parenthesis is still open behind the last line feed is refused on a line that no
row shows. -/
theorem unended_call_unmarked :
    (¬ ∀ (source : String) (error : SyntaxError), parse source = .error error →
      ∃ rows : List (List Char),
        linesWithEnds (error.withExcerpt source).toList =
          (error.describe.toList :: [] :: rows).map (· ++ ['\n']) ++ [[]] ∧
        ∃ line, rows.filter (fun row => ['>', '>'].isPrefixOf row) =
          [rowText true error.line line]) ∧
    parse "f(\n" = .error ⟨.unexpectedToken .expression (.place .endOfInput "" 3 2 1), 3, 2, 1⟩ ∧
    SyntaxError.withExcerpt ⟨.unexpectedToken .expression (.place .endOfInput "" 3 2 1), 3, 2, 1⟩
      "f(\n" =
      "Syntax error at 2:1: expected expression, found end of input\n\n     1 | f(\n" := by
  have refused : parse "f(\n" =
      .error ⟨.unexpectedToken .expression (.place .endOfInput "" 3 2 1), 3, 2, 1⟩ := by
    rfl
  have told :
      SyntaxError.withExcerpt ⟨.unexpectedToken .expression (.place .endOfInput "" 3 2 1), 3, 2, 1⟩
        "f(\n" =
      "Syntax error at 2:1: expected expression, found end of input\n\n     1 | f(\n" := by
    decide +kernel
  refine ⟨?_, refused, told⟩
  intro always
  obtain ⟨rows, lines, line, marked⟩ := always _ _ refused
  have kept : rowText true 2 line ∈ rows.filter (fun row => ['>', '>'].isPrefixOf row) := by
    rw [marked]
    exact List.mem_singleton_self _
  have member := (List.mem_filter.mp kept).1
  -- The mark would have to stand somewhere in the text.
  have inside : '>' ∈ (linesWithEnds (SyntaxError.withExcerpt
      ⟨.unexpectedToken .expression (.place .endOfInput "" 3 2 1), 3, 2, 1⟩
      "f(\n").toList).flatten := by
    rw [lines]
    simp only [List.mem_flatten, List.mem_append, List.mem_map, List.mem_cons]
    exact ⟨_, .inl ⟨_, .inr (.inr member), rfl⟩, by simp [rowText]⟩
  rw [flatten_linesWithEnds, told] at inside
  exact absurd inside (by decide)

end GroovyTidy
