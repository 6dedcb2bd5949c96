import GroovyTidy.Proofs.Token.Lexeme

set_option autoImplicit false

/-!
Gaps between tokens. A gap is put together from items of seven forms, each told by its own
characters and by what follows it, and whatever the scanner passes over in one step is one such
item.
-/
namespace GroovyTidy

open Text Lexeme

/-- The innermost delimiter that is open is a parenthesis or a bracket. -/
def Enclosed (opened : List Delimiter) : Prop :=
  opened.head? = some .paren ∨ opened.head? = some .bracket

/-- A line end before the rest of a text. A carriage return takes a line feed after it along. -/
inductive LineEnd : List Char → List Char → Prop where
  | feed (rest : List Char) : LineEnd ['\n'] rest
  | pair (rest : List Char) : LineEnd ['\r', '\n'] rest
  | carriage {rest : List Char} (alone : rest.head? ≠ some '\n') : LineEnd ['\r'] rest

/-- The rest of a text is empty or starts with a line end. -/
def EndsLine (rest : List Char) : Prop :=
  ∀ c ∈ rest.head?, isLineEnd c.toNat = true

/-- One item of a gap, before the rest of a text. Two items stand only at the start of a source, and
line ends only inside parentheses and brackets. -/
inductive GapItem (start : Prop) (opened : List Delimiter) : List Char → List Char → Prop where
  | blanks {run rest : List Char} (filled : run ≠ []) (all : ∀ c ∈ run, isBlank c.toNat = true) :
      GapItem start opened run rest
  | lineComment {body rest : List Char} (inside : ∀ c ∈ body, isLineEnd c.toNat = false)
      (ends : EndsLine rest) : GapItem start opened ('/' :: '/' :: body) rest
  | blockComment {body rest : List Char} (first : ¬ ['*', '/'] <:+: body ++ ['*']) :
      GapItem start opened ('/' :: '*' :: (body ++ ['*', '/'])) rest
  | firstLine {body rest : List Char} (atStart : start)
      (inside : ∀ c ∈ body, isLineEnd c.toNat = false) (ends : EndsLine rest) :
      GapItem start opened ('#' :: '!' :: body) rest
  | byteOrderMark {rest : List Char} (atStart : start) : GapItem start opened ['\ufeff'] rest
  | continuation {spaces ending rest : List Char} (all : ∀ c ∈ spaces, isSpace c.toNat = true)
      (ends : LineEnd ending rest ∨ ending = [] ∧ rest = []) :
      GapItem start opened ('\\' :: (spaces ++ ending)) rest
  | lineEnd {ending rest : List Char} (enclosed : Enclosed opened) (ends : LineEnd ending rest) :
      GapItem start opened ending rest

/-- A gap at a byte offset: items one after another, before the rest of a text. -/
inductive Gap (opened : List Delimiter) : Nat → List Char → List Char → Prop where
  | nil (offset : Nat) (rest : List Char) : Gap opened offset [] rest
  | cons {offset : Nat} {item gap rest : List Char}
      (here : GapItem (offset = 0) opened item (gap ++ rest))
      (more : Gap opened (offset + byteLength item) gap rest) : Gap opened offset (item ++ gap) rest

theorem endsStatements_iff (opened : List Delimiter) :
    endsStatements opened = true ↔ ¬ Enclosed opened := by
  unfold Enclosed
  match opened with
  | [] => simp [endsStatements]
  | .paren :: rest => simp [endsStatements]
  | .bracket :: rest => simp [endsStatements]
  | .brace :: rest => simp [endsStatements]

theorem enclosed_of_not_endsStatements {opened : List Delimiter}
    (inside : ¬ endsStatements opened = true) : Enclosed opened := by
  rw [endsStatements_iff] at inside
  exact Classical.not_not.mp inside

theorem isLineEnd_iff (c : Char) : isLineEnd c.toNat = true ↔ c = '\n' ∨ c = '\r' := by
  have same : ∀ d : Char, c.toNat = d.toNat ↔ c = d := fun d => Char.toNat_inj
  have feed := same '\n'
  have carriage := same '\r'
  simp only [isLineEnd, Bool.or_eq_true, beq_iff_eq]
  exact or_congr feed carriage

namespace LineEnd

variable {ending rest : List Char}

theorem isLineEnd_head (ends : LineEnd ending rest) :
    ∃ c more, ending = c :: more ∧ isLineEnd c.toNat = true := by
  cases ends with
  | feed => exact ⟨'\n', [], rfl, rfl⟩
  | pair => exact ⟨'\r', ['\n'], rfl, rfl⟩
  | carriage => exact ⟨'\r', [], rfl, rfl⟩

end LineEnd

theorem GapItem.ne_nil {start : Prop} {opened : List Delimiter} {item rest : List Char}
    (here : GapItem start opened item rest) : item ≠ [] := by
  cases here with
  | blanks filled => exact filled
  | lineComment | blockComment | firstLine | byteOrderMark | continuation =>
    exact List.cons_ne_nil _ _
  | lineEnd enclosed ends =>
    obtain ⟨c, more, rfl, -⟩ := ends.isLineEnd_head
    exact List.cons_ne_nil _ _

/-! ## What the lengths of the scanner cut off -/

namespace Lexeme

/-- A run is cut off where a character is not of its class. -/
theorem runLength_split (member : Char → Bool) (text : List Char) :
    ∃ run rest, text = run ++ rest ∧ run.length = Number.runLength member text ∧
      (∀ c ∈ run, member c = true) ∧
      stopsAt member rest := by
  refine ⟨text.takeWhile member, text.dropWhile member, List.takeWhile_append_dropWhile.symm,
    rfl, ?_, ?_⟩
  · exact List.all_eq_true.mp List.all_takeWhile
  · intro c first
    have head := List.head?_dropWhile_not member text
    rw [Option.mem_def.mp first] at head
    simpa using head

theorem lineLength_split (text : List Char) :
    ∃ line rest, text = line ++ rest ∧ line.length = lineLength text ∧
      (∀ c ∈ line, isLineEnd c.toNat = false) ∧ EndsLine rest := by
  obtain ⟨line, rest, shape, length, inside, stops⟩ :=
    runLength_split (fun c => !isLineEnd c.toNat) text
  refine ⟨line, rest, shape, length, ?_, ?_⟩
  · intro c member
    simpa using inside c member
  · intro c first
    simpa using stops c first

theorem lineEndLength_split {c : Char} (rest : List Char) (ended : isLineEnd c.toNat = true) :
    ∃ ending after, c :: rest = ending ++ after ∧ ending.length = lineEndLength (c :: rest) ∧
      LineEnd ending after := by
  rw [lineEndLength_cons ended]
  rcases (isLineEnd_iff c).mp ended with rfl | rfl
  · exact ⟨['\n'], rest, rfl, rfl, .feed rest⟩
  · by_cases feed : rest.head? = some '\n'
    · obtain ⟨after, rfl⟩ := List.head?_eq_some_iff.mp feed
      exact ⟨['\r', '\n'], after, rfl, rfl, .pair after⟩
    · exact ⟨['\r'], rest, rfl, by rw [if_neg (fun both => feed both.2)]; rfl, .carriage feed⟩

/-- The end of a comment is the first one: no other lies before it, not even across its own star. -/
theorem commentRest_split {text : List Char} {length : Nat}
    (found : commentRest text = some length) :
    ∃ body rest, text = body ++ ['*', '/'] ++ rest ∧ length = body.length + 2 ∧
      ¬ ['*', '/'] <:+: body ++ ['*'] := by
  fun_induction commentRest text generalizing length with
  | case1 => cases found
  | case2 rest =>
    cases found
    exact ⟨[], rest, rfl, rfl, by decide⟩
  | case3 c rest other ih =>
    obtain ⟨inner, more, rfl⟩ := Option.map_eq_some_iff.mp found
    obtain ⟨body, after, shape, rfl, first⟩ := ih more
    refine ⟨c :: body, after, by rw [shape]; rfl, by rw [List.length_cons], ?_⟩
    rw [List.cons_append, List.infix_cons_iff, not_or]
    refine ⟨?_, first⟩
    intro ends
    rw [List.cons_prefix_cons] at ends
    cases body with
    | nil => exact absurd ends.2 (by decide)
    | cons d body =>
      rw [List.cons_append, List.cons_prefix_cons] at ends
      exact other (body ++ ['*', '/'] ++ after) ends.1.symm (by rw [shape, ← ends.2.1]; rfl)

theorem isSpace_of_blankToLineEnd {line rest : List Char}
    (blank : blankToLineEnd (line ++ rest) = true)
    (inside : ∀ c ∈ line, isLineEnd c.toNat = false) : ∀ c ∈ line, isSpace c.toNat = true := by
  induction line with
  | nil => simp
  | cons c line ih =>
    rw [List.forall_mem_cons] at inside
    rw [List.cons_append, blankToLineEnd, inside.1, Bool.false_or, Bool.and_eq_true] at blank
    exact List.forall_mem_cons.mpr ⟨blank.1, ih blank.2 inside.2⟩

/-- A continuation takes the spaces up to the end of its line and the line end, if the text does not
end there. -/
theorem continuation_split {text : List Char} (blank : blankToLineEnd text = true) :
    ∃ spaces ending rest, text = spaces ++ ending ++ rest ∧
      (spaces ++ ending).length = lineLength text + lineEndLength (text.drop (lineLength text)) ∧
      (∀ c ∈ spaces, isSpace c.toNat = true) ∧ (LineEnd ending rest ∨ ending = [] ∧ rest = []) := by
  obtain ⟨line, after, shape, length, inside, ends⟩ := lineLength_split text
  have dropped : text.drop (lineLength text) = after := by
    rw [← length, shape]
    exact List.drop_left
  have spaces : ∀ c ∈ line, isSpace c.toNat = true := by
    rw [shape] at blank
    exact isSpace_of_blankToLineEnd blank inside
  rw [dropped, ← length]
  cases after with
  | nil =>
    refine ⟨line, [], [], ?_, ?_, spaces, Or.inr ⟨rfl, rfl⟩⟩
    · rw [shape]
      simp only [List.append_nil]
    · rw [List.append_nil]
      rfl
  | cons c after =>
    obtain ⟨ending, rest, cut, total, ended⟩ := lineEndLength_split after (ends c rfl)
    refine ⟨line, ending, rest, ?_, ?_, spaces, Or.inl ended⟩
    · rw [shape, cut, List.append_assoc]
    · rw [List.length_append, total]

/-! ## The steps of the scanner -/

/-- A line with two known characters in front. -/
theorem lineLength_after (first second : Char) (rest : List Char)
    (known : isLineEnd first.toNat = false) (knownNext : isLineEnd second.toNat = false) :
    ∃ body after, first :: second :: rest = (first :: second :: body) ++ after ∧
      (first :: second :: body).length = lineLength (first :: second :: rest) ∧
      (∀ c ∈ body, isLineEnd c.toNat = false) ∧ EndsLine after := by
  obtain ⟨body, after, rfl, length, inside, ends⟩ := lineLength_split rest
  refine ⟨body, after, rfl, ?_, inside, ends⟩
  unfold lineLength at length ⊢
  rw [Number.runLength_cons, Number.runLength_cons, known, knownNext, List.length_cons,
    List.length_cons, length]
  rfl

variable {atStart : Bool} {opened : List Delimiter} {c : Char} {rest : List Char} {length : Nat}

/-- What the scanner passes over is an item of a gap. -/
theorem gapItem_of_leading
    (found : leading atStart (endsStatements opened) c rest = .ok (.gap length)) :
    ∃ item after, c :: rest = item ++ after ∧ item.length = length ∧
      GapItem (atStart = true) opened item after := by
  cases gapAt_of_leading found with
  | blanks blank =>
    obtain ⟨run, after, shape, total, inside, -⟩ :=
      runLength_split (fun b => isBlank b.toNat) (c :: rest)
    refine ⟨run, after, shape, total, .blanks ?_ inside⟩
    rintro rfl
    rw [Number.runLength_cons, if_pos blank] at total
    cases total
  | lineEnd ended hidden =>
    obtain ⟨ending, after, shape, total, ends⟩ := lineEndLength_split rest ended
    have enclosed := enclosed_of_not_endsStatements (Bool.eq_false_iff.mp hidden)
    exact ⟨ending, after, shape, total, .lineEnd enclosed ends⟩
  | lineComment slash second =>
    subst slash
    obtain ⟨rest, rfl⟩ := List.head?_eq_some_iff.mp second
    obtain ⟨body, after, shape, total, inside, ends⟩ := lineLength_after '/' '/' rest rfl rfl
    exact ⟨_, after, shape, total, .lineComment inside ends⟩
  | blockComment inner slash star closed =>
    subst slash
    obtain ⟨rest, rfl⟩ := List.head?_eq_some_iff.mp star
    obtain ⟨body, after, shape, rfl, first⟩ := commentRest_split closed
    rw [List.drop_succ_cons, List.drop_zero] at shape
    refine ⟨_, after, ?_, ?_, .blockComment first⟩
    · rw [shape]
      rfl
    · simp
  | firstLine hash mark start =>
    subst hash
    obtain ⟨rest, rfl⟩ := List.head?_eq_some_iff.mp mark
    obtain ⟨body, after, shape, total, inside, ends⟩ := lineLength_after '#' '!' rest rfl rfl
    exact ⟨_, after, shape, total, .firstLine start inside ends⟩
  | byteOrderMark mark start =>
    subst mark
    exact ⟨_, rest, rfl, rfl, .byteOrderMark start⟩
  | continuation backslash blank =>
    subst backslash
    have spaced : blankToLineEnd rest = true := blank
    obtain ⟨spaces, ending, after, shape, total, inside, ends⟩ := continuation_split spaced
    refine ⟨_, after, ?_, ?_, .continuation inside ends⟩
    · rw [List.cons_append, ← shape]
    · rw [List.length_cons, total]
      omega

theorem TokenAt.lineEnd_of_newline {ends : Bool} (found : TokenAt ends c rest .newline length) :
    isLineEnd c.toNat = true ∧ length = lineEndLength (c :: rest) ∧ ends = true := by
  generalize kindDef : TokenKind.newline = kind at found
  cases found with
  | lineEnd ended shown => exact ⟨ended, rfl, shown⟩
  | word started =>
    have word := TokenKind.ofWord_isWord (String.ofList ((c :: rest).take (wordLength (c :: rest))))
    rw [← kindDef] at word
    cases word
  | number => cases kindDef
  | string => cases kindDef
  | punctuation kind _ inside =>
    subst kindDef
    unfold punctuation? at inside
    split at inside <;> cases inside

theorem TokenAt.newline_of_lineEnd {ends : Bool} {kind : TokenKind}
    (found : TokenAt ends c rest kind length) (ended : isLineEnd c.toNat = true) :
    kind = .newline := by
  cases found with
  | lineEnd => rfl
  | word started =>
    have other := (not_blank_of_identifierStart started).2
    rw [ended] at other
    cases other
  | number digit =>
    have other := (not_word_of_digit digit).2.1
    rw [ended] at other
    cases other
  | string _ quote => rcases quote with rfl | rfl <;> cases ended
  | punctuation _ _ inside =>
    have known : punctuationHeads.all (fun d => !isLineEnd d.toNat) = true := by decide
    have other := List.all_eq_true.mp known c (punctuation?_head inside)
    rw [ended] at other
    cases other

/-- A token is of the kind of line ends exactly if its text is one. -/
theorem TokenAt.newline_iff {ends : Bool} {kind : TokenKind}
    (found : TokenAt ends c rest kind length) :
    kind = .newline ↔ LineEnd ((c :: rest).take length) ((c :: rest).drop length) := by
  constructor
  · rintro rfl
    obtain ⟨ended, rfl, -⟩ := found.lineEnd_of_newline
    obtain ⟨ending, after, shape, total, lineEnd⟩ := lineEndLength_split rest ended
    rw [← total, shape, List.take_left, List.drop_left]
    exact lineEnd
  · intro lineEnd
    obtain ⟨d, more, shape, ended⟩ := lineEnd.isLineEnd_head
    rw [take_pos found.length_bounds.1] at shape
    cases shape
    exact found.newline_of_lineEnd ended

end Lexeme

end GroovyTidy
