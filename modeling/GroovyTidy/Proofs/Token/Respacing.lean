import GroovyTidy.Proofs.Token.Gap
import GroovyTidy.Proofs.Token.Spelling

set_option autoImplicit false

/-!
Other blanks between tokens. The texts of the tokens of any source, put one after another with
blanks between neighbours, are read as the same tokens again. No blank goes on with a token, and the
delimiters that are open before a token depend on the tokens before it alone, balanced or not.
-/
namespace GroovyTidy

open Text Lexeme

/-- One or more blanks. -/
structure BlankRun where
  text : String
  filled : text ≠ ""
  blank : ∀ c ∈ text.toList, isBlank c.toNat = true

/-- The texts of tokens one after another, with a run of blanks between neighbours. The runs are
numbered from zero and may all differ. -/
def respaced (between : Nat → BlankRun) : List Token → String
  | [] => ""
  | [last] => last.text
  | first :: rest => first.text ++ (between 0).text ++ respaced (fun n => between (n + 1)) rest

theorem respaced_cons (between : Nat → BlankRun) (first : Token) {rest : List Token}
    (more : rest ≠ []) :
    respaced between (first :: rest) =
      first.text ++ (between 0).text ++ respaced (fun n => between (n + 1)) rest := by
  obtain ⟨next, rest, rfl⟩ := List.exists_cons_of_ne_nil more
  rfl

theorem not_identifierPart_of_blank {n : Nat} (blank : isBlank n = true) :
    isIdentifierPart n = false := by
  simp only [isBlank, isIdentifierPart, isIdentifierStart, isLetter, isDigit,
    Bool.or_eq_true, beq_iff_eq, Bool.or_eq_false_iff, Bool.and_eq_false_iff,
    decide_eq_false_iff_not, beq_eq_false_iff_ne] at blank ⊢
  omega

/-- No blank goes on with a token. -/
theorem TokenKind.goesOn_blank {c : Char} (blank : isBlank c.toNat = true) (kind : TokenKind)
    (text : List Char) : kind.goesOn text c = false := by
  have notPart := not_identifierPart_of_blank blank
  have other : ∀ d : Char, isBlank d.toNat = false → (c == d) = false := by
    intro d visible
    refine beq_eq_false_iff_ne.mpr fun same => ?_
    rw [same, visible] at blank
    cases blank
  have point := other '.' rfl
  have single := other '\'' rfl
  have double := other '"' rfl
  have feed := other '\n' rfl
  unfold goesOn Number.continues
  split
  all_goals simp only [notPart, point, single, double, feed, Bool.or_self, Bool.and_false]

namespace BlankRun

variable (run : BlankRun)

theorem exists_cons : ∃ c more, run.text.toList = c :: more :=
  List.exists_cons_of_ne_nil fun empty => run.filled (String.toList_eq_nil_iff.mp empty)

/-- Behind a run of blanks stands what is written there. -/
theorem written {opened : List Delimiter} {text : List Char} {spellings : List Spelling}
    (rest : Written opened text spellings) :
    Written opened (run.text.toList ++ text) spellings := by
  have blank := run.blank
  generalize run.text.toList = blanks at blank
  induction blanks with
  | nil => exact rest
  | cons c more ih =>
    obtain ⟨here, later⟩ := List.forall_mem_cons.mp blank
    exact .blank here (ih later)

/-- A run of blanks stops every token before it. -/
theorem stops (kind : TokenKind) (front text : List Char) :
    stopsAt (kind.goesOn front) (run.text.toList ++ text) := by
  obtain ⟨c, more, shape⟩ := run.exists_cons
  have blank : isBlank c.toNat = true := run.blank c (by simp [shape])
  rw [shape]
  intro first known
  cases known
  exact TokenKind.goesOn_blank blank kind front

end BlankRun

/-- The respaced tokens of a text are written with the delimiters open that are open before the
text. The induction follows the scanner: each step finds a token that is legible there, or passes
over a gap that no longer matters. -/
theorem respaced_written {index : LineIndex} {offset : Nat} {opened : List Delimiter}
    {skipped : Nat} {text : List Char} {tokens : List Token}
    (success : tokensFrom index offset opened skipped text = .ok tokens)
    (between : Nat → BlankRun) :
    ∃ spellings, tokens.map Token.spelling = spellings ++ [(.endOfInput, "")] ∧
      Written opened (respaced between tokens).toList spellings := by
  fun_induction tokensFrom index offset opened skipped text generalizing tokens between with
  | case1 offset opened skipped =>
    cases success
    exact ⟨[], rfl, .nil opened⟩
  | case2 offset opened skipped c rest ih => exact ih success between
  | case3 => cases success
  | case4 offset opened c rest length found ih => exact ih success between
  | case5 => cases success
  | case6 offset opened c rest kind length found token tokens more =>
    rename_i ih
    cases success
    have here := tokenAt_of_leading found
    obtain ⟨spellings, spelled, written⟩ := ih more fun n => between (n + 1)
    have filled : tokens ≠ [] := by
      rintro rfl
      simp at spelled
    have visible : kind = .newline → endsStatements opened = true := by
      rintro rfl
      exact here.lineEnd_of_newline.2.2
    refine ⟨token.spelling :: spellings, by rw [List.map_cons, spelled, List.cons_append], ?_⟩
    rw [respaced_cons between token filled, String.toList_append, String.toList_append,
      List.append_assoc]
    exact .token (.of_tokenAt here) ((between 0).stops _ _ _) visible ((between 0).written written)

/-- The tokens of a source are read again from their texts, whatever blanks stand between
neighbours. -/
theorem tokens_survive_respacing {source : String} {tokens : List Token}
    (success : tokenize source = .ok tokens) (between : Nat → BlankRun) :
    ∃ again, tokenize (respaced between tokens) = .ok again ∧
      again.map Token.spelling = tokens.map Token.spelling := by
  obtain ⟨spellings, spelled, written⟩ := respaced_written success between
  obtain ⟨again, read, same⟩ :=
    written.tokensFrom (.ofText (respaced between tokens).toList) 0 0 (Nat.zero_le _)
  exact ⟨again, read, same.trans spelled.symm⟩

/-- A source that no grammar would take: a bracket that closes nothing, a number next to a dot, a
carriage return and a line feed with a comment between them, two literals next to one another, and a
parenthesis that is never closed. -/
theorem tokens_survive_respacing_of_unbalanced :
    tokenize "]1.e\r/**/\n''\"$x\"(" =
      .ok [.place (.closing .bracket) "]" 0 1 1, .place (.literal .integer) "1" 1 1 2,
        .place .dot "." 2 1 3, .place .identifier "e" 3 1 4, .place .newline "\r" 4 1 5,
        .place .newline "\n" 9 2 5, .place (.literal .string) "''" 10 3 1,
        .place (.literal .interpolated) "\"$x\"" 12 3 3, .place (.opening .paren) "(" 16 3 7,
        .place .endOfInput "" 17 3 8] ∧
    ∃ again, tokenize "]\t1 \x0c.\te \x0c\r\t\n \x0c''\t\"$x\" \x0c(\t" = .ok again ∧
      again.map Token.spelling =
        [(.closing .bracket, "]"), (.literal .integer, "1"), (.dot, "."), (.identifier, "e"),
          (.newline, "\r"), (.newline, "\n"), (.literal .string, "''"),
          (.literal .interpolated, "\"$x\""), (.opening .paren, "("), (.endOfInput, "")] := by
  have success : tokenize "]1.e\r/**/\n''\"$x\"(" =
      .ok [.place (.closing .bracket) "]" 0 1 1, .place (.literal .integer) "1" 1 1 2,
        .place .dot "." 2 1 3, .place .identifier "e" 3 1 4, .place .newline "\r" 4 1 5,
        .place .newline "\n" 9 2 5, .place (.literal .string) "''" 10 3 1,
        .place (.literal .interpolated) "\"$x\"" 12 3 3, .place (.opening .paren) "(" 16 3 7,
        .place .endOfInput "" 17 3 8] := by
    rfl
  exact ⟨success, tokens_survive_respacing success fun n =>
    if n % 2 = 0 then ⟨"\t", by decide, by simp [isBlank]⟩ else ⟨" \x0c",
      by decide, by simp [isBlank]⟩⟩

end GroovyTidy
