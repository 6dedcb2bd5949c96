import GroovyTidy.Proofs.Format.Layout
import GroovyTidy.Proofs.Format.Written
import GroovyTidy.Proofs.Token.Bytes
import GroovyTidy.Proofs.Tree.TokenVector

set_option autoImplicit false

/-!
Formatting never fails but for errors in the source. The operations that could fail otherwise are
those on byte offsets, indices and counts: cutting a text, moving on by a number of bytes, looking
up a line or a token, and counting down. With each of them in an `Option` of its own, scanning,
looking ahead and showing an error answer on every source, and they answer what they do without. A
printed document has no levels of indentation, so no columns are added up for it.
-/
namespace GroovyTidy

open Lookahead Printer Text

/-- Wherever a stretch of units leads to, what is ahead can be seen. -/
theorem Text.Place.lookAhead?_advanceBy? (text : List Char) (n k : Nat) :
    ((start.advanceBy? text n).bind fun place => place.lookAhead? text k) =
      some (((Cursor.ofText text).advanceBy n).lookAhead? k) := by
  have moved := advanceBy?_eq (cursor?_start text) n
  rw [moved.1, Option.bind_some, lookAhead?_eq moved.2]

/-- Formatting gives the text of a printed document, or else the error at which reading stops. -/
theorem format_cases (options : LayoutOptions) (source : String) :
    (∃ unit, parse source = .ok unit ∧ (print unit).Rigid ∧
        Format.groovy.format options source = .ok (print unit).flat) ∨
      ∃ error, parse source = .error error ∧
        Format.groovy.format options source = .error (.malformed error) := by
  cases read : parse source with
  | error error => exact .inr ⟨error, rfl, format_of_error read⟩
  | ok unit => exact .inl ⟨unit, rfl, print_rigid unit, format_of_parse read⟩

/-- Formatted text is the flat text of the printed tree, so the width of lines and that of an
indentation are without effect, also on whether there is a formatted text. -/
theorem format_eq_flat (source : String) :
    (∀ unit, parse source = .ok unit →
      ∀ options, Format.groovy.format options source = .ok (print unit).flat) ∧
      ∀ options other, Format.groovy.format options source = Format.groovy.format other source := by
  refine ⟨fun unit parsed options => format_of_parse parsed, ?_⟩
  intro options other
  rcases format_cases options source with ⟨unit, parsed, -, success⟩ | ⟨error, stopped, refused⟩
  · rw [success, format_of_parse parsed]
  · rw [refused, format_of_error stopped]

/-- A literal of several lines is neither wrapped nor moved, with lines of no width and the widest
indentation. -/
theorem format_eq_flat_of_block :
    ∃ unit, parse "x  1,'''a\n  b'''" = .ok unit ∧ (print unit).flat = "x 1, '''a\n  b'''\n" ∧
      Format.groovy.format ⟨0, 18446744073709551615⟩ "x  1,'''a\n  b'''" =
        .ok (print unit).flat := by
  have success : Format.groovy.format {} "x  1,'''a\n  b'''" = .ok "x 1, '''a\n  b'''\n" := by
    decide +kernel
  obtain ⟨unit, parsed, text⟩ := format_eq_ok success
  exact ⟨unit, parsed, text.symm, (format_eq_flat _).1 unit parsed _⟩

/-- Every error can be shown in every source, with the lines of its excerpt looked up. -/
theorem SyntaxError.excerpt?_line (error : SyntaxError) (source : String) :
    ((excerpt? source.toList error.line).map fun rows => error.describe ++ "\n\n" ++ rows) =
      some (error.withExcerpt source) := by
  rw [excerpt?_eq, Option.map_some, withExcerpt]

/-- No operation on offsets, indices or counts fails, at any place in a source and in any list of
tokens. -/
theorem operations_succeed (source : String) :
    (∀ n k,
      ((Place.start.advanceBy? source.toList n).bind fun place =>
        place.lookAhead? source.toList k) =
      some (((Cursor.ofText source.toList).advanceBy n).lookAhead? k)) ∧
    (∀ offset, locate? source.toList (lineStarts (toBytes source)) offset =
      some ((LineIndex.ofText source.toList).locate offset)) ∧
    tokensAt? source.toList 0 [] = some (tokenize source) ∧
    (∀ tokens n k, ((TokenVector.ofTokens tokens).consumeBy n).lookAhead? k =
      some (((TokenStream.ofTokens tokens).advanceBy n).lookAhead k)) ∧
    (∀ tokens n, ((TokenVector.ofTokens tokens).consumeBy n).declaresMethod? =
      some (declaresMethod ((TokenStream.ofTokens tokens).advanceBy n).pending)) ∧
    (∀ error : SyntaxError,
      ((excerpt? source.toList error.line).map fun rows => error.describe ++ "\n\n" ++ rows) =
      some (error.withExcerpt source)) ∧
    ∀ options,
      (∃ unit, parse source = .ok unit ∧ (print unit).Rigid ∧
        Format.groovy.format options source = .ok (print unit).flat) ∨
      ∃ error, parse source = .error error ∧
        Format.groovy.format options source = .error (.malformed error) := by
  have held (tokens : List Token) (n : Nat) :=
    (TokenVector.holds_ofTokens tokens).consumeBy n
  refine ⟨Place.lookAhead?_advanceBy? source.toList, ?_, tokensAt?_start source, ?_, ?_, ?_, ?_⟩
  · intro offset
    have found := locate?_lineStarts source.toList offset
    rw [String.ofList_toList] at found
    exact found
  · intro tokens n k
    exact (held tokens n).lookAhead? k
  · intro tokens n
    exact (held tokens n).declaresMethod?
  · intro error
    exact error.excerpt?_line source
  · intro options
    exact format_cases options source

end GroovyTidy
