import GroovyTidy.Toml.Scan

set_option autoImplicit false

/-!
Quoted texts of TOML: basic ones with escapes, literal ones without, and both over several lines.
-/
namespace GroovyTidy.Toml

open Scan

def shortEscape? : Char → Option Char
  | 'b' => some '\x08'
  | 't' => some '\t'
  | 'n' => some '\n'
  | 'f' => some '\x0c'
  | 'r' => some '\r'
  | '"' => some '"'
  | '\\' => some '\\'
  | _ => none

def hexDigits : Nat → Scan (List Char)
  | 0 => pure []
  | count + 1 => do
    return (← one fun c => Text.isHexDigit c.toNat) :: (← hexDigits count)

/-- The character with a code point. Halves of surrogate pairs are none. -/
def scalar (codePoint : Nat) : Scan Char :=
  if codePoint.isValidChar then pure (Char.ofNat codePoint) else refuse

def escape : Scan Char := do
  let letter ← one fun _ => true
  if letter = 'u' then scalar (valueOf 16 (← hexDigits 4))
  else if letter = 'U' then scalar (valueOf 16 (← hexDigits 8))
  else
    match shortEscape? letter with
    | some c => pure c
    | none => refuse

/-- Characters that stand for themselves between double quotes. -/
def isBasic (c : Char) : Bool :=
  isVisible c && c != '"' && c != '\\'

/-- Characters that stand for themselves between single quotes. -/
def isLiteral (c : Char) : Bool :=
  isVisible c && c != '\''

def escaped : Scan Char := do
  char '\\'
  escape

def basicText : Scan (List Char) := do
  char '"'
  let content ← many (one isBasic <|> escaped)
  char '"'
  return content

def literalText : Scan (List Char) := do
  char '\''
  let content ← run isLiteral
  char '\''
  return content

/-- The quotes at the front, up to five: three of them close a text of several lines and the others
belong to it; fewer than three belong to it altogether and leave it open. -/
def quotes (quote : Char) : Scan (List Char × Bool) := fun text =>
  let count := min (text.takeWhile (· == quote)).length 5
  if count = 0 then none
  else if count < 3 then some ((List.replicate count quote, false), text.drop count)
  else some ((List.replicate (count - 3) quote, true), text.drop count)

/-- The rest of a text of several lines, given a reader for the parts between quotes. -/
def blockRest (quote : Char) (part : Scan (List Char)) : Nat → Scan (List Char)
  | 0 => refuse
  | bound + 1 => do
    let front ← List.flatten <$> many part
    let (inner, closed) ← quotes quote
    if closed then return front ++ inner
    else return front ++ inner ++ (← blockRest quote part bound)

/-- A text of several lines between three quotes. A line end right after the opening quotes does not
count. -/
def block (quote : Char) (part : Scan (List Char)) : Scan (List Char) := do
  word [quote, quote, quote]
  let _ ← maybe newline
  fun text => blockRest quote part (text.length + 1) text

/-- A backslash at the end of a line takes all blanks and line ends after it along. -/
def continuation : Scan (List Char) := do
  char '\\'
  white
  newline
  let _ ← many ((do let _ ← one isWhite) <|> newline)
  return []

def innerLineEnd : Scan (List Char) := do
  newline
  return ['\n']

def basicBlock : Scan (List Char) :=
  block '"' (someOf isBasic <|> continuation <|> (do return [← escaped]) <|> innerLineEnd)

def literalBlock : Scan (List Char) :=
  block '\'' (someOf isLiteral <|> innerLineEnd)

/-- A text in quotes of any kind. Three quotes always open a text of several lines. -/
def quotedText : Scan (List Char) := fun text =>
  if text.take 3 = ['"', '"', '"'] then basicBlock text
  else if text.take 3 = ['\'', '\'', '\''] then literalBlock text
  else (basicText <|> literalText) text

end GroovyTidy.Toml
