import GroovyTidy.Text.CodePoint

set_option autoImplicit false

/-!
Reading text from the front: what every part of a TOML document is read with.
-/
namespace GroovyTidy.Toml

/-- Reads something from the front of a text, if it is there. -/
abbrev Scan := StateT (List Char) Option

namespace Scan

def refuse {α : Type} : Scan α := fun _ => none

def one (test : Char → Bool) : Scan Char
  | [] => none
  | c :: rest => if test c then some (c, rest) else none

/-- All characters at the front with a property. -/
def run (test : Char → Bool) : Scan (List Char) := fun text =>
  some (text.takeWhile test, text.dropWhile test)

def someOf (test : Char → Bool) : Scan (List Char) := do
  return (← one test) :: (← run test)

def char (wanted : Char) : Scan Unit := do
  let _ ← one (· == wanted)

def word : List Char → Scan Unit
  | [] => pure ()
  | c :: rest => do
    char c
    word rest

def literal (wanted : String) : Scan Unit :=
  word wanted.toList

/-- What a reader reads, or nothing. -/
def maybe {α : Type} (scan : Scan α) : Scan (Option α) := fun text =>
  match scan text with
  | some (a, rest) => some (some a, rest)
  | none => some (none, text)

/-- Reads again and again, at most so many times, until there is no more or nothing is read. -/
def repeatWithin {α : Type} (scan : Scan α) : Nat → Scan (List α)
  | 0 => pure []
  | bound + 1 => fun text =>
    match scan text with
    | none => some ([], text)
    | some (first, rest) =>
      match repeatWithin scan bound rest with
      | none => none
      | some (others, rest) => some (first :: others, rest)

/-- Reads again and again until there is no more. What is read has to take a character. -/
def many {α : Type} (scan : Scan α) : Scan (List α) := fun text =>
  repeatWithin scan text.length text

def atEnd : Scan Unit
  | [] => some ((), [])
  | _ :: _ => none

end Scan

open Scan

def isWhite (c : Char) : Bool :=
  c == ' ' || c == '\t'

def white : Scan Unit := do
  let _ ← run isWhite

/-- The end of a line. A carriage return counts only before a line feed. -/
def newline : Scan Unit :=
  literal "\n" <|> literal "\r\n"

/-- What may stand in comments and, quotes and backslashes apart, in texts: tabs and all characters
that are no control characters. -/
def isVisible (c : Char) : Bool :=
  c == '\t' || (0x20 ≤ c.toNat && c.toNat != 0x7F)

def comment : Scan Unit := do
  char '#'
  let _ ← run isVisible

/-- The end of a line or of the text. -/
def lineEnd : Scan Unit :=
  newline <|> atEnd

/-- What may follow on the line of an expression. -/
def lineRest : Scan Unit := do
  white
  let _ ← maybe comment
  lineEnd

/-- Blanks, comments and ends of lines. -/
def filler : Scan Unit := do
  let _ ← many ((do let _ ← someOf isWhite) <|> newline <|> comment)

def isDigit (c : Char) : Bool :=
  Text.isDigit c.toNat

def digitValue (c : Char) : Nat :=
  if isDigit c then c.toNat - 0x30 else (Text.lowerAscii c).toNat - 0x57

def valueOf (base : Nat) (digits : List Char) : Nat :=
  digits.foldl (fun value c => value * base + digitValue c) 0

def digits : Nat → Scan (List Char)
  | 0 => pure []
  | count + 1 => do
    return (← one isDigit) :: (← digits count)

end GroovyTidy.Toml
