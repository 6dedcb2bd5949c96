import GroovyTidy.Token.Kind

set_option autoImplicit false

/-!
Numbers. The longest number at the front of a text is found by its parts: digits, a fraction, an
exponent and a suffix letter. A point or an exponent letter belongs to it only if a digit follows.
-/
namespace GroovyTidy.Number

open Text

/-- The length of the run of characters of a class at the front. -/
def runLength (member : Char → Bool) (text : List Char) : Nat :=
  (text.takeWhile member).length

/-- Digits after the first one may be underscores. -/
def isNumeral (c : Char) : Bool :=
  isDigit c.toNat || c == '_'

def isHexNumeral (c : Char) : Bool :=
  isHexDigit c.toNat || c == '_'

/-- One if the text starts with one of the letters, and zero otherwise. -/
def letterLength (letters : List Char) (text : List Char) : Nat :=
  if text.head?.any letters.contains then 1 else 0

/-- Letters that may end an integer. -/
def integerSuffix : List Char := ['l', 'L', 'g', 'G', 'i', 'I']

/-- Letters that may end a number with a fraction or an exponent. -/
def floatingSuffix : List Char := ['f', 'F', 'd', 'D', 'g', 'G']

/-- Letters that make a floating number of plain digits. -/
def floatingLetter : List Char := ['f', 'F', 'd', 'D']

/-- The length of an exponent: its letter, a sign if any, and digits. It is zero without digits. -/
def exponentLength (text : List Char) : Nat :=
  let letter := letterLength ['e', 'E'] text
  let sign := letterLength ['+', '-'] (text.drop letter)
  let digits := runLength (fun c => isDigit c.toNat) (text.drop (letter + sign))
  if letter = 0 ∨ digits = 0 then 0 else letter + sign + digits

/-- The length of a fraction: a point and digits, the first of which is no underscore. It is zero
without digits. -/
def fractionLength (text : List Char) : Nat :=
  match text with
  | '.' :: first :: _ => if isDigit first.toNat then 1 + runLength isNumeral (text.drop 1) else 0
  | _ => 0

/-- The length of a hexadecimal integer without its suffix. It is zero if the text starts with
none. -/
def hexLength (text : List Char) : Nat :=
  match text with
  | '0' :: x :: first :: _ =>
    if (x == 'x' || x == 'X') && isHexDigit first.toNat then
      2 + runLength isHexNumeral (text.drop 2)
    else 0
  | _ => 0

/-- The form and the length of the number at the front of a text that starts with a digit. -/
def leading (text : List Char) : LiteralForm × Nat :=
  if hexLength text ≠ 0 then
    (.integer, hexLength text + letterLength integerSuffix (text.drop (hexLength text)))
  else
    let digits := runLength isNumeral text
    let fraction := fractionLength (text.drop digits)
    let exponent := exponentLength (text.drop (digits + fraction))
    let size := digits + fraction + exponent
    if fraction ≠ 0 ∨ exponent ≠ 0 then
      (.floating, size + letterLength floatingSuffix (text.drop size))
    else if letterLength floatingLetter (text.drop digits) ≠ 0 then (.floating, digits + 1)
    else (.integer, digits + letterLength integerSuffix (text.drop digits))

end GroovyTidy.Number
