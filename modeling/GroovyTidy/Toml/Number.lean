import GroovyTidy.Decimal.Binary64
import GroovyTidy.Toml.Scan

set_option autoImplicit false

/-!
Numbers of TOML. Underscores may stand between digits.
-/
namespace GroovyTidy.Toml

open Scan

/-- A sign, if there is one: whether it is negative. -/
def sign : Scan Bool := do
  let found ← maybe (one fun c => c == '+' || c == '-')
  return found == some '-'

/-- Digits with a property after the first ones, with single underscores between them. -/
def moreDigits (test : Char → Bool) : Scan (List Char) :=
  many do
    let _ ← maybe (char '_')
    one test

/-- Digits with a property, with single underscores between them. -/
def digitRun (test : Char → Bool) : Scan (List Char) := do
  return (← one test) :: (← moreDigits test)

/-- Decimal digits that do not start with a zero, or a zero alone. -/
def wholeDigits : Scan (List Char) := do
  let first ← one isDigit
  if first = '0' then return [first] else return first :: (← moreDigits isDigit)

def inRange (value : Int) : Scan Int :=
  if -(Nat.pow 2 63) ≤ value ∧ value < Nat.pow 2 63 then pure value else refuse

/-- Digits of a base after a zero and its letter. -/
def basedInteger (letter : Char) (base : Nat) (test : Char → Bool) : Scan Int := do
  word ['0', letter]
  inRange (valueOf base (← digitRun test))

def decimalInteger : Scan Int := do
  let negative ← sign
  let value : Int := valueOf 10 (← wholeDigits)
  inRange (if negative then -value else value)

def integer : Scan Int :=
  basedInteger 'x' 16 (fun c => Text.isHexDigit c.toNat) <|>
    basedInteger 'o' 8 (fun c => isDigit c && c.toNat < 0x38) <|>
    basedInteger 'b' 2 (fun c => c == '0' || c == '1') <|> decimalInteger

def exponent : Scan Int := do
  let _ ← one fun c => c == 'e' || c == 'E'
  let negative ← sign
  let value : Int := valueOf 10 (← digitRun isDigit)
  return if negative then -value else value

def fraction : Scan (List Char) := do
  char '.'
  digitRun isDigit

/-- What makes a number a floating one: a fraction, an exponent or both. -/
def floatingRest : Scan (List Char × Int) :=
  (do return ([], ← exponent)) <|>
    (do
      let places ← fraction
      return (places, (← maybe exponent).getD 0))

def ordinaryFloat : Scan Binary64 := do
  let negative ← sign
  let whole ← wholeDigits
  let (places, exponent) ← floatingRest
  let value := Binary64.ofDecimal negative (valueOf 10 (whole ++ places)) (exponent - places.length)
  if value = .infinite false then refuse else return value

/-- The words for what no digits can say. -/
def specialFloat : Scan Binary64 := do
  let negative ← sign
  (do literal "inf"; return .infinite negative) <|> (do literal "nan"; return .notANumber)

def float : Scan Binary64 :=
  ordinaryFloat <|> specialFloat

end GroovyTidy.Toml
