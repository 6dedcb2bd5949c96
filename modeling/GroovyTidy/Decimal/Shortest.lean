import GroovyTidy.Decimal.Binary64

set_option autoImplicit false

/-!
The shortest decimal text of a number: the fewest digits that read back as the number, and of those
the nearest to it, or the greater of two that are equally near.
-/
namespace GroovyTidy

/-- The decimal number `digits * 10 ^ exponent`. -/
structure Decimal where
  digits : Nat
  exponent : Int
  deriving DecidableEq, Repr

namespace Decimal

/-- Compares `digits * 10 ^ exponent` with `mantissa * 2 ^ power`. -/
def compareBinary (decimal : Decimal) (mantissa : Nat) (power : Int) : Ordering :=
  compare (decimal.digits * Nat.pow 10 decimal.exponent.toNat * Nat.pow 2 (-power).toNat)
    (mantissa * Nat.pow 2 power.toNat * Nat.pow 10 (-decimal.exponent).toNat)

/-- The decimal number lies among those that are nearest to `mantissa * 2 ^ exponent`. Below a power
of two the next number is only half as far away as above it. -/
def readsBack (mantissa : Nat) (exponent : Int) (decimal : Decimal) : Bool :=
  let narrow := mantissa = Nat.pow 2 52 ∧ Binary64.leastExponent < exponent
  let lower :=
    decimal.compareBinary (if narrow then 4 * mantissa - 1 else 4 * mantissa - 2) (exponent - 2)
  let upper := decimal.compareBinary (4 * mantissa + 2) (exponent - 2)
  let included := mantissa % 2 == 0
  (lower == .gt || (included && lower == .eq)) && (upper == .lt || (included && upper == .eq))

/-- The greatest multiple of a power of ten that is not above `mantissa * 2 ^ exponent`. -/
def floorAt (mantissa : Nat) (exponent : Int) (place : Int) : Nat :=
  (mantissa * Nat.pow 2 exponent.toNat * Nat.pow 10 (-place).toNat) /
    (Nat.pow 2 (-exponent).toNat * Nat.pow 10 place.toNat)

/-- The better of the two neighbours on the grid of a power of ten, of those that read back. -/
def bestAt? (mantissa : Nat) (exponent : Int) (place : Int) : Option Decimal :=
  let floor := floorAt mantissa exponent place
  let below : Decimal := ⟨floor, place⟩
  let above : Decimal := ⟨floor + 1, place⟩
  match readsBack mantissa exponent below, readsBack mantissa exponent above with
  | true, true =>
    let middle : Decimal := ⟨2 * floor + 1, place⟩
    some (if middle.compareBinary (2 * mantissa) exponent == .gt then below else above)
  | true, false => some below
  | false, true => some above
  | false, false => none

/-- The least power of ten above `mantissa * 2 ^ exponent`, searched from a lower one on. -/
def scaleFrom (mantissa : Nat) (exponent : Int) : Nat → Int → Int
  | 0, place => place
  | bound + 1, place =>
    if (⟨1, place⟩ : Decimal).compareBinary mantissa exponent == .gt then place
    else scaleFrom mantissa exponent bound (place + 1)

def scale (mantissa : Nat) (exponent : Int) : Int :=
  scaleFrom mantissa exponent 400 (((Nat.log2 mantissa : Int) + exponent) * 30103 / 100000 - 1)

/-- Moves up to so many zeros from the end of the digits into the exponent. -/
def trimmed : Nat → Decimal → Decimal
  | 0, decimal => decimal
  | bound + 1, decimal =>
    if decimal.digits % 10 = 0 then trimmed bound ⟨decimal.digits / 10, decimal.exponent + 1⟩
    else decimal

/-- The shortest decimal number that reads back as `mantissa * 2 ^ exponent`, or the exact one. -/
def shortest (mantissa : Nat) (exponent : Int) : Decimal :=
  let scale := scale mantissa exponent
  match (List.range 17).findSome? fun count =>
    bestAt? mantissa exponent (scale - (count + 1 : Nat)) with
  | some decimal => trimmed 17 decimal
  | none => ⟨mantissa * Nat.pow 2 exponent.toNat * Nat.pow 5 (-exponent).toNat, min exponent 0⟩

def zeros (count : Nat) : List Char :=
  List.replicate count '0'

/-- The digits of a decimal number around a point, which is left out if nothing follows it. -/
def positional (decimal : Decimal) : String :=
  let digits := Nat.toDigits 10 decimal.digits
  if 0 ≤ decimal.exponent then String.ofList (digits ++ zeros decimal.exponent.toNat)
  else
    let places := (-decimal.exponent).toNat
    let padded := zeros (places + 1 - digits.length) ++ digits
    let whole := padded.length - places
    String.ofList (padded.take whole ++ ['.'] ++ padded.drop whole)

end Decimal

namespace Binary64

def text : Binary64 → String
  | .finite negative mantissa exponent =>
    (if negative then "-" else "") ++
      if mantissa = 0 then "0" else (Decimal.shortest mantissa exponent).positional
  | .infinite negative => if negative then "-inf" else "inf"
  | .notANumber => "NaN"

/-- The number in decimal notation, with a point in it if it is finite. -/
def textWithPoint (number : Binary64) : String :=
  match number with
  | .finite _ _ _ => if number.text.contains '.' then number.text else number.text ++ ".0"
  | _ => number.text

end Binary64

end GroovyTidy
