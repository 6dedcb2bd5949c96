set_option autoImplicit false

/-!
Floating-point numbers of 64 bits, by exact arithmetic.
-/
namespace GroovyTidy

/-- A number of 64 bits. A finite one is a whole number below `2 ^ 53` times a power of two that is
at least `2 ^ (-1074)`. -/
inductive Binary64 where
  | finite (negative : Bool) (mantissa : Nat) (exponent : Int)
  | infinite (negative : Bool)
  | notANumber
  deriving DecidableEq, Repr

namespace Binary64

/-- A quotient rounded to the nearest whole number, a half to the even one. -/
def roundToEven (numerator denominator : Nat) : Nat :=
  let quotient := numerator / denominator
  let rest := numerator % denominator
  if 2 * rest < denominator then quotient
  else if denominator < 2 * rest then quotient + 1
  else quotient + quotient % 2

/-- A quotient rounded to the nearest whole number, a half upwards. -/
def roundHalfUp (numerator denominator : Nat) : Nat :=
  (2 * numerator + denominator) / (2 * denominator)

def leastExponent : Int := -1074

/-- The greatest exponent of a finite number with a mantissa of 53 bits. -/
def greatestExponent : Int := 971

/-- The exponent with which a positive quotient has a mantissa of 53 bits, or the least one. -/
def exponentOf (numerator denominator : Nat) : Int :=
  let guess := max ((Nat.log2 numerator : Int) - Nat.log2 denominator - 53) leastExponent
  if numerator * Nat.pow 2 (-guess).toNat < Nat.pow 2 53 *
    (denominator * Nat.pow 2 guess.toNat) then guess
  else guess + 1

def nearest (negative : Bool) (numerator denominator : Nat) : Binary64 :=
  let exponent := exponentOf numerator denominator
  let mantissa :=
    roundToEven (numerator * Nat.pow 2 (-exponent).toNat) (denominator * Nat.pow 2 exponent.toNat)
  let carried := mantissa = Nat.pow 2 53
  let exponent := if carried then exponent + 1 else exponent
  if greatestExponent < exponent then .infinite negative
  else .finite negative (if carried then Nat.pow 2 52 else mantissa) exponent

/-- The number nearest to `digits * 10 ^ exponent`. Beyond four hundred places the answer is
plain. -/
def ofDecimal (negative : Bool) (digits : Nat) (exponent : Int) : Binary64 :=
  let places : Int := (Nat.toDigits 10 digits).length + exponent
  if digits = 0 ∨ places < -400 then .finite negative 0 leastExponent
  else if 400 < places then .infinite negative
  else nearest negative (digits * Nat.pow 10 exponent.toNat) (Nat.pow 10 (-exponent).toNat)

/-- The nearest natural number of 64 bits, a half away from zero. What is no number counts as
zero. -/
def toNatural : Binary64 → Nat
  | .finite true _ _ => 0
  | .finite false mantissa exponent =>
    min (roundHalfUp (mantissa * Nat.pow 2 exponent.toNat) (Nat.pow 2 (-exponent).toNat))
      (Nat.pow 2 64 - 1)
  | .infinite true => 0
  | .infinite false => Nat.pow 2 64 - 1
  | .notANumber => 0

end Binary64

end GroovyTidy
