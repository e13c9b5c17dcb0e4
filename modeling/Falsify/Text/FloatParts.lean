import Falsify.Arithmetic

/-!
# The exact value of a floating-point number

A finite number is a sign and a product of a natural number and a power of two. Exact texts are made
from these parts in whole numbers alone.

* `FloatParts.ofFloat?`: the parts of a finite number;
* `FloatParts.ratio`: its magnitude as a fraction.
-/

namespace Falsify.Text

/-- A finite number: `significand * 2 ^ exponent`, negative or not. -/
structure FloatParts where
  negative : Bool
  significand : Nat
  exponent : Int
  deriving DecidableEq

namespace FloatParts

/-- The parts of a number, given by its bits: one of sign, eleven of exponent and 52 of
significand. -/
def ofBits? (bits : UInt64) : Option FloatParts :=
  let negative := bits >>> 63 == 1
  let exponent := ((bits >>> 52) &&& 0x7FF).toNat
  let fraction := (bits &&& 0xFFFFFFFFFFFFF).toNat
  if exponent = 2047 then none
  else if exponent = 0 then some ⟨negative, fraction, -1074⟩
  else some ⟨negative, fraction + 2 ^ 52, exponent - 1075⟩

/-- The parts of a number, unless it is infinite or no number. -/
def ofFloat? (x : Float) : Option FloatParts :=
  ofBits? x.toBits

/-- A number times a power of two, as numerator and denominator. -/
def scale (n : Nat) (exponent : Int) : Nat × Nat :=
  if 0 ≤ exponent then (n * 2 ^ exponent.toNat, 1) else (n, 2 ^ (-exponent).toNat)

/-- The magnitude as numerator and denominator. -/
def ratio (parts : FloatParts) : Nat × Nat :=
  scale parts.significand parts.exponent

end FloatParts

/-- The quotient rounded to the nearest whole number, a half going to the even neighbour. -/
def roundHalfEven (num den : Nat) : Nat :=
  let q := num / den
  let r := num % den
  if 2 * r < den then q
  else if den < 2 * r then q + 1
  else if q % 2 = 0 then q else q + 1

end Falsify.Text
