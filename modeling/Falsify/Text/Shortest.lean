import Falsify.Text.FloatParts

/-!
# The shortest decimal of a number

The fewest digits that read back as a given floating-point number, and of those the nearest to it.
A decimal reads back if it lies between the two points halfway to the neighbouring numbers; these
points themselves count if the significand is even.

* `Decimal`: digits and the place of the point;
* `shortest`: the decimal of the magnitude of a finite number.
-/

namespace Falsify.Text

/-- The decimal fraction `0.d₁d₂…` times `10 ^ point`, its digits given as a number. -/
structure Decimal where
  digits : Nat
  point : Int
  deriving DecidableEq

/-- The numbers that read back as a given one: fractions with a common denominator, ends included or
not. -/
structure Rounding where
  low : Nat
  value : Nat
  high : Nat
  den : Nat
  closed : Bool

namespace Rounding

/-- The interval of a finite number. Below the least number of its power of two, the numbers lie
twice as close. -/
def ofParts (parts : FloatParts) : Rounding :=
  let m := parts.significand
  let close := m = 2 ^ 52 ∧ parts.exponent > -1074
  let den := (FloatParts.scale 1 (parts.exponent - 2)).2
  let num (n : Nat) := (FloatParts.scale n (parts.exponent - 2)).1
  ⟨num (if close then 4 * m - 1 else 4 * m - 2), num (4 * m), num (4 * m + 2), den, m % 2 = 0⟩

/-- Whether the fraction `num / den` lies in the interval. -/
def holds (r : Rounding) (num den : Nat) : Bool :=
  let low := r.low * den
  let high := r.high * den
  let x := num * r.den
  if r.closed then low ≤ x && x ≤ high else low < x && x < high

/-- The multiple of `unitNum / unitDen` that reads back and lies nearest, of the two next to the
value; if both are equally near, the even one. -/
def onGrid (r : Rounding) (unitNum unitDen : Nat) : Option Nat :=
  let num := r.value * unitDen
  let den := r.den * unitNum
  let below := num / den
  let nearest := roundHalfEven num den
  let other := if nearest = below then below + 1 else below
  if r.holds (nearest * unitNum) unitDen then some nearest
  else if r.holds (other * unitNum) unitDen then some other
  else none

end Rounding

/-- The power of ten above a fraction: the least `p` with `num / den < 10 ^ p`, looked for upwards
from `p`, at most `fuel` steps. -/
def powerAbove (num den : Nat) : (fuel : Nat) → (p : Int) → Int
  | 0, p => p
  | fuel + 1, p =>
    let above := if 0 ≤ p then num < den * 10 ^ p.toNat else num * 10 ^ (-p).toNat < den
    if above then p else powerAbove num den fuel (p + 1)

/-- A number without the zeros at its end. -/
def stripZeros (digits : Nat) : Nat :=
  if h : 0 < digits ∧ digits % 10 = 0 then stripZeros (digits / 10) else digits
termination_by digits
decreasing_by omega

/-- The first grid that has a decimal which reads back: grids of `count` and more digits are
tried. -/
def firstGrid (r : Rounding) (point : Int) : (fuel : Nat) → (count : Nat) → Decimal
  | 0, _ => ⟨0, 0⟩
  | fuel + 1, count =>
    let place := point - count
    let unit := if 0 ≤ place then (10 ^ place.toNat, 1) else (1, 10 ^ (-place).toNat)
    match r.onGrid unit.1 unit.2 with
    | some n => if n = 10 ^ count then ⟨1, point + 1⟩ else ⟨stripZeros n, point⟩
    | none => firstGrid r point fuel (count + 1)

/-- The shortest decimal that reads back as the magnitude of a finite number. -/
def shortest (parts : FloatParts) : Decimal :=
  if parts.significand = 0 then ⟨0, 0⟩
  else
    let r := Rounding.ofParts parts
    firstGrid r (powerAbove r.value r.den 700 (-330)) 17 1

end Falsify.Text
