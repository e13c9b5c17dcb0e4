import Falsify.Text.FloatParts

/-!
# Numbers with a fixed number of places

The exact value of a floating-point number, rounded to so many decimal places; a half goes to the
even neighbour.

* `fixedPoint`: the text.
-/

namespace Falsify.Text

/-- A whole number of units of the last place as a text with that many places. -/
def pointAt (places : Nat) (units : Nat) : List Char :=
  let digits := Nat.toDigits 10 units
  let digits := List.replicate (places + 1 - digits.length) '0' ++ digits
  if places = 0 then digits
  else
    let whole := digits.length - places
    digits.take whole ++ '.' :: digits.drop whole

/-- A number with `places` decimal places. -/
def fixedPoint (places : Nat) (x : Float) : String :=
  match FloatParts.ofFloat? x with
  | none => if x.isNaN then "NaN" else if x > 0.0 then "inf" else "-inf"
  | some parts =>
    let (num, den) := parts.ratio
    let text := pointAt places (roundHalfEven (num * 10 ^ places) den)
    String.ofList (if parts.negative then '-' :: text else text)

end Falsify.Text
