/-!
# Reading whole numbers

Numbers that are not negative, in decimal, with a limit. A plus sign may stand in front. Digits
are read from the front, so a number that has become too large is reported before a bad character
behind it.

* `readNatural`: the reader;
* `NumeralError.message`: what is wrong with a text.
-/

namespace Falsify.Text

/-- Why a text is no number. -/
inductive NumeralError where
  | empty
  | badDigit
  | tooLarge
  deriving DecidableEq

def NumeralError.message : NumeralError → String
  | .empty => "cannot parse integer from empty string"
  | .badDigit => "invalid digit found in string"
  | .tooLarge => "number too large to fit in target type"

/-- Reads on after the digits of `n`; no number may reach `limit`. -/
def readDigits (limit : Nat) (n : Nat) : List Char → Except NumeralError Nat
  | [] => .ok n
  | c :: rest =>
    if c < '0' ∨ '9' < c then .error .badDigit
    else
      let n := 10 * n + (c.toNat - 48)
      if n < limit then readDigits limit n rest else .error .tooLarge

/-- The number below `limit` that a text stands for. -/
def readNatural (limit : Nat) (text : String) : Except NumeralError Nat :=
  match text.toList with
  | [] => .error .empty
  | ['+'] => .error .badDigit
  | '+' :: digits => readDigits limit 0 digits
  | digits => readDigits limit 0 digits

end Falsify.Text
