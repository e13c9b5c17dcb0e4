import Falsify.Text.Shortest

/-!
# JSON

JSON values and their compact text. Objects keep the order in which their fields are given. Whole
numbers are exact; other numbers are written with the fewest digits that read back, positionally
where the point lies near the digits and with an exponent elsewhere.

* `Json`: the values;
* `Json.compact`: the text of a value, on one line and without blanks.
-/

namespace Falsify

/-- A JSON value. -/
inductive Json where
  | null
  | bool (value : Bool)
  | int (value : Int)
  | float (value : Float)
  | str (value : String)
  | arr (items : List Json)
  | obj (fields : List (String × Json))
  deriving Inhabited

namespace Json

/-- The number of a value. Those that are no JSON numbers are given by name. -/
def toFloat? : Json → Option Float
  | .int value => some (Float.ofInt value)
  | .float value => some value
  | .str "nan" => some (0.0 / 0.0)
  | .str "inf" => some (1.0 / 0.0)
  | .str "-inf" => some (-1.0 / 0.0)
  | _ => none

/-- The digit of a number below sixteen. -/
def hexDigit (n : Nat) : Char :=
  Nat.digitChar n

/-- A character inside a string: the quote, the backslash and control characters are escaped. -/
def escape (c : Char) : List Char :=
  if c = '"' then ['\\', '"']
  else if c = '\\' then ['\\', '\\']
  else if c = '\x08' then ['\\', 'b']
  else if c = '\x0c' then ['\\', 'f']
  else if c = '\n' then ['\\', 'n']
  else if c = '\r' then ['\\', 'r']
  else if c = '\t' then ['\\', 't']
  else if c.toNat < 0x20 then
    ['\\', 'u', '0', '0', hexDigit (c.toNat / 16), hexDigit (c.toNat % 16)]
  else [c]

/-- A string in quotes. -/
def string (text : String) : List Char :=
  '"' :: text.toList.flatMap escape ++ ['"']

/-- How a number that is not whole is written. -/
structure NumberFormat where
  /-- The point may lie up to this many places behind the first digit. -/
  mostPlaces : Int
  /-- The point may lie fewer than this many places in front of the first digit. -/
  mostZeros : Int

/-- Numbers from `1e-5` up to `1e16` are written without an exponent. -/
def numberFormat : NumberFormat :=
  ⟨16, 5⟩

/-- A power of ten behind its mark; it always has a sign. -/
def exponent (power : Int) : List Char :=
  'e' :: (if power < 0 then [] else ['+']) ++ (toString power).toList

/-- The text of a decimal. One that is whole still has a place behind the point. -/
def decimal (f : NumberFormat) (d : Text.Decimal) : List Char :=
  let digits := Nat.toDigits 10 d.digits
  let count : Int := digits.length
  if 0 < d.point ∧ d.point ≤ f.mostPlaces then
    if count ≤ d.point then digits ++ List.replicate (d.point - count).toNat '0' ++ ['.', '0']
    else digits.take d.point.toNat ++ '.' :: digits.drop d.point.toNat
  else if -f.mostZeros < d.point ∧ d.point ≤ 0 then
    '0' :: '.' :: List.replicate (-d.point).toNat '0' ++ digits
  else
    digits.take 1 ++ (if digits.length = 1 then [] else '.' :: digits.drop 1)
      ++ exponent (d.point - 1)

/-- The text of a number. What is not finite has none and is written as `null`. -/
def number (x : Float) : List Char :=
  match Text.FloatParts.ofFloat? x with
  | none => "null".toList
  | some parts =>
    let text :=
      if parts.significand = 0 then "0.0".toList
      else decimal numberFormat (Text.shortest parts)
    if parts.negative then '-' :: text else text

/-- Texts with a comma between neighbours. -/
def commaSeparated : List (List Char) → List Char
  | [] => []
  | [text] => text
  | text :: rest => text ++ ',' :: commaSeparated rest

mutual

/-- The characters of a value's text. -/
def chars : Json → List Char
  | .null => "null".toList
  | .bool value => (if value then "true" else "false").toList
  | .int value => (toString value).toList
  | .float value => number value
  | .str value => string value
  | .arr items => '[' :: commaSeparated (itemChars items) ++ [']']
  | .obj fields => '\x7b' :: commaSeparated (fieldChars fields) ++ ['\x7d']

def itemChars : List Json → List (List Char)
  | [] => []
  | item :: rest => chars item :: itemChars rest

def fieldChars : List (String × Json) → List (List Char)
  | [] => []
  | (name, value) :: rest => (string name ++ ':' :: chars value) :: fieldChars rest

end

/-- The text of a value. -/
def compact (value : Json) : String :=
  String.ofList value.chars

end Json

end Falsify
