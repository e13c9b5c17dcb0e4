import Falsify.Text.Json

/-!
# Reading JSON

JSON values from their texts. A whole number that fits a word, with its sign, is exact. Any other
number is a floating-point number: the digits that fit a word, multiplied or divided by a power of
ten. Zero keeps its sign, so minus zero is no whole number.

* `Json.parse?`: the value that a text stands for, if the text is that of one value.
-/

namespace Falsify.Json

/-- Blanks between the parts of a text. -/
def isGap (c : Char) : Bool :=
  c = ' ' || c = '\n' || c = '\r' || c = '\t'

def skipGap (cs : List Char) : List Char :=
  cs.dropWhile isGap

/-! ## Numbers -/

/-- The parts of a number as it is written. -/
structure Numeral where
  negative : Bool
  /-- The digits in front of the point. -/
  whole : List Char
  /-- The digits behind the point, if there is one. -/
  fraction : Option (List Char)
  /-- The power of ten behind the digits, if there is one. -/
  power : Option Int

namespace Numeral

/-- The number of some digits, those of `n` in front of them, as far as it fits a word, and how many
digits are left over. -/
def takeDigits (n : Nat) : List Char → Nat × Nat
  | [] => (n, 0)
  | c :: rest =>
    let next := 10 * n + (c.toNat - 48)
    if next < 2 ^ 64 then takeDigits next rest else (n, rest.length + 1)

/-- A power of ten as the nearest floating-point number. -/
def powerOfTen (n : Nat) : Float :=
  Float.ofScientific 1 false n

/-- The greatest power of ten that is a finite floating-point number. -/
def greatestPower : Nat := 308

/-- A number divided by a power of ten, in steps by powers that are finite. -/
def divideByPower (x : Float) (n : Nat) : Float :=
  if _h : n ≤ greatestPower then x / powerOfTen n
  else if x == 0.0 then x
  else divideByPower (x / powerOfTen greatestPower) (n - greatestPower)
termination_by n
decreasing_by
  unfold greatestPower at *
  omega

/-- A number times a power of ten, if there is such a floating-point number. -/
def scale? (significand : Nat) (power : Int) : Option Float :=
  let x := (UInt64.ofNat significand).toFloat
  if power < 0 then some (divideByPower x power.natAbs)
  else if significand = 0 then some x
  else if power ≤ greatestPower then
    let y := x * powerOfTen power.natAbs
    if y.isInf then none else some y
  else none

def toFloat? (n : Numeral) : Option Float := do
  let (wholePart, left) := takeDigits 0 n.whole
  let fraction := n.fraction.getD []
  let (significand, dropped) := takeDigits wholePart fraction
  let x ← scale? significand (left - (fraction.length - dropped : Nat) + n.power.getD 0)
  return if n.negative then -x else x

/-- The number as a value. -/
def toJson? (n : Numeral) : Option Json :=
  let size := (takeDigits 0 n.whole).1
  let fits := (takeDigits 0 n.whole).2 = 0 && n.fraction.isNone && n.power.isNone
  if fits && !n.negative then some (.int size)
  else if fits && 0 < size && size ≤ 2 ^ 63 then some (.int (-size))
  else n.toFloat?.map .float

end Numeral

/-- The digits at the start of a text, and what follows them. There must be one at least. -/
def readDigits? (cs : List Char) : Option (List Char × List Char) :=
  match cs.takeWhile Char.isDigit with
  | [] => none
  | digits => some (digits, cs.dropWhile Char.isDigit)

def readFraction? : List Char → Option (Option (List Char) × List Char)
  | '.' :: rest => (readDigits? rest).map fun (digits, rest) => (some digits, rest)
  | rest => some (none, rest)

/-- The number that digits stand for, whatever its size. -/
def numberOf (digits : List Char) : Nat :=
  digits.foldl (fun n c => 10 * n + (c.toNat - 48)) 0

def readSigned? : List Char → Option (Int × List Char)
  | '-' :: rest => (readDigits? rest).map fun (digits, rest) => (-numberOf digits, rest)
  | '+' :: rest => (readDigits? rest).map fun (digits, rest) => (↑(numberOf digits), rest)
  | rest => (readDigits? rest).map fun (digits, rest) => (↑(numberOf digits), rest)

def readPower? : List Char → Option (Option Int × List Char)
  | 'e' :: rest => (readSigned? rest).map fun (power, rest) => (some power, rest)
  | 'E' :: rest => (readSigned? rest).map fun (power, rest) => (some power, rest)
  | rest => some (none, rest)

/-- The number at the start of a text. -/
def readNumber? (cs : List Char) : Option (Json × List Char) := do
  let negative := cs.head? = some '-'
  let (whole, rest) ← readDigits? (if negative then cs.drop 1 else cs)
  if whole.head? = some '0' ∧ 1 < whole.length then none
  else
    let (fraction, rest) ← readFraction? rest
    let (power, rest) ← readPower? rest
    let value ← Numeral.toJson? ⟨negative, whole, fraction, power⟩
    return (value, rest)

/-! ## Strings -/

/-- The value of a hexadecimal digit. -/
def hexValue? (c : Char) : Option Nat :=
  if c.isDigit then some (c.toNat - 48)
  else if 'a' ≤ c ∧ c ≤ 'f' then some (c.toNat - 87)
  else if 'A' ≤ c ∧ c ≤ 'F' then some (c.toNat - 55)
  else none

/-- The number of four hexadecimal digits. -/
def readUnit? (a b c d : Char) : Option Nat := do
  return 4096 * (← hexValue? a) + 256 * (← hexValue? b) + 16 * (← hexValue? c) + (← hexValue? d)

/-- The character that stands behind a backslash. -/
def unescape? : Char → Option Char
  | '"' => some '"'
  | '\\' => some '\\'
  | '/' => some '/'
  | 'b' => some '\x08'
  | 'f' => some '\x0c'
  | 'n' => some '\n'
  | 'r' => some '\r'
  | 't' => some '\t'
  | _ => none

/-- The rest of a string up to its closing quote, and what follows. The characters before it are
given in reverse. A character beyond the first 65536 may be written as two units; `first` is the
first one of them, if it has been read. -/
def readString? (first : Option Nat) (before : List Char) : List Char → Option (String × List Char)
  | [] => none
  | '\\' :: 'u' :: a :: b :: c :: d :: rest => do
    let unit ← readUnit? a b c d
    match first with
    | some high =>
      if 0xDC00 ≤ unit ∧ unit < 0xE000 then
        let char := Char.ofNat (0x10000 + 0x400 * (high - 0xD800) + (unit - 0xDC00))
        readString? none (char :: before) rest
      else none
    | none =>
      if 0xD800 ≤ unit ∧ unit < 0xDC00 then readString? (some unit) before rest
      else if 0xDC00 ≤ unit ∧ unit < 0xE000 then none
      else readString? none (Char.ofNat unit :: before) rest
  | '\\' :: c :: rest => do
    let char ← unescape? c
    if first.isSome then none else readString? none (char :: before) rest
  | c :: rest =>
    if first.isSome ∨ c.toNat < 0x20 then none
    else if c = '"' then some (String.ofList before.reverse, rest)
    else readString? none (c :: before) rest

/-! ## Values -/

mutual

/-- The value at the start of a text. The fuel bounds the number of values within it. -/
def readValue? : (fuel : Nat) → List Char → Option (Json × List Char)
  | 0, _ => none
  | fuel + 1, cs =>
    match skipGap cs with
    | '"' :: rest => (readString? none [] rest).map fun (text, rest) => (.str text, rest)
    | '[' :: rest =>
      match skipGap rest with
      | ']' :: rest => some (.arr [], rest)
      | rest => readItems? fuel [] rest
    | '\x7b' :: rest =>
      match skipGap rest with
      | '\x7d' :: rest => some (.obj [], rest)
      | rest => readFields? fuel [] rest
    | 'n' :: 'u' :: 'l' :: 'l' :: rest => some (.null, rest)
    | 't' :: 'r' :: 'u' :: 'e' :: rest => some (.bool true, rest)
    | 'f' :: 'a' :: 'l' :: 's' :: 'e' :: rest => some (.bool false, rest)
    | rest => readNumber? rest

/-- The rest of an array, given the items before it in reverse. -/
def readItems? : (fuel : Nat) → List Json → List Char → Option (Json × List Char)
  | 0, _, _ => none
  | fuel + 1, before, cs =>
    match readValue? fuel cs with
    | none => none
    | some (item, rest) =>
      match skipGap rest with
      | ',' :: rest => readItems? fuel (item :: before) rest
      | ']' :: rest => some (.arr (item :: before).reverse, rest)
      | _ => none

/-- The rest of an object, given the fields before it in reverse. -/
def readFields? : (fuel : Nat) → List (String × Json) → List Char → Option (Json × List Char)
  | 0, _, _ => none
  | fuel + 1, before, cs =>
    match readName? (skipGap cs) with
    | none => none
    | some (name, rest) =>
      match readValue? fuel rest with
      | none => none
      | some (value, rest) =>
        match skipGap rest with
        | ',' :: rest => readFields? fuel ((name, value) :: before) rest
        | '\x7d' :: rest => some (.obj ((name, value) :: before).reverse, rest)
        | _ => none
where
  /-- The name of a field, up to the colon behind it. -/
  readName? : List Char → Option (String × List Char)
    | '"' :: rest => do
      let (name, rest) ← readString? none [] rest
      match skipGap rest with
      | ':' :: rest => some (name, rest)
      | _ => none
    | _ => none

end

/-- The value that a text stands for. Every value takes up a character at least, so the length of
the text is fuel enough. -/
def parse? (text : String) : Option Json := do
  let (value, rest) ← readValue? (text.length + 1) text.toList
  if (skipGap rest).isEmpty then some value else none

end Falsify.Json
