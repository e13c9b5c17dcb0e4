import Falsify.Bytes

/-!
# Base64 for tokens

The alphabet that is safe in addresses, without padding, read strictly: a text is accepted only if
it is what writing produces. Three bytes become four symbols of six bits; one or two bytes left
over become two or three symbols whose unused bits are zero.

* `Base64.encode`, `Base64.decode`;
* `Base64Error.message`: which of several faults is reported, and how.
-/

namespace Falsify.Text

/-- Why a text is not valid base64. -/
inductive Base64Error where
  /-- A byte that is no symbol, and its place. -/
  | badSymbol (byte : UInt8) (place : Nat)
  /-- A number of symbols that no byte string has. -/
  | badLength (length : Nat)
  /-- A last symbol whose unused bits are not zero, and its place. -/
  | badLastSymbol (byte : UInt8) (place : Nat)
  | padded
  deriving DecidableEq

def Base64Error.message : Base64Error → String
  | .badSymbol byte place => s!"Invalid symbol {byte.toNat}, offset {place}."
  | .badLength length => s!"Invalid input length: {length}"
  | .badLastSymbol byte place => s!"Invalid last symbol {byte.toNat}, offset {place}."
  | .padded => "Invalid padding"

namespace Base64

/-- The byte that pads texts of other dialects. -/
def padByte : UInt8 := 61

/-- The symbol, as a byte, for six bits. -/
def symbol (n : Nat) : UInt8 :=
  UInt8.ofNat <|
    if n < 26 then 65 + n
    else if n < 52 then 97 + (n - 26)
    else if n < 62 then 48 + (n - 52)
    else if n = 62 then 45 else 95

/-- The six bits that a byte stands for. -/
def symbolValue? (b : UInt8) : Option Nat :=
  let n := b.toNat
  if 65 ≤ n ∧ n ≤ 90 then some (n - 65)
  else if 97 ≤ n ∧ n ≤ 122 then some (n - 97 + 26)
  else if 48 ≤ n ∧ n ≤ 57 then some (n - 48 + 52)
  else if n = 45 then some 62
  else if n = 95 then some 63
  else none

/-- The symbols of a byte string. -/
def encode : Bytes → Bytes
  | a :: b :: c :: rest =>
    let n := a.toNat * 65536 + b.toNat * 256 + c.toNat
    symbol (n / 262144) :: symbol (n / 4096 % 64) :: symbol (n / 64 % 64) :: symbol (n % 64)
      :: encode rest
  | [a, b] =>
    let n := a.toNat * 1024 + b.toNat * 4
    [symbol (n / 4096), symbol (n / 64 % 64), symbol (n % 64)]
  | [a] =>
    let n := a.toNat * 16
    [symbol (n / 64), symbol (n % 64)]
  | [] => []

/-- The three bytes of four groups of six bits. -/
def joinQuad (a b c d : Nat) : Bytes :=
  let n := a * 262144 + b * 4096 + c * 64 + d
  [UInt8.ofNat (n / 65536), UInt8.ofNat (n / 256 % 256), UInt8.ofNat (n % 256)]

/-- What has been read of the last group: its symbols' values, the last symbol, and where padding
began. -/
structure Tail where
  values : List Nat
  last : UInt8
  padding : Option Nat

/-- Reads the last group, which starts at place `start`, byte by byte from position `i` in it. -/
def readTail (start : Nat) : (i : Nat) → Tail → Bytes → Except Base64Error Tail
  | _, t, [] => .ok t
  | i, t, b :: rest =>
    if b = padByte then
      if i < 2 then .error (.badSymbol b (start + i))
      else readTail start (i + 1) { t with padding := some (t.padding.getD i) } rest
    else
      match t.padding, symbolValue? b with
      | some p, _ => .error (.badSymbol padByte (start + p))
      | none, none => .error (.badSymbol b (start + i))
      | none, some n => readTail start (i + 1) { t with values := t.values ++ [n], last := b } rest

/-- The bytes of the last group. -/
def finishTail (start : Nat) (t : Tail) : Except Base64Error Bytes :=
  if t.values.length < 2 then .error (.badLength (start + t.values.length))
  else if t.padding.isSome then .error .padded
  else
    match t.values with
    | [a, b] =>
      if b % 16 = 0 then .ok ((joinQuad a b 0 0).take 1)
      else .error (.badLastSymbol t.last (start + 1))
    | [a, b, c] =>
      if c % 4 = 0 then .ok ((joinQuad a b c 0).take 2)
      else .error (.badLastSymbol t.last (start + 2))
    | [a, b, c, d] => .ok (joinQuad a b c d)
    | _ => .ok []

/-- Reads groups of four as long as something follows them, and then the last one. -/
def decodeFrom (start : Nat) : Bytes → Except Base64Error Bytes
  | a :: b :: c :: d :: e :: rest =>
    match symbolValue? a, symbolValue? b, symbolValue? c, symbolValue? d with
    | some a, some b, some c, some d =>
      (decodeFrom (start + 4) (e :: rest)).map (joinQuad a b c d ++ ·)
    | none, _, _, _ => .error (.badSymbol a start)
    | _, none, _, _ => .error (.badSymbol b (start + 1))
    | _, _, none, _ => .error (.badSymbol c (start + 2))
    | _, _, _, none => .error (.badSymbol d (start + 3))
  | tail => do finishTail start (← readTail start 0 ⟨[], 0, none⟩ tail)

/-- A last byte that stands alone in its group and is no symbol is reported before anything else. -/
def strayLast? (text : Bytes) : Option Base64Error :=
  match text.getLast? with
  | some last =>
    if text.length % 4 = 1 ∧ last ≠ padByte ∧ symbolValue? last = none then
      some (.badSymbol last (text.length - 1))
    else none
  | none => none

/-- The bytes that a text stands for. -/
def decode (text : Bytes) : Except Base64Error Bytes :=
  match text, strayLast? text with
  | [], _ => .ok []
  | _, some e => .error e
  | _, none => decodeFrom 0 text

end Base64

end Falsify.Text
