import Falsify.Bytes

/-!
# Hexadecimal text

Byte strings as text, two digits for a byte. Digits are written in lower case and read in either.

* `Hex.encode`, `Hex.decode`;
* `Hex.decode_encode`: what is written reads back.
-/

namespace Falsify.Text.Hex

/-- The digit for a number below sixteen. -/
def digit (n : Nat) : Char :=
  if n < 10 then Char.ofNat (48 + n) else Char.ofNat (87 + n)

/-- The value of a digit, given as the byte of its character. -/
def digitValue? (b : UInt8) : Option Nat :=
  let n := b.toNat
  if 48 ≤ n ∧ n ≤ 57 then some (n - 48)
  else if 97 ≤ n ∧ n ≤ 102 then some (n - 87)
  else if 65 ≤ n ∧ n ≤ 70 then some (n - 55)
  else none

/-- The digits of a byte string. -/
def encodeList (bytes : Bytes) : List Char :=
  bytes.flatMap fun b => [digit (b.toNat / 16), digit (b.toNat % 16)]

def encode (bytes : Bytes) : String :=
  String.ofList (encodeList bytes)

/-- A byte that is no digit, and its place. -/
structure BadDigit where
  byte : UInt8
  place : Nat
  deriving DecidableEq

/-- Reads digits in pairs, counting places from `place`; a digit without a partner stands for
nothing. -/
def decodeFrom (place : Nat) : Bytes → Except BadDigit Bytes
  | high :: low :: rest =>
    match digitValue? high with
    | none => .error ⟨high, place⟩
    | some h =>
      match digitValue? low with
      | none => .error ⟨low, place + 1⟩
      | some l => (decodeFrom (place + 2) rest).map (UInt8.ofNat (16 * h + l) :: ·)
  | _ => .ok []

def decode (digits : Bytes) : Except BadDigit Bytes :=
  decodeFrom 0 digits

theorem digitValue?_digit {n : Nat} (h : n < 16) :
    digitValue? (UInt8.ofNat (digit n).toNat) = some n := by
  have : ∀ n < 16, digitValue? (UInt8.ofNat (digit n).toNat) = some n := by decide
  exact this n h

theorem decodeFrom_encode (place : Nat) (bytes : Bytes) :
    decodeFrom place ((encodeList bytes).map fun c => UInt8.ofNat c.toNat) = .ok bytes := by
  induction bytes generalizing place with
  | nil => rfl
  | cons b rest ih =>
    have hb := b.toNat_lt
    have h1 := digitValue?_digit (n := b.toNat / 16) (by omega)
    have h2 := digitValue?_digit (n := b.toNat % 16) (by omega)
    have h3 : 16 * (b.toNat / 16) + b.toNat % 16 = b.toNat := by omega
    simp only [encodeList, List.flatMap_cons, List.map_cons, List.cons_append,
      List.nil_append] at ih ⊢
    simp only [decodeFrom, h1, h2, ih, h3, Except.map, UInt8.ofNat_toNat]

/-- Reading the digits of a byte string, each as one byte, gives the byte string back. -/
theorem decode_encode (bytes : Bytes) :
    decode ((encodeList bytes).map fun c => UInt8.ofNat c.toNat) = .ok bytes :=
  decodeFrom_encode 0 bytes

end Falsify.Text.Hex
