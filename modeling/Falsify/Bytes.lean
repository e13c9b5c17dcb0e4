import Falsify.Arithmetic

/-!
# Byte strings

Byte strings are lists, so that formats can be written and read by recursion on them. Numbers are
written with the high byte first.

* `bigEndian`, `ofBigEndian`: numbers of a given number of bytes;
* `ofBigEndian_bigEndian`: reading back gives the number, as far as the bytes hold it.
-/

namespace Falsify

abbrev Bytes := List UInt8

/-- The bytes of a text. -/
def utf8 (text : String) : Bytes :=
  text.toUTF8.toList

/-- The last `width` bytes of a number, high byte first. -/
def bigEndian : (width : Nat) → (n : Nat) → Bytes
  | 0, _ => []
  | width + 1, n => bigEndian width (n / 256) ++ [UInt8.ofNat n]

/-- The number that a byte string stands for, high byte first. -/
def ofBigEndian (bytes : Bytes) : Nat :=
  bytes.foldl (fun n b => n * 256 + b.toNat) 0

@[simp] theorem length_bigEndian (width n : Nat) : (bigEndian width n).length = width := by
  induction width generalizing n with
  | zero => rfl
  | succ width ih => simp [bigEndian, ih]

theorem ofBigEndian_append (front : Bytes) (last : UInt8) :
    ofBigEndian (front ++ [last]) = ofBigEndian front * 256 + last.toNat := by
  simp [ofBigEndian]

theorem ofBigEndian_bigEndian (width n : Nat) :
    ofBigEndian (bigEndian width n) = n % 256 ^ width := by
  induction width generalizing n with
  | zero => simp [bigEndian, ofBigEndian, Nat.mod_one]
  | succ width ih =>
    have hb : (UInt8.ofNat n).toNat = n % 256 := by simp
    rw [bigEndian, ofBigEndian_append, ih, hb, Nat.pow_succ, Nat.mul_comm (256 ^ width) 256,
      Nat.mod_mul]
    omega

end Falsify
