import Falsify.Arithmetic

/-!
# Draws

Every random decision is a draw: a number of bits asked for and the word that came back. Here are
the single draw, `Draw`, and the mask that cuts a word to a width.

* `Draw.WellFormed`: the value fits the width, and the width fits a word;
* `Draw.fit_wellFormed`: a draw made by `Draw.fit` is well formed.
-/

namespace Falsify

/-- Draws that a single test case may make unless the settings say otherwise. -/
def defaultMaxDraws : Nat := 8 * 1024

/-- The word whose low `width` bits are set; from 64 on, all of them. -/
def mask (width : UInt8) : UInt64 :=
  if width < 64 then (1 <<< width.toUInt64) - 1 else 0xFFFFFFFFFFFFFFFF

/-- Number of binary digits of a number, leading zeros left out: zero has none. -/
def bitLength (n : Nat) : Nat :=
  if n = 0 then 0 else n.log2 + 1

/-- One draw: how many bits were asked for, and the value that came back. -/
structure Draw where
  width : UInt8
  value : UInt64
  deriving DecidableEq, Hashable, Inhabited

namespace Draw

/-- The draw of a given width nearest to the one asked for: at most 64 bits, and only those of
`value` that fit. -/
def fit (width : UInt8) (value : UInt64) : Draw :=
  let width := if width ≤ 64 then width else 64
  ⟨width, value &&& mask width⟩

/-- A draw of at most 64 bits whose value fits them. -/
def WellFormed (d : Draw) : Prop :=
  d.width ≤ 64 ∧ d.value.toNat < 2 ^ d.width.toNat

instance (d : Draw) : Decidable d.WellFormed :=
  inferInstanceAs (Decidable (_ ∧ _))

end Draw

theorem toNat_mask {width : UInt8} (h : width ≤ 64) : (mask width).toNat = 2 ^ width.toNat - 1 := by
  unfold mask
  have hw : width.toNat ≤ 64 := UInt8.le_iff_toNat_le.1 h
  split
  · rename_i hlt
    have hlt : width.toNat < 64 := UInt8.lt_iff_toNat_lt.1 hlt
    have hp : 2 ^ width.toNat ≤ 2 ^ 63 := Nat.pow_le_pow_right (by decide) (by omega)
    have h1 : ((1 : UInt64) <<< width.toUInt64).toNat = 2 ^ width.toNat := by
      rw [UInt64.toNat_shiftLeft, UInt8.toNat_toUInt64, Nat.mod_eq_of_lt hlt, UInt64.toNat_one,
        Nat.shiftLeft_eq, Nat.one_mul, Nat.mod_eq_of_lt (by omega)]
    have hpos : 0 < 2 ^ width.toNat := Nat.two_pow_pos _
    have hle : (1 : UInt64) ≤ 1 <<< width.toUInt64 :=
      UInt64.le_iff_toNat_le.2 (by rw [h1, UInt64.toNat_one]; omega)
    rw [UInt64.toNat_sub_of_le _ _ hle, h1, UInt64.toNat_one]
  · rename_i hlt
    have : width.toNat = 64 := by
      have : ¬ width.toNat < 64 := fun h => hlt (UInt8.lt_iff_toNat_lt.2 h)
      omega
    rw [this]
    rfl

/-- Cutting a word to a width keeps its residue. -/
theorem toNat_and_mask {width : UInt8} (h : width ≤ 64) (value : UInt64) :
    (value &&& mask width).toNat = value.toNat % 2 ^ width.toNat := by
  rw [UInt64.toNat_and, toNat_mask h, Nat.and_two_pow_sub_one_eq_mod]

theorem Draw.fit_wellFormed (width : UInt8) (value : UInt64) :
    (Draw.fit width value).WellFormed := by
  have h : (Draw.fit width value).width ≤ 64 := by
    unfold Draw.fit
    split <;> simp_all
  refine ⟨h, ?_⟩
  have hv : (Draw.fit width value).value = value &&& mask (Draw.fit width value).width := rfl
  rw [hv, toNat_and_mask h]
  exact Nat.mod_lt _ (Nat.two_pow_pos _)

end Falsify
