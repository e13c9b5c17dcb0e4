import Mathlib
import Falsify.Random.Alias

/-!
# Totals of weights

Weights are added up with rounding, and still a total is positive as soon as one weight is
(`totalWeight_not_le`). The sum of two positive numbers is not smaller than the least
positive one, so rounding does not take it to zero:

* `Above`: a number above zero as its parts give it, the mantissa within its width
  and the exponent not below the least one;
* `above_round`: rounding keeps a number above zero, by what one shift of the mantissa
  does to it (`shiftToTargetExponent_within`), which rounding does twice;
* `above_unpack_pack`: so does the way through the word that holds the number.
-/

namespace Falsify

open Float.Model (Format UnpackedFloat totalExponent)
open Float.Model.UnpackedFloat

namespace Weight

/-- The format of weights. -/
abbrev format : Format := Format.binary32

/-- A number above zero: an infinite one, or a mantissa of 24 bits at most with an exponent that
is not too low. -/
inductive Above : UnpackedFloat → Prop
  | infinity : Above (.infinity .positive)
  | finite (m : Nat) (e : Int) (hm : 0 < m) (width : m < 2 ^ 24) (least : -149 ≤ e) :
    Above (.finite .positive m e hm)

/-! ## Rounding -/

theorem mantissa_shiftRight (em : ExtendedMantissa) (n : Nat) :
    (em >>> n).mantissa = em.mantissa / 2 ^ n := by
  change (n.repeat ExtendedMantissa.shiftRightOne em).mantissa = _
  induction n with
  | zero => simp [Nat.repeat]
  | succ n ih =>
    rw [Nat.repeat, Nat.pow_succ, ← Nat.div_div_eq_div_mul, ← ih]
    rfl

theorem mantissa_ofMantissaAndAccuracy (m : Nat) (accuracy : Accuracy) :
    (ExtendedMantissa.ofMantissaAndAccuracy m accuracy).mantissa = m := by
  rcases accuracy with _ | (_ | _ | _) <;> rfl

theorem le_roundedMantissa (em : ExtendedMantissa) : em.mantissa ≤ em.roundedMantissa := by
  rcases em with ⟨m, _ | _, _ | _⟩ <;>
    simp [ExtendedMantissa.roundedMantissa, ExtendedMantissa.accuracy, Accuracy.roundToNearestEven]

/-- The shift that makes a mantissa fit keeps it above zero, because it drops no bit of a mantissa
that fits already. -/
theorem shiftToTargetExponent_within {m : Nat} {e : Int} (accuracy : Accuracy) (hm : 0 < m)
    (he : -149 ≤ e) :
    0 < (shiftToTargetExponent format m e accuracy).1.mantissa ∧
      (shiftToTargetExponent format m e accuracy).1.mantissa < 2 ^ 24 ∧
      -149 ≤ (shiftToTargetExponent format m e accuracy).2 := by
  have htarget : format.targetExponent (totalExponent m e) = max (m.log2 + 1 + e - 24) (-149) := rfl
  simp only [shiftToTargetExponent, shiftToExponent, htarget, mantissa_shiftRight,
    mantissa_ofMantissaAndAccuracy]
  have hshift : (max ((m.log2 : Int) + 1 + e - 24) (-149) - e).toNat = m.log2 + 1 - 24 := by omega
  rw [hshift]
  have hlow : 2 ^ m.log2 ≤ m := Nat.log2_self_le (by omega)
  have hhigh : m < 2 ^ (m.log2 + 1) := Nat.lt_log2_self
  refine ⟨Nat.div_pos (Nat.le_trans (Nat.pow_le_pow_right (by decide) (by omega)) hlow)
    (Nat.two_pow_pos _), ?_, by omega⟩
  rw [Nat.div_lt_iff_lt_mul (Nat.two_pow_pos _), ← Nat.pow_add]
  exact Nat.lt_of_lt_of_le hhigh (Nat.pow_le_pow_right (by decide) (by omega))

theorem above_roundWithAccuracy {m : Nat} {e : Int} (accuracy : Accuracy) (hm : 0 < m)
    (he : -149 ≤ e) : Above (roundWithAccuracy format .positive m e accuracy) := by
  obtain ⟨h₁, -, h₃⟩ := shiftToTargetExponent_within accuracy hm he
  -- Rounding up may have made the mantissa one bit too long, so it is shifted again.
  have hround := Nat.lt_of_lt_of_le h₁ (le_roundedMantissa _)
  obtain ⟨h₄, h₅, h₆⟩ := shiftToTargetExponent_within .exact hround h₃
  simp only [roundWithAccuracy]
  rw [dif_neg (by omega)]
  exact .finite _ _ _ h₅ h₆

theorem above_round {m : Nat} {e : Int} (hm : 0 < m) (he : -149 ≤ e) :
    Above (UnpackedFloat.round format .positive m e) := by
  have htarget : -149 ≤ format.targetExponent (totalExponent m e) := Int.le_max_right _ _
  simp only [UnpackedFloat.round, decreaseExponent]
  refine above_roundWithAccuracy .exact ?_ (by omega)
  rw [Nat.shiftLeft_eq]
  exact Nat.mul_pos hm (Nat.two_pow_pos _)

/-- The sum of two numbers above zero is one. -/
theorem above_add {x y : UnpackedFloat} (hx : Above x) (hy : Above y) :
    Above (UnpackedFloat.add format x y) := by
  cases hx with
  | infinity => cases hy <;> exact .infinity
  | finite m e hm _ he =>
    cases hy with
    | infinity => exact .infinity
    | finite m' e' hm' _ he' =>
      have hpos : 0 < m * 2 ^ (e - min e e').toNat + m' * 2 ^ (e' - min e e').toNat :=
        Nat.add_pos_left (Nat.mul_pos hm (Nat.two_pow_pos _)) _
      simp only [UnpackedFloat.add, decreaseExponent, Sign.apply, Nat.shiftLeft_eq,
        UnpackedFloat.normalize, ← Int.natCast_add]
      rw [Int.compare_eq_gt.2 (by exact_mod_cast hpos), Int.toNat_natCast]
      exact above_round hpos (by omega)

/-! ## Words -/

/-- What a word with a positive sign holds is above zero, unless its fields are those of zero or of
no number. -/
theorem above_unpack_of_fields {b : BitVec 32} (hs : @unpackSign format b = 0#1)
    (hn : @unpackExponent format b = -1#8 → @unpackMantissa format b = 0#23)
    (hz : @unpackExponent format b = 0#8 → @unpackMantissa format b ≠ 0#23) :
    Above (unpack format b) := by
  have hm := (@unpackMantissa format b).isLt
  have hbias : (format.exponentBias : Int) + format.mantissaBitsWithoutImplicit = 150 := rfl
  simp only [unpack, hs, hbias]
  split
  · rename_i h
    rw [if_pos (hn h)]
    exact .infinity
  · split
    · rename_i h
      rw [dif_neg (hz h), h]
      exact .finite _ _ _ (Nat.lt_trans hm (by decide)) (by decide)
    · rename_i h
      refine .finite _ _ _ (BitVec.isLt _) ?_
      have : (@unpackExponent format b).toNat ≠ 0 := fun h0 => h (BitVec.eq_of_toNat_eq h0)
      omega

theorem above_unpack_packComponents {exponent : BitVec 8} {mantissa : BitVec 23}
    (hn : exponent = -1#8 → mantissa = 0#23) (hz : exponent = 0#8 → mantissa ≠ 0#23) :
    Above (unpack format (packComponents format .positive exponent mantissa)) := by
  apply above_unpack_of_fields
  · rw [unpackSign_packComponents, Sign.toBitVec]
  · rwa [unpackExponent_packComponents, unpackMantissa_packComponents]
  · rwa [unpackExponent_packComponents, unpackMantissa_packComponents]

theorem ofNat_ne {width n : Nat} {field : BitVec width} (hn : n < 2 ^ width) (h : n ≠ field.toNat) :
    BitVec.ofNat width n ≠ field := by
  rintro rfl
  exact h (Nat.mod_eq_of_lt hn).symm

/-- A number above zero stays above zero in the word that holds it: the exponent field beside a
mantissa of 24 bits is not zero, and neither is a shorter mantissa. -/
theorem above_unpack_pack {x : UnpackedFloat} (h : Above x) :
    Above (unpack format (pack format x)) := by
  cases h with
  | infinity => exact above_unpack_packComponents (fun _ => rfl) (by decide)
  | finite m e hm width least =>
    have hbiased : (e + format.exponentBias + format.mantissaBitsWithoutImplicit).toNat =
        (e + 150).toNat := by
      change (e + 127 + 23).toNat = _
      omega
    simp only [pack, hbiased]
    split
    · exact above_unpack_packComponents (fun _ => rfl) (by decide)
    · rename_i hlarge
      have hfit : (e + 150).toNat + 1 < 2 ^ 8 := Nat.lt_of_not_le hlarge
      split
      · have hnan : BitVec.ofNat 8 (e + 150).toNat ≠ -1#8 :=
          ofNat_ne (by omega) (by simp; omega)
        have hzero : BitVec.ofNat 8 (e + 150).toNat ≠ 0#8 :=
          ofNat_ne (by omega) (by simp; omega)
        exact above_unpack_packComponents (fun h => absurd h hnan) (fun h => absurd h hzero)
      · rename_i hshort
        have hlog : m.log2 + 1 ≠ 24 := hshort
        have hlog' : m.log2 < 24 := (Nat.log2_lt (by omega)).2 width
        have hm' : m < 2 ^ 23 := (Nat.log2_lt (by omega)).1 (by omega)
        have hmantissa : BitVec.ofNat 23 m ≠ 0#23 := ofNat_ne hm' (by simp; omega)
        exact above_unpack_packComponents (fun h => absurd h (by decide)) (fun _ => hmantissa)

/-- What a word holds above zero is within the format. -/
theorem above_unpack {b : BitVec 32} (h : (UnpackedFloat.zero .positive).lt (unpack format b)) :
    Above (unpack format b) := by
  simp only [unpack] at h
  apply above_unpack_of_fields
  · refine Decidable.byContradiction fun hs => ?_
    have hneg : Sign.ofBitVec (@unpackSign format b) = .negative := if_neg hs
    rw [hneg] at h
    split_ifs at h <;> cases h
  · intro hn
    refine Decidable.byContradiction fun hm => ?_
    rw [if_pos hn, if_neg hm] at h
    cases h
  · intro hz hm
    rw [if_neg (by rw [hz]; decide), if_pos hz, dif_pos hm] at h
    cases h

/-! ## Totals -/

theorem unpack_zero : (0.0 : Float32).toModel.unpack = .zero .positive := rfl

theorem above_of_pos {w : Float32} (h : w > 0.0) : Above w.toModel.unpack := by
  have h' : (0.0 : Float32).toModel.unpack.lt w.toModel.unpack := of_decide_eq_true h
  rw [unpack_zero] at h'
  exact above_unpack h'

theorem not_le_of_above {w : Float32} (h : Above w.toModel.unpack) : ¬ w ≤ 0.0 := by
  intro hle
  have hle' : w.toModel.unpack.le (0.0 : Float32).toModel.unpack := of_decide_eq_true hle
  rw [unpack_zero] at hle'
  generalize w.toModel.unpack = x at h hle'
  cases h <;> cases hle'

/-- A weight that is added to zero is given back. -/
theorem zero_add_of_above {w : Float32} (h : Above w.toModel.unpack) : (0.0 : Float32) + w = w := by
  have hsum : UnpackedFloat.add format (0.0 : Float32).toModel.unpack w.toModel.unpack =
      w.toModel.unpack := by
    rw [unpack_zero]
    generalize w.toModel.unpack = x at h
    cases h <;> rfl
  apply Float32.toBits_inj.1
  apply UInt32.toBitVec_inj.1
  show pack format (UnpackedFloat.add format (0.0 : Float32).toModel.unpack w.toModel.unpack) = _
  rw [hsum]
  exact pack_unpack_of_valid w.toModel.valid

theorem above_foldl {weights : List Float32} (hw : ∀ w ∈ weights, w > 0.0) {total : Float32}
    (ht : Above total.toModel.unpack) : Above (weights.foldl (· + ·) total).toModel.unpack := by
  induction weights generalizing total with
  | nil => exact ht
  | cons w rest ih =>
    have hsum := above_unpack_pack (above_add ht (above_of_pos (hw w List.mem_cons_self)))
    exact ih (fun w h => hw w (List.mem_cons_of_mem _ h)) hsum

end Weight

/-- A positive weight makes the total positive. -/
theorem AliasTable.totalWeight_not_le {weights : List Float32} {w : Float32} (h : w ∈ weights)
    (hw : w > 0.0) : ¬ totalWeight weights ≤ 0.0 := by
  have hmem : w ∈ weights.filter (· > 0.0) := List.mem_filter.2 ⟨h, decide_eq_true hw⟩
  have hpos : ∀ v ∈ weights.filter (· > 0.0), v > 0.0 := fun v hv =>
    of_decide_eq_true (List.mem_filter.1 hv).2
  rw [totalWeight]
  generalize weights.filter (· > 0.0) = positive at hmem hpos
  cases positive with
  | nil => cases hmem
  | cons v rest =>
    have hv := Weight.above_of_pos (hpos v List.mem_cons_self)
    rw [List.foldl_cons, Weight.zero_add_of_above hv]
    exact Weight.not_le_of_above
      (Weight.above_foldl (fun u hu => hpos u (List.mem_cons_of_mem _ hu)) hv)

/-- There is a table for every list of weights with a positive one. -/
theorem AliasTable.not_pos_of_ofWeights?_eq_none {weights : List Float32}
    (h : ofWeights? weights = none) : ∀ w ∈ weights, ¬ w > 0.0 := by
  intro w hw hpos
  unfold ofWeights? at h
  split at h
  · rename_i hbad
    rcases Bool.or_eq_true_iff.1 hbad with he | hle
    · rw [List.isEmpty_iff.1 he] at hw
      cases hw
    · exact totalWeight_not_le hw hpos (of_decide_eq_true hle)
  · cases h

end Falsify
