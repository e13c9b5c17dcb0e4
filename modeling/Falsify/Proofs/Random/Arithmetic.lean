import Falsify.Proofs.Random.Rounding

/-!
# Arithmetic of weights

Sums, differences, products and quotients of weights are those of the numbers that the weights hold
(`Is`), rounded (`Gives`), and comparisons are the ones of the numbers. All of this is about numbers
that are not negative, since a table works with no others, and about infinite weights, since a sum
may become one.

* `gives_add`, `gives_sub`, `gives_mul`, `gives_div`: the operations;
* `lt_iff`, `le_iff`, `Is.unique`: comparisons;
* `Is.le_of_lt_one`, `Is.ge_of_one_lt`: the gaps on both sides of one;
* `is_toFloat32`, `one_le_toFloat32`: counts of weights;
* `AliasSlot.chance_lt_one`: a chance in the wider format is below one if it was before.
-/

namespace Falsify

open Float.Model (Format UnpackedFloat totalExponent)
open Float.Model.UnpackedFloat

namespace Weight

/-! ## Numbers that weights hold -/

/-- The weight is a number that is not negative. -/
def Is (w : Float32) (v : ℚ) : Prop :=
  Holds w.toModel.unpack v

/-- The weight is above all numbers. -/
def IsInfinite (w : Float32) : Prop :=
  w.toModel.unpack = .infinity .positive

/-- The weight is a number rounded, or the rounded number is too large for it. -/
def Gives (w : Float32) (y : ℚ) : Prop :=
  ∃ s, Rounds y s ∧ (Is w s ∨ IsInfinite w ∧ 2 ^ 128 ≤ s)

variable {a b : Float32} {v w : ℚ}

theorem gives_of_unpack_pack {c : Float32} {y : UnpackedFloat}
    (hc : c.toModel.unpack = unpack format (pack format y)) (h : ∃ s, Holds y s ∧ Rounds v s) :
    Gives c v := by
  obtain ⟨s, hs, hround⟩ := h
  refine ⟨s, hround, ?_⟩
  rw [Is, IsInfinite, hc]
  exact unpack_pack hs

theorem Is.nonneg (h : Is a v) : 0 ≤ v := by
  unfold Is at h
  generalize a.toModel.unpack = x at h
  cases h with
  | zero => exact le_rfl
  | finite => positivity

theorem onGrid_mul_zpow (m : Nat) {e : Int} (he : -149 ≤ e) : OnGrid (m * 2 ^ e) := by
  refine ⟨m * 2 ^ (e + 149).toNat, ?_⟩
  rw [Nat.cast_mul, Nat.cast_pow, Nat.cast_ofNat, mul_assoc, ← zpow_natCast,
    ← zpow_add₀ two_ne_zero]
  congr 2
  omega

theorem OnGrid.add {y z : ℚ} (hy : OnGrid y) (hz : OnGrid z) : OnGrid (y + z) := by
  obtain ⟨k, rfl⟩ := hy
  obtain ⟨l, rfl⟩ := hz
  exact ⟨k + l, by rw [Nat.cast_add, add_mul]⟩

theorem OnGrid.natCast_mul (n : Nat) {y : ℚ} (hy : OnGrid y) : OnGrid (n * y) := by
  obtain ⟨k, rfl⟩ := hy
  exact ⟨n * k, by rw [Nat.cast_mul, mul_assoc]⟩

theorem Is.onGrid (h : Is a v) : OnGrid v := by
  unfold Is at h
  generalize a.toModel.unpack = x at h
  cases h with
  | zero => exact ⟨0, by simp⟩
  | finite m e _ _ least => exact onGrid_mul_zpow m least

theorem toModel_add (a b : Float32) : (a + b).toModel.unpack =
    unpack format (pack format (UnpackedFloat.add format a.toModel.unpack b.toModel.unpack)) := rfl

theorem toModel_sub (a b : Float32) : (a - b).toModel.unpack =
    unpack format (pack format (UnpackedFloat.sub format a.toModel.unpack b.toModel.unpack)) := rfl

theorem toModel_mul (a b : Float32) : (a * b).toModel.unpack =
    unpack format (pack format (UnpackedFloat.mul format a.toModel.unpack b.toModel.unpack)) := rfl

theorem toModel_div (a b : Float32) : (a / b).toModel.unpack =
    unpack format (pack format (UnpackedFloat.div format a.toModel.unpack b.toModel.unpack)) := rfl

/-! ## Sums and differences -/

theorem rounds_normalize (n : Nat) (e : Int) :
    ∃ s, Holds (UnpackedFloat.normalize format (n : Int) e .positive) s ∧
      Rounds (n * 2 ^ e) s := by
  rcases Nat.eq_zero_or_pos n with rfl | hpos
  · exact ⟨0, .zero, by rw [Nat.cast_zero, zero_mul]; exact .refl 0⟩
  · have hnormalize : UnpackedFloat.normalize format (n : Int) e .positive =
        UnpackedFloat.round format .positive n e := by
      rw [UnpackedFloat.normalize, Int.compare_eq_gt.2 (by omega), Int.toNat_natCast]
    rw [hnormalize]
    exact rounds_round hpos e

/-- A mantissa for a lower exponent. -/
theorem shiftLeft_mul_zpow (m : Nat) {e t : Int} (h : t ≤ e) :
    ((m <<< (e - t).toNat : ℕ) : ℚ) * 2 ^ t = m * 2 ^ e := by
  rw [Nat.shiftLeft_eq, Nat.cast_mul, Nat.cast_pow, Nat.cast_ofNat, mul_assoc, ← zpow_natCast,
    ← zpow_add₀ two_ne_zero]
  congr 2
  omega

theorem rounds_add {x y : UnpackedFloat} (hx : Holds x v) (hy : Holds y w) :
    ∃ s, Holds (UnpackedFloat.add format x y) s ∧ Rounds (v + w) s := by
  cases hx with
  | zero =>
    cases hy with
    | zero => exact ⟨0, .zero, by rw [add_zero]; exact .refl 0⟩
    | finite m e hm width least normal =>
      refine ⟨_, .finite m e hm width least normal, ?_⟩
      rw [zero_add]
      exact .refl _
  | finite m e hm width least normal =>
    cases hy with
    | zero =>
      refine ⟨_, .finite m e hm width least normal, ?_⟩
      rw [add_zero]
      exact .refl _
    | finite m' e' hm' =>
      set t := min e e' with ht
      have hvalue : ((m <<< (e - t).toNat + m' <<< (e' - t).toNat : ℕ) : ℚ) * 2 ^ t =
          m * 2 ^ e + m' * 2 ^ e' := by
        rw [Nat.cast_add, add_mul, shiftLeft_mul_zpow m (min_le_left _ _),
          shiftLeft_mul_zpow m' (min_le_right _ _)]
      have hsum := rounds_normalize (m <<< (e - t).toNat + m' <<< (e' - t).toNat) t
      rw [hvalue, Int.natCast_add] at hsum
      exact hsum

theorem gives_add (ha : Is a v) (hb : Is b w) : Gives (a + b) (v + w) :=
  gives_of_unpack_pack (toModel_add a b) (rounds_add ha hb)

/-- The difference from a number that is not greater. -/
theorem rounds_sub {x y : UnpackedFloat} (hx : Holds x v) (hy : Holds y w) (h : w ≤ v) :
    ∃ s, Holds (UnpackedFloat.sub format x y) s ∧ Rounds (v - w) s := by
  cases hx with
  | zero =>
    cases hy with
    | zero => exact ⟨0, .zero, by rw [sub_zero]; exact .refl 0⟩
    | finite m e hm =>
      have hpos : (0 : ℚ) < m * 2 ^ e := by positivity
      exact absurd h (not_le.2 hpos)
  | finite m e hm width least normal =>
    cases hy with
    | zero =>
      refine ⟨_, .finite m e hm width least normal, ?_⟩
      rw [sub_zero]
      exact .refl _
    | finite m' e' hm' =>
      set t := min e e' with ht
      have hleft := shiftLeft_mul_zpow m (min_le_left e e')
      have hright := shiftLeft_mul_zpow m' (min_le_right e e')
      rw [← ht] at hleft hright
      have hle : m' <<< (e' - t).toNat ≤ m <<< (e - t).toNat := by
        rw [← hleft, ← hright] at h
        exact_mod_cast le_of_mul_le_mul_right h (by positivity)
      have hvalue : ((m <<< (e - t).toNat - m' <<< (e' - t).toNat : ℕ) : ℚ) * 2 ^ t =
          m * 2 ^ e - m' * 2 ^ e' := by
        rw [Nat.cast_sub hle, sub_mul, hleft, hright]
      have hdiff := rounds_normalize (m <<< (e - t).toNat - m' <<< (e' - t).toNat) t
      rw [hvalue, Int.natCast_sub hle] at hdiff
      exact hdiff

theorem gives_sub (ha : Is a v) (hb : Is b w) (h : w ≤ v) : Gives (a - b) (v - w) :=
  gives_of_unpack_pack (toModel_sub a b) (rounds_sub ha hb h)

/-! ## Products and quotients -/

/-- A number that is not below one has a mantissa of 24 bits. -/
theorem normal_of_one_le {m : Nat} {e : Int} (width : m < 2 ^ 24) (normal : e = -149 ∨ 2 ^ 23 ≤ m)
    (h : (1 : ℚ) ≤ m * 2 ^ e) : 2 ^ 23 ≤ m := by
  refine normal.resolve_left ?_
  rintro rfl
  have hlt : (m : ℚ) * 2 ^ (-149 : ℤ) < 1 := by
    calc (m : ℚ) * 2 ^ (-149 : ℤ) < (2 ^ 24 : ℕ) * 2 ^ (-149 : ℤ) := parts_lt width (-149)
      _ < 1 := by norm_num
  exact absurd h (not_le.2 hlt)

/-- The product with a number that is not below one. -/
theorem rounds_mul {x y : UnpackedFloat} (hx : Holds x v) (hy : Holds y w) (h : 1 ≤ v) :
    ∃ s, Holds (UnpackedFloat.mul format x y) s ∧ Rounds (v * w) s := by
  cases hx with
  | zero => norm_num at h
  | finite m e hm width least normal =>
    cases hy with
    | zero => exact ⟨0, .zero, by rw [mul_zero]; exact .refl 0⟩
    | finite m' e' hm' =>
      have hwide : Wide (m * m') (e + e') :=
        .inr (Nat.le_trans (normal_of_one_le width normal h) (Nat.le_mul_of_pos_right _ hm'))
      have hproduct := rounds_roundWithAccuracy
        (represents_ofMantissaAndAccuracy_exact (m * m')) hwide
      have hvalue : ((m * m' : ℕ) : ℚ) * 2 ^ (e + e') = m * 2 ^ e * (m' * 2 ^ e') := by
        rw [zpow_add₀ two_ne_zero]
        push_cast
        ring
      rw [hvalue] at hproduct
      exact hproduct

theorem gives_mul (ha : Is a v) (hb : Is b w) (h : 1 ≤ v) : Gives (a * b) (v * w) :=
  gives_of_unpack_pack (toModel_mul a b) (rounds_mul ha hb h)

/-- The integer part of a quotient, with what is known of the rest. -/
theorem represents_quotient (m : Nat) {d : Nat} (hd : 0 < d) :
    Represents (ExtendedMantissa.ofMantissaAndAccuracy (m / d) (accuracyOfFraction (m % d) d))
      (m / d) := by
  have hd' : (0 : ℚ) < d := by exact_mod_cast hd
  have hsum : (d : ℚ) * (m / d : ℕ) + (m % d : ℕ) = m := by exact_mod_cast Nat.div_add_mod m d
  have hsplit : (m : ℚ) / d = (m / d : ℕ) + (m % d : ℕ) / d := by
    rw [div_eq_iff hd'.ne', add_mul, div_mul_cancel₀ _ hd'.ne']
    linarith
  have hrest : ((m % d : ℕ) : ℚ) < d := by exact_mod_cast Nat.mod_lt m hd
  rw [hsplit]
  generalize m / d = q
  generalize m % d = r at hrest
  unfold accuracyOfFraction
  split
  · rename_i hr
    simp [Represents, ExtendedMantissa.ofMantissaAndAccuracy, hr]
  · rename_i hr
    have hr' : (0 : ℚ) < r := by exact_mod_cast Nat.pos_of_ne_zero hr
    have hpart : (0 : ℚ) < r / d := by positivity
    have hone : (r : ℚ) / d < 1 := (div_lt_one hd').2 hrest
    rcases hcmp : compare (2 * r) d with _ | _ | _
    · have hlt : ((2 * r : ℕ) : ℚ) < d := by exact_mod_cast Nat.compare_eq_lt.1 hcmp
      have hhalf : (r : ℚ) / d < 1 / 2 := by
        rw [div_lt_iff₀ hd']
        push_cast at hlt
        linarith
      show (q : ℚ) < q + r / d ∧ (q : ℚ) + r / d < q + 1 / 2
      constructor <;> linarith
    · have heq : ((2 * r : ℕ) : ℚ) = d := by exact_mod_cast Nat.compare_eq_eq.1 hcmp
      have hhalf : (r : ℚ) / d = 1 / 2 := by
        rw [div_eq_iff hd'.ne']
        push_cast at heq
        linarith
      show (q : ℚ) + r / d = q + 1 / 2
      rw [hhalf]
    · have hgt : (d : ℚ) < (2 * r : ℕ) := by exact_mod_cast Nat.compare_eq_gt.1 hcmp
      have hhalf : 1 / 2 < (r : ℚ) / d := by
        rw [lt_div_iff₀ hd']
        push_cast at hgt
        linarith
      show (q : ℚ) + 1 / 2 < q + r / d ∧ (q : ℚ) + r / d < q + 1
      constructor <;> linarith

/-- A quotient has enough bits. -/
theorem wide_quotient {m m' : Nat} (hm : 0 < m) (hm' : 0 < m') (e e' : Int) :
    let t := min (e - e') (format.targetExponent (totalExponent m e - totalExponent m' e'))
    Wide (m <<< (e - e' - t).toNat / m') t := by
  intro t
  have ht : t = min (e - e') (max (m.log2 + 1 + e - (m'.log2 + 1 + e') - 24) (-149)) := rfl
  rcases le_or_gt t (-149) with hlow | hhigh
  · exact .inl hlow
  · refine .inr ((Nat.le_div_iff_mul_le hm').2 ?_)
    have hlog : 2 ^ m.log2 ≤ m := Nat.log2_self_le hm.ne'
    have hlog' : m' < 2 ^ (m'.log2 + 1) := Nat.lt_log2_self
    rw [Nat.shiftLeft_eq]
    calc 2 ^ 23 * m' ≤ 2 ^ 23 * 2 ^ (m'.log2 + 1) := Nat.mul_le_mul_left _ hlog'.le
      _ = 2 ^ (23 + (m'.log2 + 1)) := (Nat.pow_add _ _ _).symm
      _ ≤ 2 ^ (m.log2 + (e - e' - t).toNat) := Nat.pow_le_pow_right (by decide) (by omega)
      _ = 2 ^ m.log2 * 2 ^ (e - e' - t).toNat := Nat.pow_add _ _ _
      _ ≤ m * 2 ^ (e - e' - t).toNat := Nat.mul_le_mul_right _ hlog

theorem rounds_div {x y : UnpackedFloat} (hx : Holds x v) (hy : Holds y w) (h : 0 < w) :
    ∃ s, Holds (UnpackedFloat.div format x y) s ∧ Rounds (v / w) s := by
  cases hy with
  | zero => exact absurd h (lt_irrefl 0)
  | finite m' e' hm' =>
    cases hx with
    | zero => exact ⟨0, .zero, by rw [zero_div]; exact .refl 0⟩
    | finite m e hm =>
      have hwide := wide_quotient hm hm' e e'
      set t := min (e - e') (format.targetExponent (totalExponent m e - totalExponent m' e'))
        with ht
      have hquotient := rounds_roundWithAccuracy
        (represents_quotient (m <<< (e - e' - t).toNat) hm') hwide
      have hvalue : ((m <<< (e - e' - t).toNat : ℕ) : ℚ) / m' * 2 ^ t =
          m * 2 ^ e / (m' * 2 ^ e') := by
        rw [div_mul_eq_mul_div, shiftLeft_mul_zpow m (min_le_left _ _), zpow_sub₀ two_ne_zero]
        field_simp
      rw [hvalue] at hquotient
      exact hquotient

theorem gives_div (ha : Is a v) (hb : Is b w) (h : 0 < w) : Gives (a / b) (v / w) :=
  gives_of_unpack_pack (toModel_div a b) (rounds_div ha hb h)

/-! ## Comparisons -/

/-- What has a lower exponent is less, because only the least exponent goes with fewer bits. -/
theorem parts_lt_of_exponent {m m' : Nat} {e e' : Int} (width : m < 2 ^ 24) (least : -149 ≤ e)
    (normal : e' = -149 ∨ 2 ^ 23 ≤ m') (h : e < e') : (m : ℚ) * 2 ^ e < m' * 2 ^ e' := by
  calc (m : ℚ) * 2 ^ e < (2 ^ 24 : ℕ) * 2 ^ e := parts_lt width e
    _ = (2 ^ 23 : ℕ) * 2 ^ (e + 1) := by
        rw [zpow_add_one₀ two_ne_zero]
        push_cast
        ring
    _ ≤ m' * 2 ^ e' := parts_le (normal.resolve_left (by omega)) h

/-- Numbers compare as their parts do. -/
theorem compare_eq {x y : UnpackedFloat} (hx : Holds x v) (hy : Holds y w) :
    x.compare y = some (compare v w) := by
  cases hx with
  | zero =>
    cases hy with
    | zero => rw [compare_eq_iff_eq.2 rfl]; rfl
    | finite m e hm =>
      have hpos : (0 : ℚ) < m * 2 ^ e := by positivity
      rw [compare_lt_iff_lt.2 hpos]
      rfl
  | finite m e hm width least normal =>
    cases hy with
    | zero =>
      have hpos : (0 : ℚ) < m * 2 ^ e := by positivity
      rw [compare_gt_iff_gt.2 hpos]
      rfl
    | finite m' e' hm' width' least' normal' =>
      refine congrArg some ?_
      rcases lt_trichotomy e e' with hlt | rfl | hgt
      · have hvalue := parts_lt_of_exponent width least normal' hlt
        rw [compare_lt_iff_lt.2 hlt, compare_lt_iff_lt.2 hvalue]
        rfl
      · rw [compare_eq_iff_eq.2 rfl]
        show compare m m' = _
        rcases lt_trichotomy m m' with hlt | rfl | hgt
        · rw [compare_lt_iff_lt.2 hlt, compare_lt_iff_lt.2 (parts_lt hlt e)]
        · rw [compare_eq_iff_eq.2 rfl, compare_eq_iff_eq.2 rfl]
        · rw [compare_gt_iff_gt.2 hgt, compare_gt_iff_gt.2 (parts_lt hgt e)]
      · have hvalue := parts_lt_of_exponent width' least' normal hgt
        rw [compare_gt_iff_gt.2 hgt, compare_gt_iff_gt.2 hvalue]
        rfl

theorem lt_iff (ha : Is a v) (hb : Is b w) : a < b ↔ v < w := by
  have hlt : a < b ↔ (a.toModel.unpack.compare b.toModel.unpack == some .lt) = true :=
    decide_eq_true_iff
  rw [hlt, compare_eq ha hb, beq_iff_eq, Option.some_inj, compare_lt_iff_lt]

theorem le_iff (ha : Is a v) (hb : Is b w) : a ≤ b ↔ v ≤ w := by
  have hle : a ≤ b ↔ ((a.toModel.unpack.compare b.toModel.unpack).any (·.isLE)) = true :=
    decide_eq_true_iff
  rw [hle, compare_eq ha hb, Option.any_some, ← Ordering.ne_gt_iff_isLE]
  exact compare_le_iff_le

/-- Numbers have one form, so weights with the same one are the same. -/
theorem Is.unique (ha : Is a v) (hb : Is b v) : a = b := by
  have hbeq : (a.toModel.unpack.beq b.toModel.unpack) = true := by
    rw [UnpackedFloat.beq, compare_eq ha hb, compare_eq_iff_eq.2 rfl]
    rfl
  have hparts : a.toModel.unpack = b.toModel.unpack := by
    rcases ((beq_iff_ne_notANumber_and_eq _ _).1 hbeq).2.2 with h | ⟨-, h⟩ | ⟨h, -⟩
    · exact h
    · unfold Is at hb
      rw [h] at hb
      cases hb
    · unfold Is at ha
      rw [h] at ha
      cases ha
  have hbits := (unpack_inj_of_valid a.toModel.valid b.toModel.valid).1 hparts
  exact Float32.toBits_inj.1 (UInt32.toBitVec_inj.1 hbits)

/-- The number that a weight holds; zero for a weight that holds none or one below zero. -/
def worth (a : Float32) : ℚ :=
  match a.toModel.unpack with
  | .finite .positive m e _ => m * 2 ^ e
  | _ => 0

theorem Is.worth_eq (h : Is a v) : worth a = v := by
  unfold Is at h
  unfold worth
  generalize a.toModel.unpack = x at h
  cases h <;> rfl

theorem worth_of_not_pos (h : ¬ a > 0.0) : worth a = 0 := by
  have hnot : ((0.0 : Float32).toModel.unpack.compare a.toModel.unpack == some .lt) = false :=
    Bool.eq_false_iff.2 fun hlt => h (decide_eq_true hlt)
  rw [unpack_zero] at hnot
  unfold worth
  generalize a.toModel.unpack = x at hnot
  rcases x with _ | _ | _ | ⟨_ | _, m, e, hm⟩
  · rfl
  · rfl
  · rfl
  · rfl
  · cases hnot

theorem worth_nonneg (a : Float32) : 0 ≤ worth a := by
  unfold worth
  split
  · positivity
  · exact le_rfl

theorem is_zero : Is 0.0 0 := .zero

theorem is_one : Is 1.0 1 := by
  have hparts : (1.0 : Float32).toModel.unpack = .finite .positive (2 ^ 23) (-23) (by decide) := rfl
  have hvalue : (1 : ℚ) = (2 ^ 23 : ℕ) * 2 ^ (-23 : ℤ) := by norm_num
  rw [Is, hparts, hvalue]
  exact .finite _ _ _ (by decide) (by decide) (.inr le_rfl)

/-- Below one, the next number is below it by a step of the grid. -/
theorem Is.le_of_lt_one (h : Is a v) (hv : v < 1) : v ≤ 1 - 2 ^ (-24 : ℤ) := by
  unfold Is at h
  generalize a.toModel.unpack = x at h
  cases h with
  | zero => norm_num
  | finite m e hm width least normal =>
    have he : e ≤ -24 := by
      refine Decidable.byContradiction fun hhigh => absurd hv (not_lt.2 ?_)
      calc (1 : ℚ) = (2 ^ 23 : ℕ) * 2 ^ (-23 : ℤ) := by norm_num
        _ ≤ m * 2 ^ e := parts_le (normal.resolve_left (by omega)) (by omega)
    calc (m : ℚ) * 2 ^ e ≤ (2 ^ 24 - 1 : ℕ) * 2 ^ (-24 : ℤ) :=
          parts_le (Nat.le_sub_one_of_lt width) he
      _ = 1 - 2 ^ (-24 : ℤ) := by norm_num

/-- Above one, the next number is above it by a step of the grid. -/
theorem Is.ge_of_one_lt (h : Is a v) (hv : 1 < v) : 1 + 2 ^ (-23 : ℤ) ≤ v := by
  unfold Is at h
  generalize a.toModel.unpack = x at h
  cases h with
  | zero => norm_num at hv
  | finite m e hm width least normal =>
    have hlong : 2 ^ 23 ≤ m := normal_of_one_le width normal hv.le
    rcases lt_trichotomy e (-23) with hlow | rfl | hhigh
    · have hlt : (m : ℚ) * 2 ^ e < 1 := by
        calc (m : ℚ) * 2 ^ e < (2 ^ 24 : ℕ) * 2 ^ e := parts_lt width e
          _ ≤ (2 ^ 24 : ℕ) * 2 ^ (-24 : ℤ) := parts_le le_rfl (by omega)
          _ = 1 := by norm_num
      exact absurd hv hlt.le.not_gt
    · have hne : m ≠ 2 ^ 23 := by
        rintro rfl
        norm_num at hv
      calc (1 : ℚ) + 2 ^ (-23 : ℤ) = (2 ^ 23 + 1 : ℕ) * 2 ^ (-23 : ℤ) := by norm_num
        _ ≤ m * 2 ^ (-23 : ℤ) := parts_le (by omega) le_rfl
    · calc (1 : ℚ) + 2 ^ (-23 : ℤ) ≤ (2 ^ 23 : ℕ) * 2 ^ (-22 : ℤ) := by norm_num
        _ ≤ m * 2 ^ e := parts_le hlong (by omega)

/-! ## Infinite weights -/

theorem toModel_infinity :
    unpack format (pack format (.infinity .positive)) = .infinity .positive := rfl

theorem IsInfinite.add (ha : IsInfinite a) (hb : IsInfinite b ∨ Is b w) : IsInfinite (a + b) := by
  unfold IsInfinite Is at *
  rw [toModel_add, ha]
  rcases hb with hb | hb
  · rw [hb]
    exact toModel_infinity
  · generalize b.toModel.unpack = y at hb
    cases hb <;> exact toModel_infinity

theorem Is.add_infinite (ha : Is a v) (hb : IsInfinite b) : IsInfinite (a + b) := by
  unfold IsInfinite Is at *
  rw [toModel_add, hb]
  generalize a.toModel.unpack = x at ha
  cases ha <;> exact toModel_infinity

theorem IsInfinite.sub (ha : IsInfinite a) (hb : Is b w) : IsInfinite (a - b) := by
  unfold IsInfinite Is at *
  rw [toModel_sub, ha]
  generalize b.toModel.unpack = y at hb
  cases hb <;> exact toModel_infinity

theorem IsInfinite.div (ha : IsInfinite a) (hb : Is b w) (h : 0 < w) : IsInfinite (a / b) := by
  unfold IsInfinite Is at *
  rw [toModel_div, ha]
  generalize b.toModel.unpack = y at hb
  cases hb with
  | zero => exact absurd h (lt_irrefl 0)
  | finite => exact toModel_infinity

theorem IsInfinite.not_is (ha : IsInfinite a) : ¬ Is a v := by
  unfold IsInfinite Is at *
  rw [ha]
  exact nofun

theorem IsInfinite.gt (ha : IsInfinite a) (hb : Is b w) : b < a := by
  unfold IsInfinite Is at *
  refine decide_eq_true (?_ : (b.toModel.unpack.compare a.toModel.unpack == some .lt) = true)
  rw [ha]
  generalize b.toModel.unpack = y at hb
  cases hb <;> rfl

theorem IsInfinite.not_lt (ha : IsInfinite a) (hb : Is b w) : ¬ a < b := by
  unfold IsInfinite Is at *
  refine fun h => ?_
  have hlt : (a.toModel.unpack.compare b.toModel.unpack == some .lt) = true := of_decide_eq_true h
  rw [ha] at hlt
  generalize b.toModel.unpack = y at hb hlt
  cases hb <;> cases hlt

/-! ## Numbers that fit -/

/-- What is not too large is held. -/
theorem Gives.is_of_lt {y : ℚ} (h : Gives a y) (hy : 0 ≤ y) (hlt : y < 2 ^ 127) :
    ∃ s, Is a s ∧ Rounds y s := by
  obtain ⟨s, hround, h | ⟨-, hlarge⟩⟩ := h
  · exact ⟨s, h, hround⟩
  · have herr := (abs_le.1 (hround.error_le hy)).2
    norm_num at herr hlt hlarge
    linarith

theorem Gives.is_or_infinite {y : ℚ} (h : Gives a y) : IsInfinite a ∨ ∃ s, Is a s ∧ Rounds y s := by
  obtain ⟨s, hround, h | ⟨h, -⟩⟩ := h
  · exact .inr ⟨s, h, hround⟩
  · exact .inl h

theorem rounds_toFloat32 {n : Nat} (h : n < 2 ^ 64) :
    ∃ c, Is (UInt64.ofNat n).toFloat32 c ∧ Rounds n c := by
  have hparts : (UInt64.ofNat n).toFloat32.toModel.unpack =
      unpack format (pack format (UnpackedFloat.normalize format (n : Int) 0 .positive)) := by
    have hn : (UInt64.ofNat n).toNat = n := Nat.mod_eq_of_lt h
    conv => rhs; rw [← hn]
    rfl
  have hrounded := rounds_normalize n 0
  rw [zpow_zero, mul_one] at hrounded
  have hlt : (n : ℚ) < 2 ^ 64 := by exact_mod_cast h
  exact (gives_of_unpack_pack hparts hrounded).is_of_lt (Nat.cast_nonneg _)
    (hlt.trans (by norm_num))

/-- Integers of 24 bits are held as they are. -/
theorem is_toFloat32 {n : Nat} (h : n < 2 ^ 24) : Is (UInt64.ofNat n).toFloat32 n := by
  obtain ⟨s, hs, f, hf, -, hexact⟩ := rounds_toFloat32 (Nat.lt_trans h (by decide))
  have hlt : (n : ℚ) < 2 ^ 24 := by exact_mod_cast h
  have hsteps : (n : ℚ) = (n * 2 ^ (-f).toNat : ℕ) * 2 ^ f := by
    have hf' : f ≤ 0 := by
      rcases hf with rfl | ⟨-, hf⟩
      · decide
      · have hpow : (2 : ℚ) ^ (f + 23) < 2 ^ (24 : ℤ) := hf.trans_lt (by exact_mod_cast hlt)
        have := (zpow_lt_zpow_iff_right₀ one_lt_two).1 hpow
        omega
    rw [Nat.cast_mul, Nat.cast_pow, Nat.cast_ofNat, mul_assoc, ← zpow_natCast,
      ← zpow_add₀ two_ne_zero, Int.toNat_of_nonneg (by omega), neg_add_cancel, zpow_zero, mul_one]
  rw [hexact ⟨_, hsteps⟩] at hs
  exact hs

/-- No integer above zero is rounded to less than one. -/
theorem one_le_toFloat32 {n : Nat} (hpos : 0 < n) (h : n < 2 ^ 64) :
    ∃ c, Is (UInt64.ofNat n).toFloat32 c ∧ 1 ≤ c := by
  rcases Nat.lt_or_ge n (2 ^ 24) with hlt | hge
  · exact ⟨n, is_toFloat32 hlt, by exact_mod_cast hpos⟩
  · obtain ⟨c, hc, hround⟩ := rounds_toFloat32 h
    have hge' : (16777216 : ℚ) ≤ n := by exact_mod_cast hge
    have herr := (abs_le.1 (hround.error_le (Nat.cast_nonneg n))).1
    refine ⟨c, hc, ?_⟩
    norm_num at herr
    linarith

/-- The weight is a number that is not below the given one, or it is infinite. -/
def AtLeast (a : Float32) (v : ℚ) : Prop :=
  IsInfinite a ∨ ∃ w, Is a w ∧ v ≤ w

/-! ## Weights -/

theorem normal_unpack {b : BitVec 32} {sign : Sign} {m : Nat} {e : Int} {hm : 0 < m}
    (h : unpack format b = .finite sign m e hm) : e = -149 ∨ 2 ^ 23 ≤ m := by
  have hbias : (format.exponentBias : Int) + format.mantissaBitsWithoutImplicit = 150 := rfl
  simp only [unpack, hbias] at h
  split at h
  · split at h <;> cases h
  · split at h
    · rename_i hzero
      split at h
      · cases h
      · cases h
        rw [hzero]
        exact .inl rfl
    · cases h
      refine .inr ?_
      rw [BitVec.toNat_append]
      exact Nat.le_trans (by decide) Nat.left_le_or

/-- A weight above zero is a number or infinite. -/
theorem is_or_infinite_of_pos (h : a > 0.0) : IsInfinite a ∨ ∃ v, 0 < v ∧ Is a v := by
  have habove := above_of_pos h
  unfold Is IsInfinite
  generalize hparts : a.toModel.unpack = x at habove
  cases habove with
  | infinity => exact .inl rfl
  | finite m e hm width least =>
    exact .inr ⟨m * 2 ^ e, by positivity, .finite m e hm width least (normal_unpack hparts)⟩

theorem Is.abs_eq (h : Is a v) : a.abs = a := by
  have habs : a.toModel.unpack.abs = a.toModel.unpack := by
    unfold Is at h
    generalize a.toModel.unpack = x at h
    cases h <;> rfl
  apply Float32.toBits_inj.1
  apply UInt32.toBitVec_inj.1
  show pack format a.toModel.unpack.abs = _
  rw [habs]
  exact pack_unpack_of_valid a.toModel.valid

theorem IsInfinite.abs (h : IsInfinite a) : IsInfinite a.abs := by
  show unpack format (pack format a.toModel.unpack.abs) = _
  rw [h]
  rfl

/-- Zero is not rounded. -/
theorem Gives.is_zero (h : Gives a 0) : Is a 0 := by
  obtain ⟨s, hs, f, -, -, hexact⟩ := h.is_of_lt le_rfl (by positivity)
  rw [hexact ⟨0, by simp⟩] at hs
  exact hs

theorem not_infinite_of_isFinite (h : a.isFinite = true) : ¬ IsInfinite a := by
  intro hinf
  have hfinite : a.toModel.unpack.isFinite = true := h
  rw [hinf] at hfinite
  cases hfinite

/-! ## The wider format -/

theorem round_binary64 {m : Nat} {e : Int} (hm : 0 < m) (sign : Sign) (width : m < 2 ^ 24)
    (least : -149 ≤ e) : ∃ m' hm', m'.log2 = 52 ∧
      UnpackedFloat.round .binary64 sign m e = .finite sign m' (m.log2 + e - 52) hm' := by
  have hlog : m.log2 < 24 := (Nat.log2_lt hm.ne').2 width
  have hlow : 2 ^ m.log2 ≤ m := Nat.log2_self_le hm.ne'
  have hhigh : m < 2 ^ (m.log2 + 1) := Nat.lt_log2_self
  set m' := m * 2 ^ (52 - m.log2) with hm'
  have hpow : 2 ^ 52 = 2 ^ m.log2 * 2 ^ (52 - m.log2) := by
    rw [← Nat.pow_add]
    congr 1
    omega
  have hpow' : 2 ^ 53 = 2 ^ (m.log2 + 1) * 2 ^ (52 - m.log2) := by
    rw [← Nat.pow_add]
    congr 1
    omega
  have hpos : 0 < m' := Nat.mul_pos hm (Nat.two_pow_pos _)
  have hlog' : m'.log2 = 52 := by
    rw [Nat.log2_eq_iff hpos.ne']
    exact ⟨hpow ▸ Nat.mul_le_mul_right _ hlow,
      hpow' ▸ Nat.mul_lt_mul_of_pos_right hhigh (Nat.two_pow_pos _)⟩
  refine ⟨m', hpos, hlog', ?_⟩
  have htarget : ∀ (m : Nat) (e : Int), Format.binary64.targetExponent (totalExponent m e) =
      max (m.log2 + 1 + e - 53) (-1074) := fun _ _ => rfl
  have hdown : decreaseExponent m e (max (m.log2 + 1 + e - 53) (-1074)) =
      (m', m.log2 + e - 52) := by
    have hshift : (e - max ((m.log2 : Int) + 1 + e - 53) (-1074)).toNat = 52 - m.log2 := by omega
    simp only [decreaseExponent, hshift, Nat.shiftLeft_eq, ← hm']
    congr 1
    omega
  have hstay : shiftToTargetExponent .binary64 m' (m.log2 + e - 52) .exact =
      (⟨m', false, false⟩, m.log2 + e - 52) := by
    have hshift : (max ((m'.log2 : Int) + 1 + (m.log2 + e - 52) - 53) (-1074) -
        (m.log2 + e - 52)).toNat = 0 := by omega
    simp only [shiftToTargetExponent, shiftToExponent, htarget, hshift]
    simp [HShiftRight.hShiftRight, Nat.repeat, ExtendedMantissa.ofMantissaAndAccuracy]
  have hrounded : ExtendedMantissa.roundedMantissa ⟨m', false, false⟩ = m' := rfl
  simp only [UnpackedFloat.round, htarget, hdown, roundWithAccuracy, hstay, hrounded]
  rw [dif_neg hpos.ne']

end Weight

open Weight in
/-- A chance below one stays below one. -/
theorem AliasSlot.chance_lt_one {slot : AliasSlot} {v : ℚ} (h : Is slot.useAlternate v)
    (hv : v < 1) : ¬ slot.chance ≥ 1.0 := by
  have hone : (1.0 : Float).toModel.unpack = .finite .positive (2 ^ 52) (-52) (by decide) := rfl
  intro hle
  have hle : ((1.0 : Float).toModel.unpack.compare slot.chance.toModel.unpack).any (·.isLE) =
      true := of_decide_eq_true hle
  rw [hone] at hle
  unfold Is at h
  unfold AliasSlot.chance at hle
  generalize slot.useAlternate.toModel.unpack = x at h hle
  cases h with
  | zero => exact absurd hle (by decide)
  | finite m e hm width least normal =>
    obtain ⟨m', hm', hlog, hround⟩ := round_binary64 hm .positive width least
    have hbelow : (m.log2 : Int) + e < 0 := by
      have hlow : ((2 ^ m.log2 : ℕ) : ℚ) ≤ m := by exact_mod_cast Nat.log2_self_le hm.ne'
      have hpow : (2 : ℚ) ^ ((m.log2 : Int) + e) < 2 ^ (0 : Int) := by
        rw [zpow_add₀ two_ne_zero, zpow_natCast, zpow_zero]
        refine lt_of_le_of_lt (mul_le_mul_of_nonneg_right ?_ (by positivity)) hv
        exact_mod_cast hlow
      exact (zpow_lt_zpow_iff_right₀ one_lt_two).1 hpow
    have hword : (Float.Model.pack (.finite .positive m' (m.log2 + e - 52) hm')).unpack =
        .finite .positive m' (m.log2 + e - 52) hm' := by
      have hbias : (Format.binary64.exponentBias : Int) = 1023 := rfl
      refine unpack_pack_normal hm' hlog ?_ ?_
      · show 0 < (m.log2 : Int) + e - 52 + 1023 + 52
        omega
      · show ((m.log2 : Int) + e - 52 + 1023 + 52).toNat + 1 < 2 ^ 11
        omega
    simp only [hround, hword] at hle
    have hgt : compare (-52 : Int) (m.log2 + e - 52) = .gt := by
      rw [compare_gt_iff_gt]
      omega
    simp only [UnpackedFloat.compare, hgt] at hle
    cases hle

theorem AliasSlot.chance_of_one {slot : AliasSlot} (h : slot.useAlternate = 1.0) :
    slot.chance = 1.0 := by
  unfold AliasSlot.chance
  rw [h]
  rfl

theorem AliasSlot.chance_of_zero {slot : AliasSlot} (h : slot.useAlternate = 0.0) :
    slot.chance = 0.0 := by
  unfold AliasSlot.chance
  rw [h]
  rfl

end Falsify
