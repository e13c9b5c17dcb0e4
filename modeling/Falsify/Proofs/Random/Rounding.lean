import Falsify.Proofs.Random.Weights

/-!
# Rounding of weights

A weight has a mantissa of 24 bits and an exponent that is not below -149. What does not fit is
shifted to the right, and two residual bits keep how the bits that drop out compare with half a step
(`Represents`). The mantissa that is rounded with their help is next to what it was before
(`Represents.rounded`), so the result of an operation is no further from the exact one than half a
step of a grid (`Rounds`). Nothing else about rounding is used in what follows.

* `rounds_roundWithAccuracy`: a mantissa with residual bits;
* `rounds_round`: a mantissa without them;
* `unpack_pack`: a number comes back from its word, unless it is too large for one.
-/

namespace Falsify

open Float.Model (Format UnpackedFloat totalExponent)
open Float.Model.UnpackedFloat

namespace Weight

/-! ## Mantissas with residual bits -/

/-- The mantissa with its residual bits describes the number. -/
def Represents (em : ExtendedMantissa) (x : ℚ) : Prop :=
  match em.roundBit, em.stickyBit with
  | false, false => x = em.mantissa
  | false, true => em.mantissa < x ∧ x < em.mantissa + 1 / 2
  | true, false => x = em.mantissa + 1 / 2
  | true, true => em.mantissa + 1 / 2 < x ∧ x < em.mantissa + 1

variable {em : ExtendedMantissa} {x : ℚ}

theorem Represents.shiftRightOne (h : Represents em x) : Represents em.shiftRightOne (x / 2) := by
  obtain ⟨m, round, sticky⟩ := em
  obtain ⟨half, rfl | rfl⟩ := Nat.even_or_odd' m
  · have hdiv : 2 * half / 2 = half := by omega
    have heven : (2 * half % 2 != 0) = false := by simp
    rcases round with _ | _ <;> rcases sticky with _ | _ <;>
      simp only [Represents, ExtendedMantissa.shiftRightOne, hdiv, heven, Bool.or_false,
        Bool.or_true] at h ⊢ <;>
      push_cast at h ⊢
    · linarith
    · constructor <;> linarith
    · constructor <;> linarith
    · constructor <;> linarith
  · have hdiv : (2 * half + 1) / 2 = half := by omega
    have hodd : ((2 * half + 1) % 2 != 0) = true := by simp
    rcases round with _ | _ <;> rcases sticky with _ | _ <;>
      simp only [Represents, ExtendedMantissa.shiftRightOne, hdiv, hodd, Bool.or_false,
        Bool.or_true] at h ⊢ <;>
      push_cast at h ⊢
    · linarith
    · constructor <;> linarith
    · constructor <;> linarith
    · constructor <;> linarith

/-- Dropped bits go into the residual ones, so that nothing is lost of what they describe. -/
theorem Represents.shiftRight (h : Represents em x) (n : Nat) :
    Represents (em >>> n) (x / 2 ^ n) := by
  change Represents (n.repeat ExtendedMantissa.shiftRightOne em) _
  induction n with
  | zero => simpa [Nat.repeat] using h
  | succ n ih =>
    rw [pow_succ, ← div_div]
    exact ih.shiftRightOne

/-- The rounded mantissa is an integer next to the number, and the number itself where that is an
integer. -/
theorem Represents.rounded (h : Represents em x) :
    |(em.roundedMantissa : ℚ) - x| ≤ 1 / 2 ∧ ∀ k : ℕ, x = k → em.roundedMantissa = k := by
  obtain ⟨m, round, sticky⟩ := em
  rcases round with _ | _ <;> rcases sticky with _ | _ <;>
    simp only [Represents, ExtendedMantissa.roundedMantissa, ExtendedMantissa.accuracy,
      Accuracy.roundToNearestEven] at h ⊢
  · subst h
    exact ⟨by norm_num, fun k hk => by exact_mod_cast hk⟩
  · refine ⟨by rw [abs_le]; constructor <;> linarith, fun k hk => ?_⟩
    subst hk
    have h₁ : m < k := by exact_mod_cast h.1
    have h₂ : (k : ℚ) < (m + 1 : ℕ) := by push_cast; linarith
    have h₂ : k < m + 1 := by exact_mod_cast h₂
    omega
  · have hmod : (m % 2 : ℕ) ≤ 1 := by omega
    have hmod' : ((m % 2 : ℕ) : ℚ) ≤ 1 := by exact_mod_cast hmod
    have hmod₀ : (0 : ℚ) ≤ ((m % 2 : ℕ) : ℚ) := Nat.cast_nonneg _
    refine ⟨by rw [abs_le]; push_cast at *; constructor <;> linarith, fun k hk => ?_⟩
    subst hk
    have h' : ((2 * k : ℕ) : ℚ) = (2 * m + 1 : ℕ) := by push_cast; linarith
    have h' : 2 * k = 2 * m + 1 := by exact_mod_cast h'
    omega
  · refine ⟨by push_cast; rw [abs_le]; constructor <;> linarith, fun k hk => ?_⟩
    subst hk
    have h₁ : (m : ℚ) < k := by linarith
    have h₁ : m < k := by exact_mod_cast h₁
    have h₂ : (k : ℚ) < (m + 1 : ℕ) := by push_cast; linarith
    have h₂ : k < m + 1 := by exact_mod_cast h₂
    omega

/-! ## Rounding to the format -/

/-- The second number is the first one rounded: no further from it than half a step of a grid, the
finest one or one whose steps are small beside the number, and the same if that is on the grid. -/
def Rounds (y s : ℚ) : Prop :=
  ∃ f : ℤ, (f = -149 ∨ -149 ≤ f ∧ 2 ^ (f + 23) ≤ y) ∧ |s - y| ≤ 2 ^ (f - 1) ∧
    ((∃ k : ℕ, y = k * 2 ^ f) → s = y)

/-- The number is on the finest grid of the format. -/
def OnGrid (y : ℚ) : Prop :=
  ∃ k : ℕ, y = k * 2 ^ (-149 : ℤ)

namespace Rounds

variable {y s : ℚ}

theorem refl (y : ℚ) : Rounds y y :=
  ⟨-149, .inl rfl, by rw [sub_self, abs_zero]; positivity, fun _ => rfl⟩

theorem half_step {f : ℤ} (h : 2 ^ (f + 23) ≤ y) : (2 : ℚ) ^ (f - 1) ≤ 2 ^ (-24 : ℤ) * y := by
  calc (2 : ℚ) ^ (f - 1) = 2 ^ (-24 : ℤ) * 2 ^ (f + 23) := by
        rw [← zpow_add₀ two_ne_zero]
        congr 1
        ring
    _ ≤ 2 ^ (-24 : ℤ) * y := mul_le_mul_of_nonneg_left h (by positivity)

/-- The error is small beside the number, or smaller than all numbers of the format. -/
theorem error_le (h : Rounds y s) (hy : 0 ≤ y) :
    |s - y| ≤ 2 ^ (-24 : ℤ) * y + 2 ^ (-150 : ℤ) := by
  obtain ⟨f, rfl | ⟨-, hf⟩, herr, -⟩ := h
  · refine herr.trans ?_
    norm_num at *
    positivity
  · exact (herr.trans (half_step hf)).trans (by linarith [zpow_pos (two_pos (α := ℚ)) (-150)])

/-- On the finest grid, the error is small beside the number. -/
theorem error_le_of_onGrid (h : Rounds y s) (hy : OnGrid y) : |s - y| ≤ 2 ^ (-24 : ℤ) * y := by
  obtain ⟨f, rfl | ⟨-, hf⟩, herr, hexact⟩ := h
  · rw [hexact hy, sub_self, abs_zero]
    obtain ⟨k, rfl⟩ := hy
    positivity
  · exact herr.trans (half_step hf)

/-- Below one, the error is at most half the distance from one to the next number below it. -/
theorem error_le_of_lt_one (h : Rounds y s) (hy : y < 1) : |s - y| ≤ 2 ^ (-25 : ℤ) := by
  obtain ⟨f, hf, herr, -⟩ := h
  refine herr.trans (zpow_le_zpow_right₀ one_le_two ?_)
  rcases hf with rfl | ⟨-, hf⟩
  · norm_num
  · have hlt : (2 : ℚ) ^ (f + 23) < 2 ^ (0 : ℤ) := hf.trans_lt (by simpa using hy)
    have := (zpow_lt_zpow_iff_right₀ one_lt_two).1 hlt
    omega

end Rounds

/-- Numbers grow with their parts. -/
theorem parts_le {m m' : Nat} {e e' : Int} (hm : m ≤ m') (he : e ≤ e') :
    (m : ℚ) * 2 ^ e ≤ m' * 2 ^ e' :=
  mul_le_mul (by exact_mod_cast hm) (zpow_le_zpow_right₀ one_le_two he) (by positivity)
    (by positivity)

theorem parts_lt {m m' : Nat} (hm : m < m') (e : Int) : (m : ℚ) * 2 ^ e < m' * 2 ^ e :=
  mul_lt_mul_of_pos_right (by exact_mod_cast hm) (by positivity)

/-- A number that is not negative, as its parts give it in the format: the mantissa has 24 bits
unless the exponent is the least one. -/
inductive Holds : UnpackedFloat → ℚ → Prop
  | zero : Holds (.zero .positive) 0
  | finite (m : Nat) (e : Int) (hm : 0 < m) (width : m < 2 ^ 24) (least : -149 ≤ e)
    (normal : e = -149 ∨ 2 ^ 23 ≤ m) : Holds (.finite .positive m e hm) (m * 2 ^ e)

theorem represents_ofMantissaAndAccuracy_exact (m : Nat) :
    Represents (ExtendedMantissa.ofMantissaAndAccuracy m .exact) m := rfl

theorem Represents.bounds (h : Represents em x) :
    (em.mantissa : ℚ) ≤ x ∧ x < em.mantissa + 1 := by
  obtain ⟨m, round, sticky⟩ := em
  rcases round with _ | _ <;> rcases sticky with _ | _ <;> simp only [Represents] at h ⊢ <;>
    constructor <;> linarith

/-- The exponent of the grid that a mantissa and an exponent are rounded to. -/
def gridExponent (m : Nat) (e : Int) : Int :=
  max (m.log2 + 1 + e - 24) (-149)

theorem shiftToTargetExponent_eq (m : Nat) (e : Int) (accuracy : Accuracy) :
    shiftToTargetExponent format m e accuracy =
      (ExtendedMantissa.ofMantissaAndAccuracy m accuracy >>> (gridExponent m e - e).toNat,
        e + (gridExponent m e - e).toNat) := rfl

/-- Nothing is shifted when the mantissa fits. -/
theorem shiftToTargetExponent_of_fits {m : Nat} {e : Int} (accuracy : Accuracy) (hm : m < 2 ^ 24)
    (he : -149 ≤ e) : shiftToTargetExponent format m e accuracy =
      (ExtendedMantissa.ofMantissaAndAccuracy m accuracy, e) := by
  have hlog : m.log2 < 24 := by
    rcases Nat.eq_zero_or_pos m with rfl | hpos
    · decide
    · exact (Nat.log2_lt hpos.ne').2 hm
  have hshift : (gridExponent m e - e).toNat = 0 := by
    unfold gridExponent
    omega
  rw [shiftToTargetExponent_eq, hshift]
  simp [HShiftRight.hShiftRight, Nat.repeat]

/-- A mantissa in parts is wide enough to be rounded: it has 24 bits, or its exponent is low. -/
def Wide (m : Nat) (e : Int) : Prop :=
  e ≤ -149 ∨ 2 ^ 23 ≤ m

theorem Wide.le_gridExponent {m : Nat} {e : Int} (h : Wide m e) : e ≤ gridExponent m e := by
  unfold gridExponent
  rcases h with h | h
  · omega
  · have := (Nat.le_log2 (by omega)).2 h
    omega

/-- Where the grid of a number is, and how many of its steps the number has. -/
theorem gridExponent_spec {m : Nat} {e : Int} (hx₀ : (m : ℚ) ≤ x) (hx₁ : x < m + 1)
    (wide : Wide m e) :
    (gridExponent m e = -149 ∨
      -149 ≤ gridExponent m e ∧ 2 ^ (gridExponent m e + 23) ≤ x * 2 ^ e) ∧
      x * 2 ^ e < 2 ^ (gridExponent m e + 24) := by
  have hpos : (0 : ℚ) < 2 ^ e := by positivity
  constructor
  · rcases le_or_gt ((m.log2 : Int) + 1 + e - 24) (-149) with hlow | hhigh
    · exact .inl (max_eq_right hlow)
    · have hgrid : gridExponent m e = m.log2 + 1 + e - 24 := max_eq_left hhigh.le
      have hm : m ≠ 0 := by
        rintro rfl
        rcases wide with h | h
        · simp at hhigh
          omega
        · simp at h
      refine .inr ⟨by omega, ?_⟩
      have hlog : ((2 ^ m.log2 : ℕ) : ℚ) ≤ m := by exact_mod_cast Nat.log2_self_le hm
      calc (2 : ℚ) ^ (gridExponent m e + 23) = (2 ^ m.log2 : ℕ) * 2 ^ e := by
            rw [hgrid, Nat.cast_pow, ← zpow_natCast, Nat.cast_ofNat, ← zpow_add₀ two_ne_zero]
            congr 1
            ring
        _ ≤ x * 2 ^ e := mul_le_mul_of_nonneg_right (hlog.trans hx₀) hpos.le
  · have hlog : ((m + 1 : ℕ) : ℚ) ≤ (2 ^ (m.log2 + 1) : ℕ) := by
      exact_mod_cast (Nat.lt_log2_self : m < 2 ^ (m.log2 + 1))
    calc x * 2 ^ e < (2 ^ (m.log2 + 1) : ℕ) * 2 ^ e :=
          mul_lt_mul_of_pos_right (hx₁.trans_le (by push_cast at hlog ⊢; exact hlog)) hpos
      _ = (2 : ℚ) ^ ((m.log2 + 1 : ℤ) + e) := by
          rw [Nat.cast_pow, ← zpow_natCast, Nat.cast_ofNat, ← zpow_add₀ two_ne_zero]
          push_cast
          rfl
      _ ≤ 2 ^ (gridExponent m e + 24) := by
          refine zpow_le_zpow_right₀ one_le_two ?_
          unfold gridExponent
          omega

/-- A rounded mantissa that has become one bit too long is shifted once more. -/
theorem holds_refit {r : Nat} {f : Int} (hr : r ≤ 2 ^ 24) (hf : -149 ≤ f)
    (normal : f = -149 ∨ 2 ^ 23 ≤ r) :
    Holds (if h : (shiftToTargetExponent format r f .exact).1.mantissa = 0 then .zero .positive
      else .finite .positive _ (shiftToTargetExponent format r f .exact).2 (Nat.pos_of_ne_zero h))
      (r * 2 ^ f) := by
  rcases Nat.lt_or_eq_of_le hr with hlt | rfl
  · rw [shiftToTargetExponent_of_fits .exact hlt hf]
    split
    · rename_i hzero
      have hzero : r = 0 := hzero
      rw [hzero, Nat.cast_zero, zero_mul]
      exact .zero
    · exact .finite _ _ _ hlt hf normal
  · have hgrid : gridExponent (2 ^ 24) f = f + 1 := by
      unfold gridExponent
      rw [Nat.log2_two_pow]
      omega
    have hshift : shiftToTargetExponent format (2 ^ 24) f .exact =
        (⟨2 ^ 23, false, false⟩, f + 1) := by
      rw [shiftToTargetExponent_eq, hgrid, show (f + 1 - f).toNat = 1 by omega]
      rfl
    rw [hshift]
    have hvalue : ((2 ^ 24 : ℕ) : ℚ) * 2 ^ f = (2 ^ 23 : ℕ) * 2 ^ (f + 1) := by
      rw [zpow_add_one₀ two_ne_zero]
      push_cast
      ring
    rw [hvalue]
    exact .finite _ _ _ (show 2 ^ 23 < 2 ^ 24 by decide) (by omega) (.inr le_rfl)

theorem rounds_roundWithAccuracy {m : Nat} {e : Int} {accuracy : Accuracy}
    (hx : Represents (ExtendedMantissa.ofMantissaAndAccuracy m accuracy) x) (wide : Wide m e) :
    ∃ s, Holds (roundWithAccuracy format .positive m e accuracy) s ∧ Rounds (x * 2 ^ e) s := by
  set f := gridExponent m e with hf
  have hle : e ≤ f := wide.le_gridExponent
  have hleast : -149 ≤ f := le_max_right _ _
  have hstep : (0 : ℚ) < 2 ^ f := by positivity
  obtain ⟨hbounds₀, hbounds₁⟩ := hx.bounds
  rw [mantissa_ofMantissaAndAccuracy] at hbounds₀ hbounds₁
  obtain ⟨hlow, hhigh⟩ := gridExponent_spec hbounds₀ hbounds₁ wide
  rw [← hf] at hlow hhigh
  -- How many steps of the grid the number has.
  have hsteps : x / 2 ^ (f - e).toNat = x * 2 ^ e / 2 ^ f := by
    rw [← zpow_natCast, Int.toNat_of_nonneg (by omega), zpow_sub₀ two_ne_zero]
    field_simp
  have hshift := hx.shiftRight (f - e).toNat
  rw [hsteps] at hshift
  have hexponent : e + ((f - e).toNat : Int) = f := by omega
  set em := ExtendedMantissa.ofMantissaAndAccuracy m accuracy >>> (f - e).toNat with hem
  obtain ⟨herr, hexact⟩ := hshift.rounded
  have herr' := abs_le.1 herr
  have hmost : em.roundedMantissa ≤ 2 ^ 24 := by
    have hlt : x * 2 ^ e / 2 ^ f < 2 ^ 24 := by
      rw [div_lt_iff₀ hstep]
      refine hhigh.trans_eq ?_
      rw [zpow_add₀ two_ne_zero, mul_comm]
      norm_num
    have hlt' : (em.roundedMantissa : ℚ) < (2 ^ 24 + 1 : ℕ) := by push_cast; linarith
    exact Nat.lt_succ_iff.1 (by exact_mod_cast hlt')
  have hnormal : f = -149 ∨ 2 ^ 23 ≤ em.roundedMantissa := by
    refine hlow.imp id fun ⟨_, hlow⟩ => ?_
    have hle : (2 : ℚ) ^ 23 ≤ x * 2 ^ e / 2 ^ f := by
      rw [le_div_iff₀ hstep]
      refine Eq.trans_le ?_ hlow
      rw [zpow_add₀ two_ne_zero, mul_comm]
      norm_num
    have hlt : ((2 ^ 23 : ℕ) : ℚ) < (em.roundedMantissa + 1 : ℕ) := by push_cast; linarith
    exact Nat.lt_succ_iff.1 (by exact_mod_cast hlt)
  refine ⟨em.roundedMantissa * 2 ^ f, ?_, f, hlow, ?_, ?_⟩
  · have hround := holds_refit hmost hleast hnormal
    simp only [roundWithAccuracy, shiftToTargetExponent_eq m, ← hf, hexponent, ← hem]
    exact hround
  · have hdiff : (em.roundedMantissa : ℚ) * 2 ^ f - x * 2 ^ e =
        (em.roundedMantissa - x * 2 ^ e / 2 ^ f) * 2 ^ f := by
      field_simp
    rw [hdiff, abs_mul, abs_of_pos hstep, zpow_sub_one₀ two_ne_zero, mul_comm _ (2⁻¹ : ℚ)]
    exact mul_le_mul_of_nonneg_right (herr.trans_eq (by norm_num)) hstep.le
  · rintro ⟨k, hk⟩
    rw [hk, hexact k (by rw [hk]; field_simp)]

/-- A mantissa that is lowered to its grid before it is rounded. -/
theorem rounds_round {m : Nat} (hm : 0 < m) (e : Int) :
    ∃ s, Holds (UnpackedFloat.round format .positive m e) s ∧ Rounds (m * 2 ^ e) s := by
  set k := (e - gridExponent m e).toNat with hk
  have hround : UnpackedFloat.round format .positive m e =
      roundWithAccuracy format .positive (m <<< k) (e - k) .exact := rfl
  have hwide : Wide (m <<< k) (e - k) := by
    have hgrid : gridExponent m e = max (m.log2 + 1 + e - 24) (-149) := rfl
    have hlow : 2 ^ m.log2 ≤ m := Nat.log2_self_le hm.ne'
    rcases le_or_gt (e - k) (-149) with h | h
    · exact .inl h
    · refine .inr ?_
      rw [Nat.shiftLeft_eq]
      calc 2 ^ 23 ≤ 2 ^ (m.log2 + k) := Nat.pow_le_pow_right (by decide) (by omega)
        _ = 2 ^ m.log2 * 2 ^ k := Nat.pow_add _ _ _
        _ ≤ m * 2 ^ k := Nat.mul_le_mul_right _ hlow
  have hvalue : ((m <<< k : ℕ) : ℚ) * 2 ^ (e - k : ℤ) = m * 2 ^ e := by
    rw [Nat.shiftLeft_eq, zpow_sub₀ two_ne_zero, zpow_natCast]
    push_cast
    field_simp
  rw [hround, ← hvalue]
  exact rounds_roundWithAccuracy (represents_ofMantissaAndAccuracy_exact _) hwide

/-! ## Words -/

/-- A word gives back a number whose mantissa has all its bits, if the exponent fits. -/
theorem unpack_pack_normal {spec : Format} {sign : Sign} {m : Nat} {e : Int} (hm : 0 < m)
    (hlog : m.log2 = spec.mantissaBitsWithoutImplicit)
    (hpos : 0 < e + spec.exponentBias + spec.mantissaBitsWithoutImplicit)
    (hfit : (e + spec.exponentBias + spec.mantissaBitsWithoutImplicit).toNat + 1 <
      2 ^ spec.exponentBits) :
    unpack spec (pack spec (.finite sign m e hm)) = .finite sign m e hm := by
  set biased := (e + spec.exponentBias + spec.mantissaBitsWithoutImplicit).toNat with hbiased
  have hbits : m.log2 + 1 = spec.mantissaBits := by
    rw [hlog, Format.mantissaBits, Nat.add_comm]
  have hnan : BitVec.ofNat spec.exponentBits biased ≠ -1#_ := by
    refine ofNat_ne (by omega) ?_
    rw [BitVec.neg_one_eq_allOnes, BitVec.toNat_allOnes]
    omega
  have hzero : BitVec.ofNat spec.exponentBits biased ≠ 0#_ :=
    ofNat_ne (by omega) (by simp; omega)
  have hlow : 2 ^ spec.mantissaBitsWithoutImplicit ≤ m := hlog ▸ Nat.log2_self_le hm.ne'
  have hhigh : m < 2 ^ spec.mantissaBitsWithoutImplicit * 2 := by
    rw [← Nat.pow_succ, ← hlog]
    exact Nat.lt_log2_self
  have hmod : m % 2 ^ spec.mantissaBitsWithoutImplicit =
      m - 2 ^ spec.mantissaBitsWithoutImplicit := by
    rw [Nat.mod_eq_sub_mod hlow, Nat.mod_eq_of_lt (by omega)]
  have hmantissa : (1#1 ++ BitVec.ofNat spec.mantissaBitsWithoutImplicit m).toNat = m := by
    rw [BitVec.toNat_append, BitVec.toNat_ofNat, BitVec.toNat_ofNat,
      ← Nat.shiftLeft_add_eq_or_of_lt (Nat.mod_lt _ (Nat.two_pow_pos _)), Nat.shiftLeft_eq, hmod]
    omega
  have hexponent : ((BitVec.ofNat spec.exponentBits biased).toNat : Int) -
      (spec.exponentBias + spec.mantissaBitsWithoutImplicit) = e := by
    rw [BitVec.toNat_ofNat, Nat.mod_eq_of_lt (by omega)]
    omega
  simp only [pack, ← hbiased, hbits, if_neg (Nat.not_le.2 hfit), if_true, unpack,
    unpackSign_packComponents, unpackExponent_packComponents, unpackMantissa_packComponents,
    Sign.ofBitVec_toBitVec]
  rw [if_neg hnan, if_neg hzero]
  congr 1

/-- A word gives back the number that it was made of, or the number was too large for it. -/
theorem unpack_pack {y : UnpackedFloat} {v : ℚ} (h : Holds y v) :
    Holds (unpack format (pack format y)) v ∨
      unpack format (pack format y) = .infinity .positive ∧ 2 ^ 128 ≤ v := by
  cases h with
  | zero =>
    refine .inl ?_
    show Holds (unpack format (packedZero format .positive)) 0
    rw [unpack_packedZero]
    exact .zero
  | finite m e hm width least normal =>
    have hbiased : (e + format.exponentBias + format.mantissaBitsWithoutImplicit).toNat =
        (e + 150).toNat := by
      change (e + 127 + 23).toNat = _
      omega
    have hbias : (format.exponentBias : Int) + format.mantissaBitsWithoutImplicit = 150 := rfl
    have hlow : m.log2 < 24 := (Nat.log2_lt hm.ne').2 width
    rcases Nat.lt_or_ge ((e + 150).toNat + 1) (2 ^ 8) with hfit | hlarge
    · refine .inl ?_
      have hparts := Holds.finite m e hm width least normal
      rcases Nat.lt_or_ge m (2 ^ 23) with hshort | hlong
      · have he : e = -149 := normal.resolve_right (by omega)
        have hlog : m.log2 + 1 ≠ format.mantissaBits := by
          have : m.log2 < 23 := (Nat.log2_lt hm.ne').2 hshort
          show m.log2 + 1 ≠ 1 + 23
          omega
        have hmantissa : BitVec.ofNat 23 m ≠ 0#23 := ofNat_ne hshort (by simp; omega)
        have hvalue : (BitVec.ofNat 23 m).toNat = m := by
          rw [BitVec.toNat_ofNat, Nat.mod_eq_of_lt hshort]
        have hword : unpack format (pack format (.finite .positive m e hm)) =
            .finite .positive m e hm := by
          simp only [pack, hbiased, if_neg (Nat.not_le.2 hfit), if_neg hlog, unpack,
            unpackSign_packComponents, unpackExponent_packComponents,
            unpackMantissa_packComponents, hbias]
          rw [if_neg (by decide), if_pos trivial, dif_neg hmantissa]
          congr 1
          exact he.symm
        rwa [hword]
      · have hlog : m.log2 = 23 := by
          have := (Nat.le_log2 hm.ne').2 hlong
          omega
        rwa [unpack_pack_normal hm hlog (by omega) (hbiased ▸ hfit)]
    · refine .inr ⟨?_, ?_⟩
      · simp only [pack, hbiased, if_pos hlarge]
        rfl
      · calc (2 : ℚ) ^ 128 = (2 ^ 23 : ℕ) * 2 ^ (105 : ℤ) := by norm_num
          _ ≤ m * 2 ^ e := parts_le (normal.resolve_left (by omega)) (by omega)

end Weight

end Falsify
