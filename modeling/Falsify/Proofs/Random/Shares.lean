import Falsify.Proofs.Random.Arithmetic

/-!
# Shares of weights

What rounding does to the total of some weights and to their shares, when the total is a number.

* `total_spec`: the total is not far above the sum of the positive weights;
* `Countable.atLeast_share`: a share is not far below the one that the weight should have;
* `Countable.sum_floorOf_ge`: so all of them together are not far below the number of slots;
* `left_spec`: what is left of a share after a round;
* `one_sub_spec`: the coin of the slot that is made in the round.
-/

namespace Falsify

open Weight

namespace AliasTable

variable {weights : List Float32} {w : Float32}

/-- The sum of the positive weights, not rounded. -/
def worthOf (weights : List Float32) : ℚ :=
  (weights.map worth).sum

theorem worthOf_cons (w : Float32) (weights : List Float32) :
    worthOf (w :: weights) = worth w + worthOf weights :=
  List.sum_cons

theorem worthOf_nonneg (weights : List Float32) : 0 ≤ worthOf weights :=
  List.sum_nonneg fun v hv => by
    obtain ⟨w, -, rfl⟩ := List.mem_map.1 hv
    exact worth_nonneg w

theorem worth_le_worthOf (h : w ∈ weights) : worth w ≤ worthOf weights := by
  refine List.single_le_sum (fun v hv => ?_) _ (List.mem_map_of_mem h)
  obtain ⟨w, -, rfl⟩ := List.mem_map.1 hv
  exact worth_nonneg w

/-! ## Totals -/

theorem filter_cons_pos {rest : List Float32} (h : w > 0.0) :
    (w :: rest).filter (· > 0.0) = w :: rest.filter (· > 0.0) :=
  List.filter_cons_of_pos (decide_eq_true h)

theorem filter_cons_not_pos {rest : List Float32} (h : ¬ w > 0.0) :
    (w :: rest).filter (· > 0.0) = rest.filter (· > 0.0) :=
  List.filter_cons_of_neg (by simpa using h)

theorem infinite_foldl {acc : Float32} (h : IsInfinite acc) (weights : List Float32) :
    IsInfinite ((weights.filter (· > 0.0)).foldl (· + ·) acc) := by
  induction weights generalizing acc with
  | nil => exact h
  | cons w rest ih =>
    by_cases hw : w > 0.0
    · rw [filter_cons_pos hw, List.foldl_cons]
      rcases is_or_infinite_of_pos hw with hinf | ⟨v, -, hv⟩
      · exact ih (h.add (.inl hinf : _ ∨ Is w 0))
      · exact ih (h.add (.inr hv))
    · rw [filter_cons_not_pos hw]
      exact ih h

/-- Each addition rounds once, and nothing that is infinite goes away again: by induction on the
weights. -/
theorem foldl_spec {acc : Float32} {t : ℚ} (h : Is acc t) (weights : List Float32) :
    IsInfinite ((weights.filter (· > 0.0)).foldl (· + ·) acc) ∨
      (∀ w ∈ weights, w > 0.0 → Is w (worth w)) ∧
      ∃ s, Is ((weights.filter (· > 0.0)).foldl (· + ·) acc) s ∧
        s ≤ (t + worthOf weights) * (1 + 2 ^ (-24 : ℤ)) ^ weights.length := by
  induction weights generalizing acc t with
  | nil => exact .inr ⟨by simp, t, h, by simp [worthOf]⟩
  | cons w rest ih =>
    have ht := h.nonneg
    have hrest := worthOf_nonneg rest
    rw [worthOf_cons, List.length_cons]
    by_cases hw : w > 0.0
    · rw [filter_cons_pos hw, List.foldl_cons]
      rcases is_or_infinite_of_pos hw with hinf | ⟨v, -, hv⟩
      · exact .inl (infinite_foldl (h.add_infinite hinf) rest)
      · have hv₀ := hv.nonneg
        rcases (gives_add h hv).is_or_infinite with hinf | ⟨s, hs, hround⟩
        · exact .inl (infinite_foldl hinf rest)
        · refine (ih hs).imp id fun ⟨hnumbers, total, htotal, hle⟩ => ⟨?_, total, htotal, ?_⟩
          · refine List.forall_mem_cons.2 ⟨fun _ => ?_, hnumbers⟩
            rw [hv.worth_eq]
            exact hv
          · have herr := (abs_le.1 (hround.error_le_of_onGrid (h.onGrid.add hv.onGrid))).2
            have hstep : s + worthOf rest ≤
                (t + (v + worthOf rest)) * (1 + 2 ^ (-24 : ℤ)) := by
              have hmore : (0 : ℚ) ≤ 2 ^ (-24 : ℤ) * worthOf rest := by positivity
              linarith
            rw [hv.worth_eq]
            calc total ≤ (s + worthOf rest) * (1 + 2 ^ (-24 : ℤ)) ^ rest.length := hle
              _ ≤ (t + (v + worthOf rest)) * (1 + 2 ^ (-24 : ℤ)) *
                    (1 + 2 ^ (-24 : ℤ)) ^ rest.length :=
                  mul_le_mul_of_nonneg_right hstep (by positivity)
              _ = (t + (v + worthOf rest)) * (1 + 2 ^ (-24 : ℤ)) ^ (rest.length + 1) := by
                  rw [pow_succ']
                  ring
    · rw [filter_cons_not_pos hw, worth_of_not_pos hw, zero_add]
      refine (ih h).imp id fun ⟨hnumbers, total, htotal, hle⟩ => ⟨?_, total, htotal, hle.trans ?_⟩
      · exact List.forall_mem_cons.2 ⟨fun hpos => absurd hpos hw, hnumbers⟩
      · exact mul_le_mul_of_nonneg_left (pow_le_pow_right₀ (by norm_num) (Nat.le_succ _))
          (by positivity)

/-- A total that is a number is that of numbers, and not far above their sum. -/
theorem total_spec (h : (totalWeight weights).isFinite = true) :
    (∀ w ∈ weights, w > 0.0 → Is w (worth w)) ∧
      ∃ t, Is (totalWeight weights) t ∧
        t ≤ worthOf weights * (1 + 2 ^ (-24 : ℤ)) ^ weights.length := by
  have hspec := (foldl_spec is_zero weights).resolve_left (not_infinite_of_isFinite h)
  rw [zero_add] at hspec
  exact hspec

/-! ## Shares -/

/-- What a share has at least: the weight's part of the sum, rounded once for each addition of the
total and twice when the weight is scaled, and then perhaps down to the next number of the
format. -/
def floorOf (weights : List Float32) (w : Float32) : ℚ :=
  weights.length * (worth w / worthOf weights) *
      ((1 - 2 ^ (-24 : ℤ)) ^ 2 / (1 + 2 ^ (-24 : ℤ)) ^ weights.length) -
    2 ^ (-150 : ℤ)

/-- The total of the weights is a number above zero, and a word counts them. -/
structure Countable (weights : List Float32) : Prop where
  finite : (totalWeight weights).isFinite = true
  positive : ¬ totalWeight weights ≤ 0.0
  counted : weights.length < 2 ^ 64
  nonempty : 0 < weights.length

/-- A table whose total is a number counts its weights. -/
theorem countable_of_ofWeights? {table : AliasTable}
    (h : ofWeights? weights = some table) (hfinite : (totalWeight weights).isFinite = true)
    (hcounted : weights.length < 2 ^ 64) : Countable weights := by
  unfold ofWeights? at h
  split at h
  · cases h
  · rename_i hgood
    rw [Bool.or_eq_true, not_or] at hgood
    exact ⟨hfinite, fun hle => hgood.2 (decide_eq_true hle), hcounted,
      List.length_pos_iff.2 fun hnil => hgood.1 (List.isEmpty_iff.2 hnil)⟩

variable (h : Countable weights)

include h

theorem Countable.total : ∃ t, Is (totalWeight weights) t ∧ 0 < t ∧
    t ≤ worthOf weights * (1 + 2 ^ (-24 : ℤ)) ^ weights.length := by
  obtain ⟨-, t, ht, hle⟩ := total_spec h.finite
  exact ⟨t, ht, not_le.1 fun hzero => h.positive ((Weight.le_iff ht is_zero).2 hzero), hle⟩

theorem Countable.worthOf_pos : 0 < worthOf weights := by
  obtain ⟨t, -, hpos, hle⟩ := h.total
  exact pos_of_mul_pos_left (hpos.trans_le hle) (by positivity)

theorem Countable.is_clipped (hw : w ∈ weights) :
    Is (if w > 0.0 then w else 0.0) (worth w) := by
  split
  · exact (total_spec h.finite).1 w hw ‹_›
  · rw [worth_of_not_pos ‹_›]
    exact is_zero

theorem Countable.one_le_length : (1 : ℚ) ≤ weights.length := by
  exact_mod_cast h.nonempty

/-- Shares are numbers, or infinite. -/
theorem Countable.atLeast_zero (hw : w ∈ weights) : AtLeast (share weights w) 0 := by
  obtain ⟨t, ht, hpos, -⟩ := h.total
  obtain ⟨c, hc, hone⟩ := one_le_toFloat32 h.nonempty h.counted
  rcases (gives_mul hc (h.is_clipped hw) hone).is_or_infinite with hinf | ⟨p, hp, -⟩
  · exact .inl (hinf.div ht hpos)
  · exact (gives_div hp ht hpos).is_or_infinite.imp id fun ⟨q, hq, _⟩ => ⟨q, hq, hq.nonneg⟩

theorem Countable.atLeast_share (hshort : weights.length < 2 ^ 24) (hw : w ∈ weights) :
    AtLeast (share weights w) (floorOf weights w) := by
  obtain ⟨t, ht, hpos, hle⟩ := h.total
  have hworth := worth_nonneg w
  have hsum := h.worthOf_pos
  have hgrid := (h.is_clipped hw).onGrid.natCast_mul weights.length
  rcases (gives_mul (is_toFloat32 hshort) (h.is_clipped hw) h.one_le_length).is_or_infinite with
    hinf | ⟨p, hp, hround⟩
  · exact .inl (hinf.div ht hpos)
  · have hp₀ := hp.nonneg
    have hlow := (abs_le.1 (hround.error_le_of_onGrid hgrid)).1
    refine (gives_div hp ht hpos).is_or_infinite.imp id fun ⟨q, hq, hround'⟩ => ⟨q, hq, ?_⟩
    have hlow' := (abs_le.1 (hround'.error_le (by positivity))).1
    have hpart : weights.length * worth w * (1 - 2 ^ (-24 : ℤ)) /
        (worthOf weights * (1 + 2 ^ (-24 : ℤ)) ^ weights.length) ≤ p / t :=
      div_le_div₀ hp₀ (by linarith) hpos hle
    have hfloor : weights.length * (worth w / worthOf weights) *
        ((1 - 2 ^ (-24 : ℤ)) ^ 2 / (1 + 2 ^ (-24 : ℤ)) ^ weights.length) ≤
          p / t * (1 - 2 ^ (-24 : ℤ)) := by
      refine Eq.trans_le ?_ (mul_le_mul_of_nonneg_right hpart (by norm_num))
      field_simp
    unfold floorOf
    linarith

theorem Countable.share_of_not_pos (hw : ¬ w > 0.0) : share weights w = 0.0 := by
  obtain ⟨t, ht, hpos, -⟩ := h.total
  obtain ⟨c, hc, hone⟩ := one_le_toFloat32 h.nonempty h.counted
  have hproduct := gives_mul hc is_zero hone
  rw [mul_zero] at hproduct
  have hquotient := gives_div hproduct.is_zero ht hpos
  rw [zero_div] at hquotient
  refine Is.unique ?_ is_zero
  unfold share
  rw [if_neg hw]
  exact hquotient.is_zero

theorem Countable.floorOf_le (hw : w ∈ weights) : floorOf weights w ≤ weights.length := by
  have hsum := h.worthOf_pos
  have hpart : worth w / worthOf weights ≤ 1 := (div_le_one hsum).2 (worth_le_worthOf hw)
  have hpart₀ : 0 ≤ worth w / worthOf weights := div_nonneg (worth_nonneg w) hsum.le
  have hpow : (1 : ℚ) ≤ (1 + 2 ^ (-24 : ℤ)) ^ weights.length := one_le_pow₀ (by norm_num)
  have hfactor : (1 - 2 ^ (-24 : ℤ)) ^ 2 / (1 + 2 ^ (-24 : ℤ)) ^ weights.length ≤ (1 : ℚ) :=
    (div_le_one (by positivity)).2 (le_trans (by norm_num) hpow)
  have hproduct : weights.length * (worth w / worthOf weights) *
      ((1 - 2 ^ (-24 : ℤ)) ^ 2 / (1 + 2 ^ (-24 : ℤ)) ^ weights.length) ≤ weights.length * 1 * 1 :=
    mul_le_mul (mul_le_mul_of_nonneg_left hpart (Nat.cast_nonneg _)) hfactor (by positivity)
      (by positivity)
  have hrest : (0 : ℚ) ≤ 2 ^ (-150 : ℤ) := by positivity
  unfold floorOf
  linarith

omit h in
theorem factor_ge (n : ℕ) : (1 : ℚ) - (n + 2) * 2 ^ (-24 : ℤ) ≤
    (1 - 2 ^ (-24 : ℤ)) ^ 2 / (1 + 2 ^ (-24 : ℤ)) ^ n := by
  have hbernoulli := one_add_mul_le_pow (show (-2 : ℚ) ≤ -2 ^ (-24 : ℤ) by norm_num) (n + 2)
  rw [le_div_iff₀ (by positivity)]
  calc ((1 : ℚ) - (n + 2) * 2 ^ (-24 : ℤ)) * (1 + 2 ^ (-24 : ℤ)) ^ n
      ≤ (1 - 2 ^ (-24 : ℤ)) ^ (n + 2) * (1 + 2 ^ (-24 : ℤ)) ^ n := by
        refine mul_le_mul_of_nonneg_right ?_ (by positivity)
        push_cast at hbernoulli
        rw [sub_eq_add_neg (1 : ℚ) (2 ^ (-24 : ℤ))]
        linarith
    _ = (1 - 2 ^ (-24 : ℤ)) ^ 2 * ((1 - 2 ^ (-24 : ℤ)) * (1 + 2 ^ (-24 : ℤ))) ^ n := by
        rw [pow_add, mul_pow]
        ring
    _ ≤ (1 - 2 ^ (-24 : ℤ)) ^ 2 * 1 :=
        mul_le_mul_of_nonneg_left (pow_le_one₀ (by norm_num) (by norm_num)) (by positivity)
    _ = (1 - 2 ^ (-24 : ℤ)) ^ 2 := mul_one _

/-- All shares together are not far below the number of the slots. -/
theorem Countable.sum_floorOf_ge :
    (weights.length : ℚ) * (1 - (weights.length + 2) * 2 ^ (-24 : ℤ) - 2 ^ (-150 : ℤ)) ≤
      (weights.map (floorOf weights)).sum := by
  have hsum := h.worthOf_pos
  have hlist : ∀ (l : List Float32) (c d : ℚ),
      (l.map fun w => c * (worth w / worthOf weights) * d - 2 ^ (-150 : ℤ)).sum =
        c * (worthOf l / worthOf weights) * d - l.length * 2 ^ (-150 : ℤ) := by
    intro l c d
    induction l with
    | nil => simp [worthOf]
    | cons w rest ih =>
      rw [List.map_cons, List.sum_cons, ih, worthOf_cons, List.length_cons]
      push_cast
      ring
  have hfactor := mul_le_mul_of_nonneg_left (factor_ge weights.length)
    (Nat.cast_nonneg (α := ℚ) weights.length)
  have htotal := hlist weights weights.length
    ((1 - 2 ^ (-24 : ℤ)) ^ 2 / (1 + 2 ^ (-24 : ℤ)) ^ weights.length)
  rw [div_self hsum.ne', mul_one] at htotal
  refine le_trans ?_ htotal.symm.le
  linarith

omit h

/-! ## What is left -/

/-- What rounding may take from a share in one round. -/
def slack (n : ℕ) : ℚ :=
  2 * (n + 1) * 2 ^ (-24 : ℤ)

theorem slack_nonneg (n : ℕ) : 0 ≤ slack n := by
  unfold slack
  positivity

/-- What is left of a share above one after a round is above zero, and not far below what it should
be. -/
theorem left_spec {n : ℕ} {high low : Float32} {p q v : ℚ} (hhigh : AtLeast high p)
    (hone : high > 1.0) (hlow : Is low v) (hq : q ≤ v) (hmost : p + q ≤ n + 1) :
    IsInfinite (high + low - 1.0) ∨ ∃ w, Is (high + low - 1.0) w ∧ 2 ^ (-25 : ℤ) < w ∧
      p + q - 1 - slack n ≤ w := by
  have hv := hlow.nonneg
  rcases hhigh with hinf | ⟨u, hu, hp⟩
  · exact .inl ((hinf.add (.inr hlow)).sub is_one)
  · have hu₁ := hu.ge_of_one_lt ((lt_iff is_one hu).1 hone)
    rcases (gives_add hu hlow).is_or_infinite with hinf | ⟨s, hs, hround⟩
    · exact .inl (hinf.sub is_one)
    · have herr := (abs_le.1 (hround.error_le_of_onGrid (hu.onGrid.add hlow.onGrid))).1
      norm_num at hu₁ herr
      have hs₁ : 1 ≤ s := by linarith
      refine (gives_sub hs is_one hs₁).is_or_infinite.imp id fun ⟨w, hw, hround'⟩ => ⟨w, hw, ?_⟩
      have hw₀ := hw.nonneg
      have herr' := (abs_le.1 (hround'.error_le (by linarith))).1
      have hn : (0 : ℚ) ≤ n := Nat.cast_nonneg n
      unfold slack
      norm_num at herr' ⊢
      constructor <;> linarith

/-- One minus a number up to one is not above one. -/
theorem one_sub_spec {a : Float32} {v : ℚ} (h : Is a v) (hv : v ≤ 1) :
    ∃ w, Is (1.0 - a) w ∧ w ≤ 1 ∧ Rounds (1 - v) w := by
  have hv₀ := h.nonneg
  obtain ⟨w, hw, hround⟩ := (gives_sub is_one h hv).is_of_lt (by linarith)
    (lt_of_le_of_lt (by linarith : 1 - v ≤ 1) (by norm_num))
  refine ⟨w, hw, not_lt.1 fun hgt => ?_, hround⟩
  have hfar := hw.ge_of_one_lt hgt
  have herr := (abs_le.1 (hround.error_le (by linarith))).2
  norm_num at hfar herr
  linarith

/-- What is not too small is not lost beside one. -/
theorem one_sub_lt {a : Float32} {v : ℚ} (h : Is a v) (hv : v ≤ 1) (hlow : 2 ^ (-25 : ℤ) < v) :
    ∃ w, Is (1.0 - a) w ∧ w < 1 := by
  obtain ⟨w, hw, -, hround⟩ := one_sub_spec h hv
  have hpos : (0 : ℚ) < 2 ^ (-25 : ℤ) := by positivity
  have herr := (abs_le.1 (hround.error_le_of_lt_one (by linarith))).2
  exact ⟨w, hw, by linarith⟩

/-- What is below one is below it by more than is lost. -/
theorem one_sub_gt {a : Float32} {v : ℚ} (h : Is a v) (hv : v < 1) :
    ∃ w, Is (1.0 - a) w ∧ w ≤ 1 ∧ 2 ^ (-25 : ℤ) < w := by
  obtain ⟨w, hw, hone, hround⟩ := one_sub_spec h hv.le
  have hgap := h.le_of_lt_one hv
  have herr := (abs_le.1 (hround.error_le (by linarith))).1
  refine ⟨w, hw, hone, ?_⟩
  norm_num at hgap herr ⊢
  linarith

end AliasTable

end Falsify
