import Falsify.Proofs.Random.Shares
import Falsify.Proofs.Random.Slots

/-!
# The balance of a table

The making of a table moves shares from one alternative to another, and rounding may take some of
them each time. A lower bound is kept for each alternative that waits, and what these bounds fall
short of one slot for each, with a slack for the rounding of its round, is a debt that does not grow
(`Draft.Backed`).

* `Backed.place`, `Backed.round`: what filing an alternative and a round keep;
* `Draft.backed_ofWeights`: the first draft, for any lower bounds of the shares.
-/

namespace Falsify

open Weight DrawM

namespace AliasTable

theorem perm_enqueue (i : Nat) (queue : List Nat) : (enqueue i queue).Perm (i :: queue) := by
  induction queue with
  | nil => exact .refl _
  | cons j rest ih =>
    unfold enqueue
    split
    · exact .refl _
    · exact (ih.cons j).trans (.swap i j rest)

namespace Draft

/-- How far the alternatives are above one slot for each, if they have at least what `floor`
says. -/
def balance (n : ℕ) (floor : Nat → ℚ) (queue : List Nat) : ℚ :=
  (queue.map fun i => floor i - 1 - slack n).sum

variable {n i j low high : Nat} {floor : Nat → ℚ} {debt : ℚ} {small large : List Nat} {d : Draft}

theorem balance_cons (n : ℕ) (floor : Nat → ℚ) (i : Nat) (queue : List Nat) :
    balance n floor (i :: queue) = floor i - 1 - slack n + balance n floor queue :=
  List.sum_cons

theorem balance_perm {queue queue' : List Nat} (h : queue.Perm queue') :
    balance n floor queue = balance n floor queue' :=
  (h.map _).sum_eq

theorem balance_congr {floor' : Nat → ℚ} {queue : List Nat} (h : ∀ i ∈ queue, floor i = floor' i) :
    balance n floor queue = balance n floor' queue := by
  unfold balance
  rw [List.map_congr_left fun i hi => by rw [h i hi]]

/-- What is known of the shares in a draft for `n` alternatives: at least what `floor` says is left
of each that waits, and they do not fall short of one slot for each by more than the debt. -/
structure Backed (n : ℕ) (floor : Nat → ℚ) (debt : ℚ) (d : Draft) : Prop where
  within : d.Within n
  nodup : d.waiting.Nodup
  most : ∀ i ∈ d.waiting, floor i ≤ n
  small : ∀ i ∈ d.small, ∃ v, Is (d.shareOf i) v ∧ floor i ≤ v ∧ v < 1
  large : ∀ i ∈ d.large, AtLeast (d.shareOf i) (floor i) ∧ d.shareOf i > 1.0
  balance : debt ≤ balance n floor d.waiting

/-! ## Filing -/

theorem waiting_addSmall : { d with small := enqueue i d.small }.waiting.Perm (i :: d.waiting) :=
  (perm_enqueue i d.small).append_right d.large

theorem waiting_addLarge : { d with large := enqueue i d.large }.waiting.Perm (i :: d.waiting) :=
  ((perm_enqueue i d.large).append_left d.small).trans List.perm_middle

theorem Backed.addSmall (h : Backed n floor debt d) (hi : i < n) (hnew : i ∉ d.waiting)
    (hmost : floor i ≤ n) (hshare : ∃ v, Is (d.shareOf i) v ∧ floor i ≤ v ∧ v < 1) :
    Backed n floor (debt + (floor i - 1 - slack n)) { d with small := enqueue i d.small } where
  within := h.within.addSmall hi
  nodup := waiting_addSmall.nodup_iff.2 (List.nodup_cons.2 ⟨hnew, h.nodup⟩)
  most j hj := (List.mem_cons.1 (waiting_addSmall.mem_iff.1 hj)).elim (· ▸ hmost) (h.most j)
  small j hj := (mem_enqueue.1 hj).elim (fun hj => hj ▸ hshare) (h.small j)
  large := h.large
  balance := by
    rw [balance_perm waiting_addSmall, balance_cons]
    linarith [h.balance]

theorem Backed.addLarge (h : Backed n floor debt d) (hi : i < n) (hnew : i ∉ d.waiting)
    (hmost : floor i ≤ n) (hshare : AtLeast (d.shareOf i) (floor i) ∧ d.shareOf i > 1.0) :
    Backed n floor (debt + (floor i - 1 - slack n)) { d with large := enqueue i d.large } where
  within := h.within.addLarge hi
  nodup := waiting_addLarge.nodup_iff.2 (List.nodup_cons.2 ⟨hnew, h.nodup⟩)
  most j hj := (List.mem_cons.1 (waiting_addLarge.mem_iff.1 hj)).elim (· ▸ hmost) (h.most j)
  small := h.small
  large j hj := (mem_enqueue.1 hj).elim (fun hj => hj ▸ hshare) (h.large j)
  balance := by
    rw [balance_perm waiting_addLarge, balance_cons]
    linarith [h.balance]

/-- A slot of its own is no less than an alternative is owed. -/
theorem Backed.addSlot {slot : AliasSlot} (h : Backed n floor debt d) (hs : slot.Below n)
    (hshare : floor i ≤ 1 + slack n) :
    Backed n floor (debt + (floor i - 1 - slack n)) { d with slots := d.slots ++ [slot] } where
  within := h.within.addSlot hs
  nodup := h.nodup
  most := h.most
  small := h.small
  large := h.large
  balance := by
    have := h.balance
    show debt + _ ≤ Draft.balance n floor d.waiting
    linarith

theorem le_one_of_not_gt {a : Float32} {v : ℚ} (h : AtLeast a v) (hone : ¬ a > 1.0) :
    ∃ w, Is a w ∧ v ≤ w ∧ w ≤ 1 := by
  rcases h with hinf | ⟨w, hw, hle⟩
  · exact absurd (hinf.gt is_one) hone
  · exact ⟨w, hw, hle, not_lt.1 fun hlt => hone ((lt_iff is_one hw).2 hlt)⟩

theorem Backed.refile (h : Backed n floor debt d) (hi : i < n) (hnew : i ∉ d.waiting)
    (hmost : floor i ≤ n) (hshare : AtLeast (d.shareOf i) (floor i)) :
    Backed n floor (debt + (floor i - 1 - slack n)) (d.refile i) := by
  unfold Draft.refile
  split
  · rename_i hlt
    rcases hshare with hinf | ⟨v, hv, hle⟩
    · exact absurd hlt (hinf.not_lt is_one)
    · exact h.addSmall hi hnew hmost ⟨v, hv, hle, (lt_iff hv is_one).1 hlt⟩
  · split
    · exact h.addLarge hi hnew hmost ⟨hshare, ‹_›⟩
    · obtain ⟨v, -, hle, hone⟩ := le_one_of_not_gt hshare ‹_›
      refine h.addSlot ⟨hi, hi⟩ ?_
      linarith [slack_nonneg n]

/-- A share that counts as one is not far above it. -/
theorem le_of_near_one {a : Float32} {v : ℚ} (h : AtLeast a v) (hnear : (a - 1.0).abs < tolerance) :
    v ≤ 1 + 2 ^ (-22 : ℤ) := by
  have htolerance : Is tolerance (2 ^ (-23 : ℤ)) := by
    have hparts : tolerance.toModel.unpack = .finite .positive (2 ^ 23) (-46) (by decide) := rfl
    have hvalue : (2 : ℚ) ^ (-23 : ℤ) = (2 ^ 23 : ℕ) * 2 ^ (-46 : ℤ) := by norm_num
    rw [Is, hparts, hvalue]
    exact .finite _ _ _ (by decide) (by decide) (.inr le_rfl)
  refine not_lt.1 fun hfar => ?_
  norm_num at hfar
  rcases h with hinf | ⟨w, hw, hle⟩
  · exact (hinf.sub is_one).abs.not_lt htolerance hnear
  · rcases (gives_sub hw is_one (by linarith)).is_or_infinite with hinf | ⟨s, hs, hround⟩
    · exact hinf.abs.not_lt htolerance hnear
    · rw [hs.abs_eq, lt_iff hs htolerance] at hnear
      have herr := (abs_le.1 (hround.error_le (by linarith))).1
      norm_num at hnear herr
      linarith

/-- One is near itself. -/
theorem lt_one_of_far {a : Float32} {v : ℚ} (h : AtLeast a v) (hone : ¬ a > 1.0)
    (hfar : ¬ (a - 1.0).abs < tolerance) : ∃ w, Is a w ∧ v ≤ w ∧ w < 1 := by
  obtain ⟨w, hw, hle, hmost⟩ := le_one_of_not_gt h hone
  refine ⟨w, hw, hle, lt_of_le_of_ne hmost ?_⟩
  rintro rfl
  rw [hw.unique is_one] at hfar
  exact absurd hfar (by decide +kernel)

theorem Backed.place (h : Backed n floor debt d) (hi : i < n) (hnew : i ∉ d.waiting)
    (hmost : floor i ≤ n) (hshare : AtLeast (d.shareOf i) (floor i)) :
    Backed n floor (debt + (floor i - 1 - slack n)) (d.place i) := by
  unfold Draft.place
  split
  · rename_i hnear
    refine h.addSlot ⟨hi, hi⟩ ((le_of_near_one hshare hnear).trans ?_)
    have hone : (1 : ℚ) ≤ n := by exact_mod_cast Nat.one_le_of_lt hi
    unfold slack
    norm_num
    linarith
  · split
    · exact h.addLarge hi hnew hmost ⟨hshare, ‹_›⟩
    · exact h.addSmall hi hnew hmost (lt_one_of_far hshare ‹_› ‹_›)

/-! ## Rounds -/

theorem waiting_eq (hs : d.small = low :: small) (hl : d.large = high :: large) :
    d.waiting.Perm (low :: high :: (d.paired low high small large).waiting) := by
  unfold waiting
  rw [hs, hl]
  exact List.Perm.cons low List.perm_middle

theorem shareOf_paired_self (h : high < d.shares.size) :
    (d.paired low high small large).shareOf high = d.shareOf high + d.shareOf low - 1.0 := by
  simp [shareOf, paired, pair, h]

theorem shareOf_paired_of_ne (h : i ≠ high) :
    (d.paired low high small large).shareOf i = d.shareOf i := by
  simp only [shareOf, paired, pair, Array.getD_eq_getD_getElem?]
  rw [Array.getElem?_setIfInBounds_ne (Ne.symm h)]

/-- The floor after a round: what one alternative lacks is taken from another one. -/
def passOn (n : ℕ) (floor : Nat → ℚ) (low high : Nat) : Nat → ℚ :=
  Function.update floor high (floor high + floor low - 1 - slack n)

theorem Backed.head_ne (h : Backed n floor debt d) (hs : d.small = low :: small)
    (hl : d.large = high :: large) : high ∉ (d.paired low high small large).waiting ∧
      (d.paired low high small large).waiting.Nodup := by
  have hnodup := (waiting_eq hs hl).nodup_iff.1 h.nodup
  rw [List.nodup_cons, List.nodup_cons] at hnodup
  exact hnodup.2

theorem Backed.paired (h : Backed n floor debt d) (hs : d.small = low :: small)
    (hl : d.large = high :: large) :
    Backed n (passOn n floor low high)
      (debt - (floor low - 1 - slack n) - (floor high - 1 - slack n))
      (d.paired low high small large) := by
  have hwaiting := waiting_eq hs hl
  obtain ⟨hhigh, hnodup⟩ := h.head_ne hs hl
  have hkeep : ∀ i ∈ (d.paired low high small large).waiting, i ≠ high :=
    fun i hi => ne_of_mem_of_not_mem hi hhigh
  have hfloor : ∀ i ∈ (d.paired low high small large).waiting,
      passOn n floor low high i = floor i := fun i hi => Function.update_of_ne (hkeep i hi) _ _
  refine ⟨h.within.paired hs hl, hnodup, fun i hi => ?_, fun i hi => ?_, fun i hi => ?_, ?_⟩
  · rw [hfloor i hi]
    exact h.most i (hwaiting.mem_iff.2 (List.mem_cons_of_mem _ (List.mem_cons_of_mem _ hi)))
  · have hi' := List.mem_append_left (d.paired low high small large).large hi
    rw [hfloor i hi', shareOf_paired_of_ne (hkeep i hi')]
    exact h.small i (hs ▸ List.mem_cons_of_mem _ hi)
  · have hi' := List.mem_append_right (d.paired low high small large).small hi
    rw [hfloor i hi', shareOf_paired_of_ne (hkeep i hi')]
    exact h.large i (hl ▸ List.mem_cons_of_mem _ hi)
  · have hbalance := h.balance
    rw [balance_perm hwaiting, balance_cons, balance_cons] at hbalance
    rw [balance_congr hfloor]
    linarith

/-- What is left of the share that was lowered. -/
theorem Backed.left (h : Backed n floor debt d) (hs : d.small = low :: small)
    (hl : d.large = high :: large) :
    floor high + floor low - 1 - slack n ≤ n ∧
      AtLeast ((d.paired low high small large).shareOf high)
        (floor high + floor low - 1 - slack n) := by
  obtain ⟨v, hv, hlow, hone⟩ := h.small low (hs ▸ List.mem_cons_self)
  obtain ⟨hshare, hgt⟩ := h.large high (hl ▸ List.mem_cons_self)
  have hmost := h.most high ((waiting_eq hs hl).mem_iff.2 (by simp))
  have hspec := left_spec hshare hgt hv hlow (by linarith : _ ≤ (n : ℚ) + 1)
  refine ⟨by linarith [slack_nonneg n], ?_⟩
  rw [shareOf_paired_self (h.within.shares ▸ h.within.head_large hl)]
  exact hspec.imp id fun ⟨w, hw, _, hle⟩ => ⟨w, hw, hle⟩

/-- A round moves what one alternative is owed to another one, and so it keeps the balance. -/
theorem Backed.round (h : Backed n floor debt d) (hs : d.small = low :: small)
    (hl : d.large = high :: large) :
    Backed n (passOn n floor low high) debt ((d.paired low high small large).refile high) := by
  obtain ⟨hmost, hleft⟩ := h.left hs hl
  have hself : passOn n floor low high high = floor high + floor low - 1 - slack n :=
    Function.update_self _ _ _
  rw [← hself] at hmost hleft
  have hfiled := (h.paired hs hl).refile (h.within.head_large hl) (h.head_ne hs hl).1 hmost hleft
  have hdebt : debt - (floor low - 1 - slack n) - (floor high - 1 - slack n) +
      (passOn n floor low high high - 1 - slack n) = debt := by
    rw [hself]
    ring
  rwa [hdebt] at hfiled

/-! ## The start -/

theorem shares_place (d : Draft) (i : Nat) : (d.place i).shares = d.shares := by
  unfold Draft.place
  split
  · rfl
  · split <;> rfl

theorem mem_waiting_place (h : j ∈ (d.place i).waiting) : j = i ∨ j ∈ d.waiting := by
  unfold Draft.place at h
  split at h
  · exact .inr h
  · split at h
    · exact List.mem_cons.1 (waiting_addLarge.mem_iff.1 h)
    · exact List.mem_cons.1 (waiting_addSmall.mem_iff.1 h)

theorem shareOf_start {weights : List Float32} {i : Nat} {small large : List Nat}
    {slots : List AliasSlot} (hi : i < weights.length) :
    shareOf ⟨(weights.map (share weights)).toArray, small, large, slots⟩ i =
      share weights weights[i] := by
  simp [shareOf, Array.getD_eq_getD_getElem?, hi]

/-- In the beginning all alternatives are filed by what they have. -/
theorem backed_ofWeights {weights : List Float32} {floor : Nat → ℚ}
    (hfloor : ∀ i (hi : i < weights.length), AtLeast (share weights weights[i]) (floor i) ∧
      floor i ≤ weights.length) :
    Backed weights.length floor (balance weights.length floor (List.range weights.length))
      (ofWeights weights) := by
  let filed (k : Nat) (d : Draft) : Prop :=
    Backed weights.length floor (balance weights.length floor (List.range k)) d ∧
      (∀ i ∈ d.waiting, i < k) ∧ d.shares = (weights.map (share weights)).toArray
  suffices hall : filed weights.length (ofWeights weights) from hall.1
  refine ofWeights_induction ?_ ?_
  · exact ⟨⟨⟨by simp, by simp, by simp, by simp⟩, by simp [waiting], by simp [waiting], by simp,
      by simp, by simp [waiting, balance]⟩, by simp [waiting], rfl⟩
  · rintro k d hk ⟨hbacked, hbelow, hshares⟩
    obtain ⟨hfirst, hmost⟩ := hfloor k hk
    have hshare : AtLeast (d.shareOf k) (floor k) := by
      obtain ⟨shares, small, large, slots⟩ := d
      cases hshares
      rwa [shareOf_start hk]
    have hplaced := hbacked.place hk (fun hin => Nat.lt_irrefl k (hbelow k hin)) hmost hshare
    refine ⟨?_, fun i hi => ?_, (shares_place d k).trans hshares⟩
    · have hrange : balance weights.length floor (List.range (k + 1)) =
          balance weights.length floor (List.range k) + (floor k - 1 - slack weights.length) := by
        rw [List.range_succ, balance_perm (List.perm_append_singleton k _), balance_cons, add_comm]
      rwa [hrange]
    · rcases mem_waiting_place hi with rfl | hi
      · exact Nat.lt_succ_self _
      · exact Nat.lt_succ_of_lt (hbelow i hi)

end Draft

end AliasTable

end Falsify
