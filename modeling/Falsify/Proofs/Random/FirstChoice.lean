import Falsify.Proofs.Random.Balance
import Falsify.Proofs.Source.Slices
import Falsify.Proofs.Source.Zeros

/-!
# Choices from draws of zero

The first slot of a table names the first alternative, and a draw of zero chooses the first
alternative of the slot unless its coin is certain. A first alternative that is small gets its slot
in the first round, and the coin is certain if the share is lost beside one. A first alternative
that is large gets its slots later, and what is left of it then is never lost
(`Draft.Leading.left`).

* `takes_sample_zero`: draws of zero choose from the first slot;
* `Draft.Settled`, `Draft.Leading`: what rounds keep when the first alternative has its slots, and
  while it waits with more than rounding can hide;
* `sorted_ofWeights`: the first draft;
* `lowestOf`, `leads_finish`: the alternative that draws of zero choose.
-/

namespace Falsify

open Weight DrawM

/-! ## Draws of zero -/

variable {d d' : Draw}

theorem takes_bits_zero (hd : d.value = 0) (width : UInt8) : Takes (Source.bits width) [d] 0 :=
  fun s ho => by
    refine ⟨_, [Draw.fit width d.value], ?_, .push s s.stream _, rfl⟩
    rw [Source.bits_of_room width ho.has_room, ho.nextWord]
    exact Prod.ext (congrArg Except.ok (hd ▸ Draw.fit_zero width)) rfl

theorem takes_uniform_zero (hd : d.value = 0) (most : UInt64) : Takes (uniform most) [d] 0 := by
  unfold uniform
  split
  · exact (takes_write 0 d).map rfl
  · rw [Source.drawUntil_eq_bind]
    rw [← List.append_nil [d]]
    refine (takes_bits_zero hd _).bind ?_
    rw [if_pos UInt64.zero_le]
    exact (Reads.pure 0).takes

/-- A draw of zero turns up only the coins that are certain. -/
theorem takes_coin_zero (hd : d.value = 0) (p : Float) :
    Takes (coin p) [d] (decide (¬ p ≤ 0.0 ∧ p ≥ 1.0)) := by
  unfold coin
  split
  · rename_i hzero
    rw [decide_eq_false fun h => h.1 hzero]
    exact (takes_write 0 d).map rfl
  · rename_i hpos
    split
    · rename_i hone
      rw [decide_eq_true ⟨hpos, hone⟩]
      exact (takes_write 1 d).map rfl
    · rename_i hproper
      rw [decide_eq_false fun h => hproper h.2]
      exact (takes_bits_zero hd 64).map (shows_zero p)

namespace AliasSlot

/-- What a draw of zero chooses from the slot. -/
def lowest (slot : AliasSlot) : Nat :=
  if ¬ slot.chance ≤ 0.0 ∧ slot.chance ≥ 1.0 then slot.alternate else slot.primary

variable {slot : AliasSlot} {i j : Nat}

theorem lowest_of_lt_one {v : ℚ} (h : Is slot.useAlternate v) (hv : v < 1) :
    slot.lowest = slot.primary :=
  if_neg fun hcertain => chance_lt_one h hv hcertain.2

theorem lowest_of_eq_one (h : slot.useAlternate = 1.0) : slot.lowest = slot.alternate := by
  have hcertain : ¬ (1.0 : Float) ≤ 0.0 ∧ (1.0 : Float) ≥ 1.0 := by decide +kernel
  unfold lowest
  rw [chance_of_one h, if_pos hcertain]

theorem lowest_single (i : Nat) : (single i).lowest = i :=
  lowest_of_lt_one is_zero one_pos

/-- The slot names the first alternative. -/
def NamesFirst (slot : AliasSlot) : Prop :=
  slot.primary = 0 ∨ slot.alternate = 0

/-- In the making of a table: if the slot names the first alternative, a draw of zero will choose
the given one from it. -/
def Leads (k : Nat) (slot : AliasSlot) : Prop :=
  slot.NamesFirst → slot.oriented.lowest = k

theorem leads_of_ne (h₁ : slot.primary ≠ 0) (h₂ : slot.alternate ≠ 0) (k : Nat) : slot.Leads k :=
  fun h => (h.elim h₁ h₂).elim

theorem leads_single (h : i ≠ 0) (k : Nat) : (single i).Leads k :=
  leads_of_ne h h k

theorem leads_single_zero : (single 0).Leads 0 := fun _ => lowest_single 0

theorem leads_zero_single (i : Nat) : (single i).Leads 0 := by
  rcases Nat.eq_zero_or_pos i with rfl | hpos
  · exact leads_single_zero
  · exact leads_single hpos.ne' 0

theorem oriented_of_le (h : slot.primary ≤ slot.alternate) : slot.oriented = slot :=
  if_neg (Nat.not_lt.2 h)

end AliasSlot

namespace AliasTable

/-- The first slot of a table names the first alternative. -/
theorem WellFormed.head_names {n : Nat} {table : AliasTable} (h : table.WellFormed n) (hn : 0 < n) :
    ∃ slot, table.slots[0]? = some slot ∧ slot.primary = 0 := by
  obtain ⟨named, hnamed, hzero⟩ := h.named 0 hn
  have hprimary : named.primary = 0 := hzero.elim id fun hzero =>
    Nat.le_zero.1 (hzero ▸ h.oriented named hnamed)
  rcases hslots : table.slots with _ | ⟨slot, rest⟩
  · rw [hslots] at hnamed
    cases hnamed
  · refine ⟨slot, rfl, ?_⟩
    have hordered := h.ordered
    rw [hslots] at hordered hnamed
    rcases List.mem_cons.1 hnamed with rfl | hnamed
    · exact hprimary
    · rcases (List.pairwise_cons.1 hordered).1 named hnamed with hlt | ⟨heq, -⟩
      · omega
      · exact heq.trans hprimary

theorem takes_sample_zero {table : AliasTable} {slot : AliasSlot} (hd : d.value = 0)
    (hd' : d'.value = 0) (hslot : table.slots[0]? = some slot) :
    Takes table.sample [d, d'] slot.lowest := by
  rw [← List.singleton_append]
  refine (takes_uniform_zero hd _).bind ?_
  have hfirst : table.slots[(0 : UInt64).toNat]? = some slot := hslot
  rw [hfirst]
  rw [← List.append_nil [d']]
  refine (takes_coin_zero hd' slot.chance).bind ?_
  by_cases hcertain : ¬ slot.chance ≤ 0.0 ∧ slot.chance ≥ 1.0
  · rw [decide_eq_true hcertain, AliasSlot.lowest, if_pos hcertain]
    exact (Reads.pure slot.alternate).takes
  · rw [decide_eq_false hcertain, AliasSlot.lowest, if_neg hcertain]
    exact (Reads.pure slot.primary).takes

namespace Draft

variable {n i k low high : Nat} {small large : List Nat} {e : Draft}

/-! ## When the first alternative has its slots -/

/-- The first alternative has its slots, and a draw of zero will choose the given alternative from
each of them. -/
structure Settled (k : Nat) (e : Draft) : Prop where
  gone : 0 ∉ e.waiting
  slots : ∀ slot ∈ e.slots, slot.Leads k

theorem mem_waiting_refile (h : i ∈ (e.refile k).waiting) : i = k ∨ i ∈ e.waiting := by
  unfold Draft.refile at h
  split at h
  · exact List.mem_cons.1 (waiting_addSmall.mem_iff.1 h)
  · split at h
    · exact List.mem_cons.1 (waiting_addLarge.mem_iff.1 h)
    · exact .inr h

theorem mem_slots_refile {slot : AliasSlot} (h : slot ∈ (e.refile i).slots) :
    slot = .single i ∨ slot ∈ e.slots := by
  unfold Draft.refile at h
  split at h
  · exact .inr h
  · split at h
    · exact .inr h
    · rcases List.mem_append.1 h with h | h
      · exact .inr h
      · exact .inl (List.mem_singleton.1 h)

theorem mem_slots_paired {slot : AliasSlot} (h : slot ∈ (e.paired low high small large).slots) :
    slot = ⟨low, high, 1.0 - e.shareOf low⟩ ∨ slot ∈ e.slots := by
  rcases List.mem_append.1 h with h | h
  · exact .inr h
  · exact .inl (List.mem_singleton.1 h)

theorem Settled.round (h : e.Settled k) (hs : e.small = low :: small)
    (hl : e.large = high :: large) :
    ((e.paired low high small large).refile high).Settled k := by
  have hwaiting := waiting_eq hs hl
  have hlow : low ≠ 0 := fun heq => h.gone (heq ▸ hwaiting.mem_iff.2 List.mem_cons_self)
  have hhigh : high ≠ 0 := fun heq => h.gone (heq ▸ hwaiting.mem_iff.2 (by simp))
  refine ⟨fun hzero => ?_, fun slot hslot => ?_⟩
  · rcases mem_waiting_refile hzero with heq | hzero
    · exact hhigh heq.symm
    · exact h.gone (hwaiting.mem_iff.2 (List.mem_cons_of_mem _ (List.mem_cons_of_mem _ hzero)))
  · rcases mem_slots_refile hslot with rfl | hslot
    · exact AliasSlot.leads_single hhigh k
    · rcases mem_slots_paired hslot with rfl | hslot
      · exact AliasSlot.leads_of_ne hlow hhigh k
      · exact h.slots slot hslot

theorem Settled.finish (h : e.Settled k) : ∀ slot ∈ e.finish, slot.Leads k := by
  obtain ⟨f, hsettled, -, hfinish⟩ := exists_rest (P := Settled k) h Settled.round
  intro slot hslot
  rcases (hfinish slot).1 hslot with hslot | ⟨i, hi, rfl⟩
  · exact hsettled.slots slot hslot
  · exact AliasSlot.leads_single (fun heq => hsettled.gone (heq ▸ hi)) k

/-! ## While the first alternative is large -/

theorem shareOf_refile (e : Draft) (j : Nat) : (e.refile j).shareOf i = e.shareOf i := by
  unfold Draft.refile
  split
  · rfl
  · split <;> rfl

theorem mem_small_refile (h : i ∈ (e.refile k).small) : i = k ∨ i ∈ e.small := by
  unfold Draft.refile at h
  split at h
  · exact mem_enqueue.1 h
  · split at h <;> exact .inr h

/-- What is left to the first alternative is not lost beside one, and a draw of zero will choose the
alternative from each of its slots. -/
structure Leading (n : ℕ) (e : Draft) : Prop where
  backed : ∃ floor debt, Backed n floor debt e
  left : 0 ∈ e.small → ∃ v, Is (e.shareOf 0) v ∧ 2 ^ (-25 : ℤ) < v
  slots : ∀ slot ∈ e.slots, slot.Leads 0

/-- From a slot that fills up a small alternative, a draw of zero chooses the first alternative
whether it is the small one or the other one. -/
theorem Leading.leads_pair (h : e.Leading n) (hs : e.small = low :: small)
    (hl : e.large = high :: large) : AliasSlot.Leads 0 ⟨low, high, 1.0 - e.shareOf low⟩ := by
  obtain ⟨⟨floor, debt, hbacked⟩, hleft, -⟩ := h
  have hlow : low ∈ e.small := hs ▸ List.mem_cons_self
  obtain ⟨v, hv, -, hone⟩ := hbacked.small low hlow
  rintro (hzero | hzero)
  · have hzero : low = 0 := hzero
    subst hzero
    obtain ⟨u, hu, hfar⟩ := hleft hlow
    obtain ⟨w, hw, hlt⟩ := one_sub_lt hu (hu.worth_eq ▸ hv.worth_eq ▸ hone.le) hfar
    rw [AliasSlot.oriented_of_le (Nat.zero_le high)]
    exact AliasSlot.lowest_of_lt_one hw hlt
  · have hzero : high = 0 := hzero
    subst hzero
    rcases Nat.eq_zero_or_pos low with rfl | hpos
    · have hnodup := (waiting_eq hs hl).nodup_iff.1 hbacked.nodup
      simp at hnodup
    · obtain ⟨w, hw, hmost, hfar⟩ := one_sub_gt hv hone
      obtain ⟨x, hx, hlt⟩ := one_sub_lt hw hmost hfar
      have horiented : AliasSlot.oriented ⟨low, 0, 1.0 - e.shareOf low⟩ =
          ⟨0, low, 1.0 - (1.0 - e.shareOf low)⟩ := if_pos hpos
      rw [horiented]
      exact AliasSlot.lowest_of_lt_one hx hlt

theorem Leading.round (h : e.Leading n) (hs : e.small = low :: small)
    (hl : e.large = high :: large) :
    ((e.paired low high small large).refile high).Leading n := by
  have hpair := h.leads_pair hs hl
  obtain ⟨⟨floor, debt, hbacked⟩, hleft, hslots⟩ := h
  have hround := hbacked.round hs hl
  refine ⟨⟨_, _, hround⟩, fun hzero => ?_, fun slot hslot => ?_⟩
  · by_cases hhigh : high = 0
    · subst hhigh
      obtain ⟨v, hv, -, -⟩ := hround.small 0 hzero
      refine ⟨v, hv, ?_⟩
      obtain ⟨u, hu, hlow, hone⟩ := hbacked.small low (hs ▸ List.mem_cons_self)
      obtain ⟨hshare, hgt⟩ := hbacked.large 0 (hl ▸ List.mem_cons_self)
      have hmost := hbacked.most 0 ((waiting_eq hs hl).mem_iff.2 (by simp))
      have hspec := left_spec hshare hgt hu hlow (by linarith : _ ≤ (n : ℚ) + 1)
      have hbelow := hbacked.within.shares ▸ hbacked.within.head_large hl
      rw [shareOf_refile, shareOf_paired_self hbelow] at hv
      rcases hspec with hinf | ⟨w, hw, hfar, -⟩
      · exact absurd hv hinf.not_is
      · rwa [← hv.worth_eq, hw.worth_eq]
    · have hsmall := (mem_small_refile hzero).resolve_left (Ne.symm hhigh)
      rw [shareOf_refile, shareOf_paired_of_ne (Ne.symm hhigh)]
      exact hleft (hs ▸ List.mem_cons_of_mem _ hsmall)
  · rcases mem_slots_refile hslot with rfl | hslot
    · exact AliasSlot.leads_zero_single high
    · rcases mem_slots_paired hslot with rfl | hslot
      · exact hpair
      · exact hslots slot hslot

theorem Leading.finish (h : e.Leading n) : ∀ slot ∈ e.finish, slot.Leads 0 := by
  obtain ⟨f, hleading, -, hfinish⟩ := exists_rest (P := Leading n) h Leading.round
  intro slot hslot
  rcases (hfinish slot).1 hslot with hslot | ⟨i, -, rfl⟩
  · exact hleading.slots slot hslot
  · exact AliasSlot.leads_zero_single i

end Draft

/-! ## The first draft -/

/-- The share counts as one slot's worth. -/
def NearOne (a : Float32) : Prop :=
  (a - 1.0).abs < tolerance

/-- The share counts as more than one slot's worth. -/
def Large (a : Float32) : Prop :=
  ¬ NearOne a ∧ a > 1.0

/-- The share counts as less than one slot's worth. -/
def Small (a : Float32) : Prop :=
  ¬ NearOne a ∧ ¬ a > 1.0

instance (a : Float32) : Decidable (NearOne a) :=
  inferInstanceAs (Decidable (_ < _))

instance (a : Float32) : Decidable (Large a) :=
  inferInstanceAs (Decidable (_ ∧ _))

instance (a : Float32) : Decidable (Small a) :=
  inferInstanceAs (Decidable (_ ∧ _))

theorem enqueue_of_lt {i : Nat} {queue : List Nat} (h : ∀ j ∈ queue, j < i) :
    enqueue i queue = queue ++ [i] := by
  induction queue with
  | nil => rfl
  | cons j rest ih =>
    obtain ⟨hj, hrest⟩ := List.forall_mem_cons.1 h
    rw [enqueue, if_neg (Nat.not_le.2 hj), ih hrest, List.cons_append]

/-- The share of the alternative at a position. -/
def shareAt (weights : List Float32) (i : Nat) : Float32 :=
  share weights (weights.getD i 0.0)

/-- The first draft files each alternative by its share, and keeps them in order. -/
structure Draft.Sorted (weights : List Float32) (k : Nat) (e : Draft) : Prop where
  shares : e.shares = (weights.map (share weights)).toArray
  small : e.small = (List.range k).filter fun i => Small (shareAt weights i)
  large : e.large = (List.range k).filter fun i => Large (shareAt weights i)
  slots : ∀ slot ∈ e.slots, ∃ i, NearOne (shareAt weights i) ∧ slot = .single i

theorem Draft.Sorted.shareOf_eq {weights : List Float32} {k i : Nat} {e : Draft}
    (h : e.Sorted weights k) (hi : i < weights.length) : e.shareOf i = shareAt weights i := by
  obtain ⟨shares, small, large, slots⟩ := e
  cases h.shares
  rw [Draft.shareOf_start hi, shareAt, List.getD_eq_getElem _ _ hi]

theorem enqueue_filter_range (k : Nat) (p : Nat → Bool) (h : p k = true) :
    enqueue k ((List.range k).filter p) = (List.range (k + 1)).filter p := by
  rw [enqueue_of_lt fun j hj => List.mem_range.1 (List.mem_of_mem_filter hj), List.range_succ,
    List.filter_append, List.filter_singleton, h]
  rfl

theorem filter_range_succ (k : Nat) (p : Nat → Bool) (h : p k = false) :
    (List.range k).filter p = (List.range (k + 1)).filter p := by
  rw [List.range_succ, List.filter_append, List.filter_singleton, h]
  simp

theorem sorted_ofWeights (weights : List Float32) :
    (Draft.ofWeights weights).Sorted weights weights.length := by
  refine Draft.ofWeights_induction ⟨rfl, rfl, rfl, by simp⟩ fun k e hk h => ?_
  have hshare := h.shareOf_eq hk
  unfold Draft.place
  rw [hshare]
  split
  · rename_i hnear
    refine ⟨h.shares, ?_, ?_, fun slot hslot => ?_⟩
    · rw [h.small]
      exact filter_range_succ k _ (decide_eq_false fun hs => hs.1 hnear)
    · rw [h.large]
      exact filter_range_succ k _ (decide_eq_false fun hs => hs.1 hnear)
    · rcases List.mem_append.1 hslot with hslot | hslot
      · exact h.slots slot hslot
      · exact ⟨k, hnear, List.mem_singleton.1 hslot⟩
  · rename_i hfar
    split
    · rename_i hgt
      refine ⟨h.shares, ?_, ?_, h.slots⟩
      · rw [h.small]
        exact filter_range_succ k _ (decide_eq_false fun hs => hs.2 hgt)
      · rw [h.large]
        exact enqueue_filter_range k _ (decide_eq_true ⟨hfar, hgt⟩)
    · rename_i hle
      refine ⟨h.shares, ?_, ?_, h.slots⟩
      · rw [h.small]
        exact enqueue_filter_range k _ (decide_eq_true ⟨hfar, hle⟩)
      · rw [h.large]
        exact filter_range_succ k _ (decide_eq_false fun hs => hle hs.2)

/-- What draws of zero choose among weights: the first alternative, unless it has less than one
slot's worth and what it has is lost beside one. Then it is the first alternative with more than
one slot's worth. -/
def lowestOf (weights : List Float32) : Nat :=
  if Small (shareAt weights 0) ∧ 1.0 ≤ 1.0 - shareAt weights 0 then
    ((List.range weights.length).find? fun i => Large (shareAt weights i)).getD 0
  else 0

theorem lowestOf_of_not_small {weights : List Float32} (h : ¬ Small (shareAt weights 0)) :
    lowestOf weights = 0 :=
  if_neg fun hlost => h hlost.1

variable {weights : List Float32} {e : Draft} {high : Nat} {small large : List Nat}

theorem Draft.Sorted.leads_zero {k : Nat} (h : e.Sorted weights k) :
    ∀ slot ∈ e.slots, slot.Leads 0 := by
  intro slot hslot
  obtain ⟨i, -, rfl⟩ := h.slots slot hslot
  exact AliasSlot.leads_zero_single i

/-- Where no alternative is large, each one has a slot of its own. -/
theorem Draft.Sorted.leads_of_large_eq_nil {k : Nat} (h : e.Sorted weights k) (hl : e.large = []) :
    ∀ slot ∈ e.finish, slot.Leads 0 := by
  intro slot hslot
  rcases (Draft.mem_finish_rest (.inr hl)).1 hslot with hslot | ⟨i, -, rfl⟩
  · exact h.leads_zero slot hslot
  · exact AliasSlot.leads_zero_single i

/-- The alternative that `lowestOf` falls back on is the first large one. -/
theorem Draft.Sorted.find?_eq (h : e.Sorted weights weights.length) :
    ((List.range weights.length).find? fun i => Large (shareAt weights i)) = e.large.head? := by
  rw [h.large, List.head?_filter]

/-- The slot that fills up the first alternative from the first large one. -/
theorem leads_first_pair {floor : Nat → ℚ} {debt : ℚ} {n : ℕ} (h : e.Sorted weights weights.length)
    (hbacked : Draft.Backed n floor debt e) (hn : 0 < weights.length)
    (hs : e.small = 0 :: small) (hl : e.large = high :: large) :
    AliasSlot.Leads (lowestOf weights) ⟨0, high, 1.0 - e.shareOf 0⟩ := by
  intro _
  rw [AliasSlot.oriented_of_le (Nat.zero_le high)]
  have hzero : 0 ∈ e.small := hs ▸ List.mem_cons_self
  obtain ⟨v, hv, -, hone⟩ := hbacked.small 0 hzero
  obtain ⟨w, hw, hmost, -⟩ := one_sub_spec hv hone.le
  have hsmall : Small (shareAt weights 0) := by
    rw [h.small] at hzero
    exact of_decide_eq_true (List.mem_filter.1 hzero).2
  rw [h.shareOf_eq hn] at hw ⊢
  have hlost : 1.0 ≤ 1.0 - shareAt weights 0 ↔ 1 ≤ w := Weight.le_iff is_one hw
  unfold lowestOf
  rw [h.find?_eq, hl]
  rcases hmost.lt_or_eq with hlt | rfl
  · have hkept : ¬ (Small (shareAt weights 0) ∧ 1.0 ≤ 1.0 - shareAt weights 0) :=
      fun hboth => not_le.2 hlt (hlost.1 hboth.2)
    rw [if_neg hkept]
    exact AliasSlot.lowest_of_lt_one hw hlt
  · have hboth : Small (shareAt weights 0) ∧ 1.0 ≤ 1.0 - shareAt weights 0 :=
      ⟨hsmall, hlost.2 le_rfl⟩
    rw [if_pos hboth]
    exact AliasSlot.lowest_of_eq_one (hw.unique is_one)

/-- A first alternative that is small has one slot, of its own or with the first large one. -/
theorem leads_finish_small {floor : Nat → ℚ} {debt : ℚ} {n : ℕ}
    (h : e.Sorted weights weights.length) (hbacked : Draft.Backed n floor debt e)
    (hn : 0 < weights.length) (hs : e.small = 0 :: small) :
    ∀ slot ∈ e.finish, slot.Leads (lowestOf weights) := by
  rcases hl : e.large with _ | ⟨high, large⟩
  · have hlowest : lowestOf weights = 0 := by
      unfold lowestOf
      rw [h.find?_eq, hl]
      exact ite_self 0
    rw [hlowest]
    exact h.leads_of_large_eq_nil hl
  · have hpair := leads_first_pair h hbacked hn hs hl
    have hnodup := (Draft.waiting_eq hs hl).nodup_iff.1 hbacked.nodup
    rw [List.nodup_cons, List.mem_cons, not_or] at hnodup
    obtain ⟨⟨hne, hgone⟩, -⟩ := hnodup
    rw [Draft.finish_round hs hl]
    refine Draft.Settled.finish ⟨fun hzero => ?_, fun slot hslot => ?_⟩
    · exact (Draft.mem_waiting_refile hzero).elim hne hgone
    · rcases Draft.mem_slots_refile hslot with rfl | hslot
      · exact AliasSlot.leads_single (Ne.symm hne) _
      · rcases Draft.mem_slots_paired hslot with rfl | hslot
        · exact hpair
        · obtain ⟨i, hnear, rfl⟩ := h.slots slot hslot
          refine AliasSlot.leads_single (fun heq => ?_) _
          have hzero : 0 ∈ e.small := hs ▸ List.mem_cons_self
          rw [h.small] at hzero
          have hsmall : Small (shareAt weights 0) := of_decide_eq_true (List.mem_filter.1 hzero).2
          exact hsmall.1 (heq ▸ hnear)

/-- A draw of zero chooses the same alternative from every slot that names the first one: by how
much that is worth. -/
theorem leads_finish (h : Countable weights) :
    ∀ slot ∈ (Draft.ofWeights weights).finish, slot.Leads (lowestOf weights) := by
  have hsorted := sorted_ofWeights weights
  have hfloor : ∀ i (hi : i < weights.length),
      AtLeast (share weights weights[i]) 0 ∧ (0 : ℚ) ≤ weights.length := fun i hi =>
    ⟨h.atLeast_zero (List.getElem_mem hi), Nat.cast_nonneg _⟩
  have hbacked := Draft.backed_ofWeights hfloor
  generalize Draft.ofWeights weights = e at hsorted hbacked
  by_cases hsmall : Small (shareAt weights 0)
  · have hrange : List.range weights.length =
        0 :: (List.range (weights.length - 1)).map Nat.succ := by
      rw [← List.range_succ_eq_map, Nat.sub_add_cancel h.nonempty]
    have hs := hsorted.small
    rw [hrange] at hs
    exact leads_finish_small hsorted hbacked h.nonempty
      (hs.trans (List.filter_cons_of_pos (decide_eq_true hsmall)))
  · have hnot : 0 ∉ e.small := fun hzero => by
      rw [hsorted.small] at hzero
      exact hsmall (of_decide_eq_true (List.mem_filter.1 hzero).2)
    rw [lowestOf_of_not_small hsmall]
    exact Draft.Leading.finish
      ⟨⟨_, _, hbacked⟩, fun hzero => absurd hzero hnot, hsorted.leads_zero⟩

/-- Draws of zero choose what all the slots lead to that name the first alternative. -/
theorem takes_sample_of_leads {table : AliasTable} {k : Nat} (h : ofWeights? weights = some table)
    (hn : 0 < weights.length) (hleads : ∀ slot ∈ (Draft.ofWeights weights).finish, slot.Leads k)
    (hd : d.value = 0) (hd' : d'.value = 0) : Takes table.sample [d, d'] k := by
  obtain ⟨slot, hslot, hprimary⟩ := (wellFormed_of_ofWeights? h).head_names hn
  obtain ⟨made, hmade, rfl⟩ := (mem_slots_of_ofWeights? h).1 (List.mem_of_getElem? hslot)
  have hnames : made.NamesFirst := AliasSlot.names_oriented.1 (.inl hprimary)
  rw [← hleads made hmade hnames]
  exact takes_sample_zero hd hd' hslot

theorem shareAt_of_not_pos {i : Nat} (h : Countable weights) (hi : i < weights.length)
    (hw : ¬ weights[i] > 0.0) : shareAt weights i = 0.0 := by
  rw [shareAt, List.getD_eq_getElem _ _ hi]
  exact h.share_of_not_pos hw

theorem not_large_zero : ¬ Large 0.0 := by decide +kernel

/-- The first alternative with weight is chosen if it is the first one of all and what it has is not
lost, and if it has more than one slot's worth. -/
theorem lowestOf_eq {i : Nat} (h : Countable weights)
    (hfirst : weights.findIdx? (fun w => decide (w > 0.0)) = some i)
    (hkept : i = 0 ∧ ¬ 1.0 ≤ 1.0 - shareAt weights 0 ∨ Large (shareAt weights i)) :
    lowestOf weights = i := by
  obtain ⟨hi, -, hbefore⟩ := List.findIdx?_eq_some_iff_getElem.1 hfirst
  have hzero : ∀ j < i, shareAt weights j = 0.0 := fun j hj =>
    shareAt_of_not_pos h (Nat.lt_trans hj hi) (by simpa using hbefore j hj)
  rcases Nat.eq_zero_or_pos i with rfl | hpos
  · refine if_neg fun hlost => ?_
    rcases hkept with ⟨-, hkept⟩ | hlarge
    · exact hkept hlost.2
    · exact hlost.1.2 hlarge.2
  · have hlarge := hkept.resolve_left fun hfirst => hpos.ne' hfirst.1
    have hlost : Small (shareAt weights 0) ∧ 1.0 ≤ 1.0 - shareAt weights 0 := by
      rw [hzero 0 hpos]
      decide +kernel
    have hfound :
        ((List.range weights.length).find? fun j => Large (shareAt weights j)) = some i := by
      rw [List.find?_range_eq_some]
      refine ⟨decide_eq_true hlarge, List.mem_range.2 hi, fun j hj => ?_⟩
      rw [hzero j hj]
      simpa using not_large_zero
    unfold lowestOf
    rw [if_pos hlost, hfound]
    rfl

end AliasTable

end Falsify
