import Falsify.Random.Alias

/-!
# Tables of aliases

Whatever the weights are, numbers or not, a table of `n` weights has `n` slots, and its slots name
alternatives below `n` (`among_of_ofWeights?`). Both are kept by every step of its making,
which only moves alternatives between the queues and the slots:

* `Draft.Within`: what is known of a draft, with a lemma for each step;
* `Draft.length_finish`, `Draft.Within.finish`: the pairing, by induction on the
  alternatives in the queues.
-/

namespace Falsify

theorem AliasTable.mem_enqueue {i j : Nat} {queue : List Nat} :
    j ∈ enqueue i queue ↔ j = i ∨ j ∈ queue := by
  induction queue with
  | nil => simp [enqueue]
  | cons k rest ih =>
    unfold enqueue
    split <;> simp [ih, or_left_comm]

/-- The slot names alternatives below `n`. -/
def AliasSlot.Below (n : Nat) (slot : AliasSlot) : Prop :=
  slot.primary < n ∧ slot.alternate < n

theorem AliasSlot.Below.oriented {n : Nat} {slot : AliasSlot} (h : slot.Below n) :
    slot.oriented.Below n := by
  unfold AliasSlot.oriented
  split
  · exact ⟨h.2, h.1⟩
  · exact h

namespace AliasTable.Draft

/-- A draft of a table for `n` alternatives. -/
structure Within (n : Nat) (d : Draft) : Prop where
  shares : d.shares.size = n
  small : ∀ i ∈ d.small, i < n
  large : ∀ i ∈ d.large, i < n
  slots : ∀ slot ∈ d.slots, slot.Below n

/-- How many slots a draft makes. -/
def total (d : Draft) : Nat :=
  d.slots.length + d.small.length + d.large.length

variable {n i low high : Nat} {small large : List Nat} {d : Draft}

/-! ## Steps -/

theorem Within.addSmall (h : d.Within n) (hi : i < n) :
    { d with small := enqueue i d.small }.Within n :=
  ⟨h.shares, fun j hj => (mem_enqueue.1 hj).elim (· ▸ hi) (h.small j), h.large, h.slots⟩

theorem Within.addLarge (h : d.Within n) (hi : i < n) :
    { d with large := enqueue i d.large }.Within n :=
  ⟨h.shares, h.small, fun j hj => (mem_enqueue.1 hj).elim (· ▸ hi) (h.large j), h.slots⟩

theorem Within.addSlot {slot : AliasSlot} (h : d.Within n) (hs : slot.Below n) :
    { d with slots := d.slots ++ [slot] }.Within n := by
  refine ⟨h.shares, h.small, h.large, fun t ht => ?_⟩
  rcases List.mem_append.1 ht with ht | ht
  · exact h.slots t ht
  · cases List.mem_singleton.1 ht
    exact hs

theorem Within.place (h : d.Within n) (hi : i < n) : (d.place i).Within n := by
  unfold Draft.place
  split
  · exact h.addSlot ⟨hi, hi⟩
  · split
    · exact h.addLarge hi
    · exact h.addSmall hi

theorem total_place (d : Draft) (i : Nat) : (d.place i).total = d.total + 1 := by
  unfold Draft.place total
  split
  · simp only [List.length_append, List.length_singleton]
    omega
  · split <;> simp only [length_enqueue] <;> omega

/-- The draft when the first two alternatives have left their queues for a slot. -/
def paired (d : Draft) (low high : Nat) (small large : List Nat) : Draft :=
  { d.pair low high with small := small, large := large }

/-- Files an alternative again by what is left of its share. -/
def refile (d : Draft) (i : Nat) : Draft :=
  if d.shareOf i < (1.0 : Float32) then { d with small := enqueue i d.small }
  else if d.shareOf i > (1.0 : Float32) then { d with large := enqueue i d.large }
  else { d with slots := d.slots ++ [.single i] }

theorem Within.refile (h : d.Within n) (hi : i < n) : (d.refile i).Within n := by
  unfold Draft.refile
  split
  · exact h.addSmall hi
  · split
    · exact h.addLarge hi
    · exact h.addSlot ⟨hi, hi⟩

theorem total_refile (d : Draft) (i : Nat) : (d.refile i).total = d.total + 1 := by
  unfold Draft.refile total
  split
  · simp only [length_enqueue]
    omega
  · split <;> simp only [length_enqueue, List.length_append, List.length_singleton] <;> omega

theorem Within.head_small (h : d.Within n) (hs : d.small = low :: small) : low < n :=
  h.small low (hs ▸ List.mem_cons_self)

theorem Within.head_large (h : d.Within n) (hl : d.large = high :: large) : high < n :=
  h.large high (hl ▸ List.mem_cons_self)

theorem Within.paired (h : d.Within n) (hs : d.small = low :: small)
    (hl : d.large = high :: large) : (d.paired low high small large).Within n where
  shares := by simpa [Draft.paired, Draft.pair] using h.shares
  small i hi := h.small i (hs ▸ List.mem_cons_of_mem _ hi)
  large i hi := h.large i (hl ▸ List.mem_cons_of_mem _ hi)
  slots := by
    have hslot : AliasSlot.Below n ⟨low, high, 1.0 - d.shareOf low⟩ :=
      ⟨h.head_small hs, h.head_large hl⟩
    exact (h.addSlot hslot).slots

theorem total_paired (hs : d.small = low :: small) (hl : d.large = high :: large) :
    (d.paired low high small large).total + 1 = d.total := by
  simp only [total, paired, pair, hs, hl, List.length_append, List.length_cons, List.length_nil]
  omega

/-- A round leaves fewer alternatives in the queues. -/
theorem length_round (hs : d.small = low :: small) (hl : d.large = high :: large) :
    ((d.paired low high small large).refile high).small.length +
        ((d.paired low high small large).refile high).large.length <
      d.small.length + d.large.length := by
  simp only [hs, hl, List.length_cons]
  unfold refile
  split
  · simp only [length_enqueue, paired]
    omega
  · split <;> simp only [length_enqueue, paired] <;> omega

theorem finish_round (hs : d.small = low :: small) (hl : d.large = high :: large) :
    d.finish = ((d.paired low high small large).refile high).finish := by
  rw [finish]
  split
  · rename_i hs' hl'
    cases hs'.symm.trans hs
    cases hl'.symm.trans hl
    unfold refile
    split
    · exact if_pos ‹_›
    · split
      · exact (if_neg ‹_›).trans (if_pos ‹_›)
      · exact (if_neg ‹_›).trans (if_neg ‹_›)
  · rename_i hne
    exact (hne _ _ _ _ hs hl).elim

theorem finish_rest (h : d.small = [] ∨ d.large = []) :
    d.finish = d.slots ++ d.small.map .single ++ d.large.map .single := by
  rw [finish]
  split
  · rename_i hs hl
    simp [hs, hl] at h
  · rfl

/-- What a round hands back to a draft, and what holds of drafts with an empty queue, holds of every
draft: by induction on the alternatives in the queues. -/
theorem round_induction {motive : Draft → Prop}
    (step : ∀ d low high small large, d.small = low :: small → d.large = high :: large →
      motive ((d.paired low high small large).refile high) → motive d)
    (rest : ∀ d, d.small = [] ∨ d.large = [] → motive d) (d : Draft) : motive d := by
  induction hn : d.small.length + d.large.length using Nat.strongRecOn generalizing d with
  | _ n ih =>
    rcases hs : d.small with _ | ⟨low, small⟩
    · exact rest d (.inl hs)
    · rcases hl : d.large with _ | ⟨high, large⟩
      · exact rest d (.inr hl)
      · exact step d _ _ _ _ hs hl (ih _ (hn ▸ length_round hs hl) _ rfl)

/-! ## The whole making -/

theorem ofWeights_within (weights : List Float32) :
    (ofWeights weights).Within weights.length ∧ (ofWeights weights).total = weights.length := by
  have hfold : ∀ (l : List Nat) (d : Draft), (∀ i ∈ l, i < weights.length) →
      d.Within weights.length →
      (l.foldl place d).Within weights.length ∧ (l.foldl place d).total = d.total + l.length := by
    intro l
    induction l with
    | nil => exact fun d _ h => ⟨h, rfl⟩
    | cons i rest ih =>
      intro d hl h
      obtain ⟨h₁, h₂⟩ := ih (d.place i) (fun j hj => hl j (List.mem_cons_of_mem _ hj))
        (h.place (hl i List.mem_cons_self))
      refine ⟨h₁, ?_⟩
      rw [List.foldl_cons, h₂, total_place, List.length_cons]
      omega
  have h := hfold (List.range weights.length)
    ⟨(weights.map (share weights)).toArray, [], [], []⟩ (fun i hi => List.mem_range.1 hi)
    ⟨by simp, by simp, by simp, by simp⟩
  rw [List.length_range] at h
  exact ⟨h.1, h.2.trans (by simp [total])⟩

theorem length_finish (d : Draft) : d.finish.length = d.total := by
  induction d using round_induction with
  | step d _ _ _ _ hs hl ih => rw [finish_round hs hl, ih, total_refile, total_paired hs hl]
  | rest d h =>
    rw [finish_rest h]
    simp only [List.length_append, List.length_map, total]

theorem Within.finish (h : d.Within n) : ∀ slot ∈ d.finish, slot.Below n := by
  induction d using round_induction with
  | step d _ _ _ _ hs hl ih =>
    rw [finish_round hs hl]
    exact ih ((h.paired hs hl).refile (h.head_large hl))
  | rest d hempty =>
    intro slot hslot
    rw [finish_rest hempty] at hslot
    simp only [List.mem_append, List.mem_map] at hslot
    rcases hslot with (hslot | ⟨i, hi, rfl⟩) | ⟨i, hi, rfl⟩
    · exact h.slots slot hslot
    · exact ⟨h.small i hi, h.small i hi⟩
    · exact ⟨h.large i hi, h.large i hi⟩

end Draft

/-- A table that chooses among `n` alternatives: it has a slot, and its slots name alternatives. -/
structure Among (n : Nat) (table : AliasTable) : Prop where
  nonempty : 0 < table.slots.length
  below : ∀ slot ∈ table.slots, slot.Below n

/-- The table of a list of weights has one slot for each, and chooses among them. -/
theorem among_of_ofWeights? {weights : List Float32} {table : AliasTable}
    (h : ofWeights? weights = some table) :
    table.slots.length = weights.length ∧ table.Among weights.length := by
  unfold ofWeights? at h
  split at h
  · cases h
  · rename_i hne
    obtain ⟨hw, ht⟩ := Draft.ofWeights_within weights
    cases h
    have hlength : (((Draft.ofWeights weights).finish.map AliasSlot.oriented).mergeSort
        AliasSlot.le).length = weights.length := by
      rw [List.length_mergeSort, List.length_map, Draft.length_finish, ht]
    refine ⟨hlength, ?_, fun slot hslot => ?_⟩
    · rw [hlength]
      exact List.length_pos_iff.2 fun h => by simp [h] at hne
    · obtain ⟨slot', hs', rfl⟩ := List.mem_map.1 (List.mem_mergeSort.1 hslot)
      exact (hw.finish slot' hs').oriented

end AliasTable

end Falsify
