import Falsify.Proofs.Random.Checked
import Falsify.Proofs.Random.Weights

/-!
# The shape of a table

A table is well-formed whatever the weights are, because nothing that is said of its shape depends
on how their shares compare: a comparison only decides in which queue an alternative waits. In each
round two alternatives leave the queues for a slot that names both of them, so that every
alternative waits in a queue or has a slot (`Draft.Keeps`).

* `Draft.exists_rest`, `Draft.ofWeights_induction`: the two loops of the making, for any property
  of drafts that their steps keep;
* `AliasTable.WellFormed`: the shape;
* `DrawM.Budgeted`: choices stop only because of the budget of the source;
* `AliasTable.wellFormed_or_none`: the theorem.
-/

namespace Falsify

open DrawM

namespace AliasTable.Draft

/-- The alternatives that wait. -/
def waiting (d : Draft) : List Nat :=
  d.small ++ d.large

/-- When a queue is empty, the alternatives that wait get slots of their own. -/
theorem mem_finish_rest {d : Draft} {slot : AliasSlot} (h : d.small = [] ∨ d.large = []) :
    slot ∈ d.finish ↔ slot ∈ d.slots ∨ ∃ i ∈ d.waiting, slot = .single i := by
  rw [finish_rest h, List.append_assoc, ← List.map_append, List.mem_append, List.mem_map]
  simp only [waiting, eq_comm]

/-- What the rounds keep still holds when a queue is empty: by induction on the rounds. -/
theorem exists_rest {P : Draft → Prop} {d : Draft} (h : P d)
    (round : ∀ {d low high small large}, P d → d.small = low :: small → d.large = high :: large →
      P ((d.paired low high small large).refile high)) :
    ∃ e, P e ∧ (e.small = [] ∨ e.large = []) ∧
      ∀ slot, slot ∈ d.finish ↔ slot ∈ e.slots ∨ ∃ i ∈ e.waiting, slot = .single i := by
  induction d using round_induction with
  | step d _ _ _ _ hs hl ih =>
    rw [finish_round hs hl]
    exact ih (round h hs hl)
  | rest d hempty => exact ⟨d, h, hempty, fun _ => mem_finish_rest hempty⟩

/-- The first draft files the alternatives one by one. -/
theorem ofWeights_induction {weights : List Float32} {P : Nat → Draft → Prop}
    (start : P 0 ⟨(weights.map (share weights)).toArray, [], [], []⟩)
    (place : ∀ k d, k < weights.length → P k d → P (k + 1) (d.place k)) :
    P weights.length (ofWeights weights) := by
  have hfold : ∀ k ≤ weights.length, P k ((List.range k).foldl Draft.place
      ⟨(weights.map (share weights)).toArray, [], [], []⟩) := by
    intro k
    induction k with
    | zero => exact fun _ => start
    | succ k ih =>
      intro hk
      rw [List.range_succ, List.foldl_append]
      exact place k _ hk (ih (Nat.le_of_succ_le hk))
  exact hfold _ (Nat.le_refl _)

/-- The alternative waits in a queue or has a slot. -/
def Keeps (d : Draft) (i : Nat) : Prop :=
  i ∈ d.small ∨ i ∈ d.large ∨ ∃ slot ∈ d.slots, slot.primary = i ∨ slot.alternate = i

variable {d : Draft} {i j low high : Nat} {small large : List Nat}

theorem exists_slot_concat {slots : List AliasSlot} :
    (∃ slot ∈ slots ++ [.single j], slot.primary = i ∨ slot.alternate = i) ↔
      i = j ∨ ∃ slot ∈ slots, slot.primary = i ∨ slot.alternate = i := by
  simp only [List.mem_append, List.mem_singleton, or_and_right, exists_or, exists_eq_left,
    AliasSlot.single, or_self, eq_comm (a := j)]
  exact or_comm

theorem keeps_place : (d.place j).Keeps i ↔ i = j ∨ d.Keeps i := by
  unfold Draft.place Keeps
  split
  · simp only [exists_slot_concat, or_left_comm (b := i = j)]
  · split
    · simp only [mem_enqueue, or_assoc, or_left_comm (b := i = j)]
    · simp only [mem_enqueue, or_assoc]

theorem keeps_refile : (d.refile j).Keeps i ↔ i = j ∨ d.Keeps i := by
  unfold Draft.refile Keeps
  split
  · simp only [mem_enqueue, or_assoc]
  · split
    · simp only [mem_enqueue, or_assoc, or_left_comm (b := i = j)]
    · simp only [exists_slot_concat, or_left_comm (b := i = j)]

/-- Alternatives that leave their queues have got a slot. -/
theorem Keeps.paired (h : d.Keeps i) (hs : d.small = low :: small) (hl : d.large = high :: large) :
    (d.paired low high small large).Keeps i := by
  have hnew : ∀ k, k = low ∨ k = high → (d.paired low high small large).Keeps k := fun k hk =>
    .inr (.inr ⟨⟨low, high, 1.0 - d.shareOf low⟩, by simp [Draft.paired, Draft.pair],
      hk.imp Eq.symm Eq.symm⟩)
  rcases h with h | h | ⟨slot, hslot, hnames⟩
  · rw [hs] at h
    rcases List.mem_cons.1 h with h | h
    · exact hnew i (.inl h)
    · exact .inl h
  · rw [hl] at h
    rcases List.mem_cons.1 h with h | h
    · exact hnew i (.inr h)
    · exact .inr (.inl h)
  · exact .inr (.inr ⟨slot, by simp [Draft.paired, Draft.pair, hslot], hnames⟩)

theorem keeps_ofWeights {weights : List Float32} (hi : i < weights.length) :
    (ofWeights weights).Keeps i := by
  refine ofWeights_induction (P := fun k d => ∀ j < k, d.Keeps j) (fun j hj => nomatch hj) ?_ i hi
  intro k d _ h j hj
  exact keeps_place.2 ((Nat.lt_succ_iff_lt_or_eq.1 hj).symm.imp id (h j))

/-- Every alternative has a slot in the end. -/
theorem names_finish (h : d.Keeps i) :
    ∃ slot ∈ d.finish, slot.primary = i ∨ slot.alternate = i := by
  obtain ⟨e, he, -, hfinish⟩ := exists_rest (P := (Keeps · i)) h
    fun h hs hl => keeps_refile.2 (.inr (h.paired hs hl))
  rcases he with h | h | ⟨slot, hslot, hnames⟩
  · exact ⟨.single i, (hfinish _).2 (.inr ⟨i, List.mem_append_left _ h, rfl⟩), .inl rfl⟩
  · exact ⟨.single i, (hfinish _).2 (.inr ⟨i, List.mem_append_right _ h, rfl⟩), .inl rfl⟩
  · exact ⟨slot, (hfinish slot).2 (.inl hslot), hnames⟩

end AliasTable.Draft

namespace AliasSlot

/-- The order of slots, by the first alternatives and then by the second ones. -/
def Before (a b : AliasSlot) : Prop :=
  a.primary < b.primary ∨ a.primary = b.primary ∧ a.alternate ≤ b.alternate

theorem le_iff {a b : AliasSlot} : a.le b = true ↔ a.Before b := by
  simp [le, Before]

theorem le_trans (a b c : AliasSlot) (h : a.le b = true) (h' : b.le c = true) : a.le c = true := by
  rw [le_iff, Before] at *
  omega

theorem le_total (a b : AliasSlot) : (a.le b || b.le a) = true := by
  rw [Bool.or_eq_true, le_iff, le_iff, Before, Before]
  omega

theorem oriented_le (slot : AliasSlot) : slot.oriented.primary ≤ slot.oriented.alternate := by
  unfold oriented
  split
  · exact Nat.le_of_lt ‹_›
  · exact Nat.le_of_not_lt ‹_›

theorem names_oriented {slot : AliasSlot} {i : Nat} :
    slot.oriented.primary = i ∨ slot.oriented.alternate = i ↔
      slot.primary = i ∨ slot.alternate = i := by
  unfold oriented
  split
  · exact or_comm
  · rfl

end AliasSlot

namespace AliasTable

/-- The shape of a table for `n` alternatives. -/
structure WellFormed (n : Nat) (table : AliasTable) : Prop where
  length : table.slots.length = n
  ordered : table.slots.Pairwise AliasSlot.Before
  oriented : ∀ slot ∈ table.slots, slot.primary ≤ slot.alternate
  below : ∀ slot ∈ table.slots, slot.alternate < n
  named : ∀ i < n, ∃ slot ∈ table.slots, slot.primary = i ∨ slot.alternate = i

/-- The slots of a table are those of its making, in order. -/
theorem slots_of_ofWeights? {weights : List Float32} {table : AliasTable}
    (h : ofWeights? weights = some table) : table.slots =
      ((Draft.ofWeights weights).finish.map AliasSlot.oriented).mergeSort AliasSlot.le := by
  unfold ofWeights? at h
  split at h
  · cases h
  · cases h
    rfl

theorem mem_slots_of_ofWeights? {weights : List Float32} {table : AliasTable} {slot : AliasSlot}
    (h : ofWeights? weights = some table) :
    slot ∈ table.slots ↔ ∃ made ∈ (Draft.ofWeights weights).finish, made.oriented = slot := by
  rw [slots_of_ofWeights? h, List.mem_mergeSort, List.mem_map]

theorem wellFormed_of_ofWeights? {weights : List Float32} {table : AliasTable}
    (h : ofWeights? weights = some table) : table.WellFormed weights.length where
  length := (among_of_ofWeights? h).1
  ordered := by
    rw [slots_of_ofWeights? h]
    exact (List.pairwise_mergeSort AliasSlot.le_trans AliasSlot.le_total _).imp AliasSlot.le_iff.1
  oriented slot hslot := by
    obtain ⟨made, -, rfl⟩ := (mem_slots_of_ofWeights? h).1 hslot
    exact made.oriented_le
  below slot hslot := ((among_of_ofWeights? h).2.below slot hslot).2
  named i hi := by
    obtain ⟨made, hmade, hnames⟩ := Draft.names_finish (Draft.keeps_ofWeights hi)
    exact ⟨made.oriented, (mem_slots_of_ofWeights? h).2 ⟨made, hmade, rfl⟩,
      AliasSlot.names_oriented.2 hnames⟩

end AliasTable

/-! ## Budgets -/

namespace DrawM

variable {α β : Type} {x : DrawM α} {f : α → DrawM β}

/-- The computation leaves the budget as it is, and stops only because that is used up. -/
structure Budgeted (x : DrawM α) : Prop where
  maxDraws : ∀ s, (x s).2.maxDraws = s.maxDraws
  stops : ∀ s e, (x s).1 = .error e → e = .failed (.overrun s.maxDraws)

theorem Budgeted.pure (a : α) : Budgeted (pure a) :=
  ⟨fun _ => rfl, fun _ _ h => nomatch h⟩

theorem Budgeted.bind (hx : Budgeted x) (hf : ∀ a, Budgeted (f a)) : Budgeted (x >>= f) := by
  constructor
  · intro s
    rcases h : (x s).1 with e | a
    · rw [bind_of_error h, hx.maxDraws]
    · rw [bind_of_ok h, (hf a).maxDraws, hx.maxDraws]
  · intro s e he
    rcases h : (x s).1 with e' | a
    · rw [bind_of_error h] at he
      cases he
      exact hx.stops s e h
    · rw [bind_of_ok h] at he
      rw [(hf a).stops _ e he, hx.maxDraws]

end DrawM

theorem budgeted_bits (width : UInt8) : Budgeted (Source.bits width) := by
  constructor
  · intro s
    by_cases hb : s.maxDraws ≤ s.record.size
    · rw [Source.bits_of_full width hb]
    · rw [Source.bits_of_room width hb]
  · intro s e he
    by_cases hb : s.maxDraws ≤ s.record.size
    · rw [Source.bits_of_full width hb] at he
      cases he
      rfl
    · rw [Source.bits_of_room width hb] at he
      cases he

theorem budgeted_write (value : UInt64) : Budgeted (Source.write value) := by
  constructor
  · intro s
    by_cases hb : s.maxDraws ≤ s.record.size
    · rw [Source.write_of_full value hb]
    · rw [Source.write_of_room value hb]
  · intro s e he
    by_cases hb : s.maxDraws ≤ s.record.size
    · rw [Source.write_of_full value hb] at he
      cases he
      rfl
    · rw [Source.write_of_room value hb] at he
      cases he

/-- Drawing until a word is accepted keeps to the budget: by induction on it. -/
theorem budgeted_drawUntil {α : Type} (width : UInt8) (accept : UInt64 → Option α) :
    Budgeted (Source.drawUntil width accept) := by
  have hrun : ∀ n (s : Source), s.maxDraws - s.record.size = n →
      (Source.drawUntil width accept s).2.maxDraws = s.maxDraws ∧
        ∀ e, (Source.drawUntil width accept s).1 = .error e →
          e = .failed (.overrun s.maxDraws) := by
    intro n
    induction n using Nat.strongRecOn with
    | _ n ih =>
      intro s hn
      rw [Source.drawUntil_eq_bind]
      rcases hv : (Source.bits width s).1 with e | v
      · rw [bind_of_error hv]
        refine ⟨(budgeted_bits width).maxDraws s, fun e' he => ?_⟩
        cases he
        exact (budgeted_bits width).stops s e hv
      · rw [bind_of_ok hv]
        rcases accept v with _ | a
        · have hs : Source.bits width s = (.ok v, (Source.bits width s).2) := Prod.ext hv rfl
          obtain ⟨hb, hd, hr⟩ := Source.bits_ok hs
          have hrest := ih _ (by omega) (Source.bits width s).2 rfl
          rw [(budgeted_bits width).maxDraws] at hrest
          exact hrest
        · exact ⟨(budgeted_bits width).maxDraws s, nofun⟩
  exact ⟨fun s => (hrun _ s rfl).1, fun s => (hrun _ s rfl).2⟩

theorem budgeted_uniform (most : UInt64) : Budgeted (uniform most) := by
  unfold uniform
  split
  · exact (budgeted_write 0).bind fun _ => .pure 0
  · exact budgeted_drawUntil _ _

theorem budgeted_coin (p : Float) : Budgeted (coin p) := by
  unfold coin
  split
  · exact (budgeted_write 0).bind fun _ => .pure false
  · split
    · exact (budgeted_write 1).bind fun _ => .pure true
    · exact (budgeted_bits 64).bind fun _ => .pure _

namespace AliasTable

theorem budgeted_sample (table : AliasTable) : Budgeted table.sample := by
  unfold sample
  refine (budgeted_uniform _).bind fun i => ?_
  split
  · exact .pure 0
  · refine (budgeted_coin _).bind fun second => ?_
    split <;> exact .pure _

/-- For any weights, numbers or not, there is no table and no weight that counts, or the table is
well-formed. Its making looks up nothing that is not there, and neither does a choice, from whatever
source: that gives an alternative, or it stops because the budget of the source is used up. -/
theorem wellFormed_or_none (weights : List Float32) :
    ofWeightsChecked weights = pure (ofWeights? weights) ∧
    (ofWeights? weights = none ∧ (∀ w ∈ weights, ¬ w > 0.0) ∨
      ∃ table, ofWeights? weights = some table ∧ table.WellFormed weights.length ∧
        table.sampleChecked = table.sample ∧
        ∀ s, (∃ i < weights.length, (table.sample s).1 = .ok i) ∨
          (table.sample s).1 = .error (.failed (.overrun s.maxDraws))) := by
  refine ⟨ofWeightsChecked_eq weights, ?_⟩
  rcases h : ofWeights? weights with _ | table
  · exact .inl ⟨rfl, not_pos_of_ofWeights?_eq_none h⟩
  · have hamong := (among_of_ofWeights? h).2
    refine .inr ⟨table, rfl, wellFormed_of_ofWeights? h, sampleChecked_eq hamong, fun s => ?_⟩
    have hgives := (ensures_sample hamong).outcome s
    rcases hr : (table.sample s).1 with e | i
    · rw [(budgeted_sample table).stops s e hr]
      exact .inr rfl
    · rw [hr] at hgives
      exact .inl ⟨i, hgives, rfl⟩

end AliasTable

end Falsify
