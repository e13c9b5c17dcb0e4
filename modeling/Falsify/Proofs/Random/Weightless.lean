import Falsify.Proofs.Random.Balance

/-!
# Alternatives without weight

An alternative without weight has no share, so it waits among the small ones. In a round, its slot
gives all to the other alternative (`AliasSlot.Shuns`). It would have a slot of its own only if it
still waited when no large alternative does. But with up to 2048 weights, rounding takes less than
one slot's worth from all of them together, and then those that are left have something each
(`Backed.large_ne_nil`). With more weights it may take more: a total that is a number is not enough
for some lists of 4202 weights.

* `Draft.backed_start`: the debt in the beginning is less than one slot;
* `Draft.Spurns`: what the steps of the making keep;
* `ensures_sample_weight`: the choices from a table.
-/

namespace Falsify

open Weight DrawM

namespace AliasTable.Draft

variable {n : ℕ} {floor : Nat → ℚ} {d : Draft}

theorem balance_eq (n : ℕ) (floor : Nat → ℚ) (queue : List Nat) :
    balance n floor queue = (queue.map floor).sum - queue.length * (1 + slack n) := by
  induction queue with
  | nil => simp [balance]
  | cons i rest ih =>
    rw [balance_cons, ih, List.map_cons, List.sum_cons, List.length_cons]
    push_cast
    ring

/-- What the alternatives have at least in the beginning. -/
def firstFloor (weights : List Float32) (i : Nat) : ℚ :=
  floorOf weights (weights.getD i 0.0)

theorem balance_start {weights : List Float32} (h : Countable weights)
    (hshort : weights.length ≤ 2048) :
    -1 ≤ balance weights.length (firstFloor weights) (List.range weights.length) := by
  have hfloors : (List.range weights.length).map (firstFloor weights) =
      weights.map (floorOf weights) := by
    refine List.ext_getElem (by simp) fun i hi hi' => ?_
    have hi : i < weights.length := by simpa using hi
    simp [firstFloor, hi]
  have hsum := h.sum_floorOf_ge
  have hn : (weights.length : ℚ) ≤ 2048 := by exact_mod_cast hshort
  have hsquare : (weights.length : ℚ) * weights.length ≤ 2048 * 2048 :=
    mul_le_mul hn hn (Nat.cast_nonneg _) (by norm_num)
  rw [balance_eq, hfloors, List.length_range]
  unfold slack
  norm_num at hsum ⊢
  linarith

theorem backed_start {weights : List Float32} (h : Countable weights)
    (hshort : weights.length ≤ 2048) :
    Backed weights.length (firstFloor weights) (-1) (ofWeights weights) := by
  have hfloor : ∀ i (hi : i < weights.length),
      AtLeast (share weights weights[i]) (firstFloor weights i) ∧
        firstFloor weights i ≤ weights.length := fun i hi => by
    have hfirst : firstFloor weights i = floorOf weights weights[i] := by simp [firstFloor, hi]
    rw [hfirst]
    exact ⟨h.atLeast_share (by omega) (List.getElem_mem hi), h.floorOf_le (List.getElem_mem hi)⟩
  have hbacked := backed_ofWeights hfloor
  exact { hbacked with balance := (balance_start h hshort).trans hbacked.balance }

/-- When nothing large waits, the alternatives that wait have one slot's worth each at most, so that
none of them is worth nothing. -/
theorem Backed.large_ne_nil {z : Nat} (h : Backed n floor (-1) d) (hz : z ∈ d.small)
    (hshare : d.shareOf z = 0.0) : d.large ≠ [] := by
  intro hempty
  have hbalance := h.balance
  have hperm : d.waiting.Perm (z :: d.small.erase z) := by
    rw [waiting, hempty, List.append_nil]
    exact List.perm_cons_erase hz
  have hrest : Draft.balance n floor (d.small.erase z) ≤ 0 := by
    refine (List.sum_le_card_nsmul _ 0 fun x hx => ?_).trans_eq (smul_zero _)
    obtain ⟨i, hi, rfl⟩ := List.mem_map.1 hx
    obtain ⟨v, -, hle, hone⟩ := h.small i (List.mem_of_mem_erase hi)
    linarith [slack_nonneg n]
  obtain ⟨v, hv, hle, -⟩ := h.small z hz
  rw [hshare] at hv
  have hzero := hv.worth_eq.symm.trans is_zero.worth_eq
  rw [balance_perm hperm, balance_cons] at hbalance
  have hn : (0 : ℚ) < slack n := by
    unfold slack
    positivity
  linarith

end AliasTable.Draft

/-! ## Alternatives that are never chosen -/

namespace AliasSlot

/-- In the making of a table: the alternative only comes first in the slot, and then the second one
is certain. -/
def Shuns (z : Nat) (slot : AliasSlot) : Prop :=
  slot.alternate ≠ z ∧ (slot.primary = z → slot.useAlternate = 1.0)

/-- A choice from the slot never gives the alternative. -/
def Spares (z : Nat) (slot : AliasSlot) : Prop :=
  (slot.primary = z → slot.useAlternate = 1.0) ∧ (slot.alternate = z → slot.useAlternate = 0.0)

variable {z i : Nat} {slot : AliasSlot}

theorem shuns_single (h : i ≠ z) : (single i).Shuns z :=
  ⟨h, fun heq => absurd heq h⟩

theorem Shuns.oriented (h : slot.Shuns z) : slot.oriented.Spares z := by
  obtain ⟨hne, hcertain⟩ := h
  unfold AliasSlot.oriented
  split
  · refine ⟨fun heq => absurd heq hne, fun heq => ?_⟩
    show (1.0 : Float32) - slot.useAlternate = 0.0
    rw [hcertain heq]
    decide +kernel
  · exact ⟨hcertain, fun heq => absurd heq hne⟩

end AliasSlot

theorem coin_one : coin 1.0 = (do Source.write 1; return true) := by
  have hpos : ¬ (1.0 : Float) ≤ 0.0 := by decide +kernel
  have hcertain : (1.0 : Float) ≥ 1.0 := by decide +kernel
  unfold coin
  rw [if_neg hpos, if_pos hcertain]

theorem coin_zero : coin 0.0 = (do Source.write 0; return false) := by
  have hzero : (0.0 : Float) ≤ 0.0 := by decide +kernel
  unfold coin
  rw [if_pos hzero]

namespace AliasTable

/-- A table whose slots never give an alternative never gives it. -/
theorem ensures_sample_ne {table : AliasTable} {n z : Nat} (h : table.Among n)
    (hspares : ∀ slot ∈ table.slots, slot.Spares z) :
    Ensures table.sample (· ≠ z) Stop.Overrun := by
  refine (ensures_uniform _).bind fun i hi => ?_
  have hi' := position_lt h.nonempty hi
  rw [List.getElem?_eq_getElem hi']
  obtain ⟨hfirst, hsecond⟩ := hspares _ (List.getElem_mem hi')
  by_cases hone : table.slots[i.toNat].useAlternate = 1.0
  · simp only [AliasSlot.chance_of_one hone, coin_one, bind_assoc, pure_bind]
    refine (ensures_write 1).bind fun _ _ => .pure fun heq => ?_
    have hzero := hone.symm.trans (hsecond heq)
    exact absurd hzero (by decide +kernel)
  · by_cases hzero : table.slots[i.toNat].useAlternate = 0.0
    · simp only [AliasSlot.chance_of_zero hzero, coin_zero, bind_assoc, pure_bind]
      exact (ensures_write 0).bind fun _ _ => .pure fun heq => hone (hfirst heq)
    · refine (ensures_coin _).bind fun second _ => ?_
      cases second with
      | false => exact .pure fun heq => hone (hfirst heq)
      | true => exact .pure fun heq => hzero (hsecond heq)

namespace Draft

variable {n z i low high : Nat} {small large : List Nat} {d : Draft}

/-- An alternative without a share waits among the small ones, or has a slot that shuns it. -/
structure Spurns (z : Nat) (d : Draft) : Prop where
  share : d.shareOf z = 0.0
  large : z ∉ d.large
  slots : ∀ slot ∈ d.slots, slot.Shuns z

theorem Spurns.addSlot {slot : AliasSlot} (h : d.Spurns z) (hs : slot.Shuns z) :
    { d with slots := d.slots ++ [slot] }.Spurns z := by
  refine ⟨h.share, h.large, fun t ht => ?_⟩
  rcases List.mem_append.1 ht with ht | ht
  · exact h.slots t ht
  · cases List.mem_singleton.1 ht
    exact hs

theorem Spurns.addLarge (h : d.Spurns z) (hi : i ≠ z) :
    { d with large := enqueue i d.large }.Spurns z :=
  ⟨h.share, fun hz => (mem_enqueue.1 hz).elim (fun heq => hi heq.symm) h.large, h.slots⟩

theorem Spurns.refile (h : d.Spurns z) (hi : i ≠ z) : (d.refile i).Spurns z := by
  unfold Draft.refile
  split
  · exact ⟨h.share, h.large, h.slots⟩
  · split
    · exact h.addLarge hi
    · exact h.addSlot (AliasSlot.shuns_single hi)

/-- Nothing is a small share. -/
theorem Spurns.place (h : d.Spurns z) : (d.place i).Spurns z := by
  unfold Draft.place
  split
  · rename_i hnear
    refine h.addSlot (AliasSlot.shuns_single fun heq => ?_)
    rw [heq, h.share] at hnear
    exact absurd hnear (by decide +kernel)
  · split
    · rename_i hgt
      refine h.addLarge fun heq => ?_
      rw [heq, h.share] at hgt
      exact absurd hgt (by decide +kernel)
    · exact ⟨h.share, h.large, h.slots⟩

/-- Where the share comes first in a slot, the second alternative gets all of it. -/
theorem Spurns.round (h : d.Spurns z) (hl : d.large = high :: large) :
    ((d.paired low high small large).refile high).Spurns z := by
  have hhigh : high ≠ z := fun heq => h.large (heq ▸ hl ▸ List.mem_cons_self)
  have hslot : AliasSlot.Shuns z ⟨low, high, 1.0 - d.shareOf low⟩ := by
    refine ⟨hhigh, fun heq => ?_⟩
    have heq : low = z := heq
    show (1.0 : Float32) - d.shareOf low = 1.0
    rw [heq, h.share]
    decide +kernel
  refine Spurns.refile ⟨?_, ?_, (h.addSlot hslot).slots⟩ hhigh
  · rw [shareOf_paired_of_ne hhigh.symm]
    exact h.share
  · exact fun hz => h.large (hl ▸ List.mem_cons_of_mem _ hz)

theorem spurns_ofWeights {weights : List Float32} (h : Countable weights) (hz : z < weights.length)
    (hw : ¬ weights[z] > 0.0) : (ofWeights weights).Spurns z := by
  refine ofWeights_induction (P := fun _ d => d.Spurns z) ⟨?_, by simp, by simp⟩
    fun _ _ _ h => h.place
  rw [shareOf_start hz]
  exact h.share_of_not_pos hw

/-- No slot gives an alternative without weight, since none is left over among the small ones. -/
theorem shuns_finish {weights : List Float32} (h : Countable weights)
    (hshort : weights.length ≤ 2048) (hz : z < weights.length) (hw : ¬ weights[z] > 0.0) :
    ∀ slot ∈ (ofWeights weights).finish, slot.Shuns z := by
  obtain ⟨e, ⟨⟨floor, hbacked⟩, hspurns⟩, hempty, hfinish⟩ := exists_rest
    (P := fun d => (∃ floor, Backed weights.length floor (-1) d) ∧ d.Spurns z)
    ⟨⟨_, backed_start h hshort⟩, spurns_ofWeights h hz hw⟩
    fun ⟨⟨_, hbacked⟩, hspurns⟩ hs hl => ⟨⟨_, hbacked.round hs hl⟩, hspurns.round hl⟩
  have hsmall : z ∉ e.small := fun hz => hempty.elim (fun hs => by simp [hs] at hz)
    (hbacked.large_ne_nil hz hspurns.share)
  have hgone : z ∉ e.waiting := fun hz => (List.mem_append.1 hz).elim hsmall hspurns.large
  intro slot hslot
  rcases (hfinish slot).1 hslot with hslot | ⟨i, hi, rfl⟩
  · exact hspurns.slots slot hslot
  · exact AliasSlot.shuns_single (ne_of_mem_of_not_mem hi hgone)

end Draft

/-- What a table of up to 2048 weights gives has weight, unless their total is too large for a
number. -/
theorem ensures_sample_weight {weights : List Float32} {table : AliasTable}
    (h : ofWeights? weights = some table) (hfinite : (totalWeight weights).isFinite = true)
    (hshort : weights.length ≤ 2048) :
    Ensures table.sample (fun i => ∃ w, weights[i]? = some w ∧ w > 0.0) Stop.Overrun := by
  have hcount := countable_of_ofWeights? h hfinite (by omega)
  have hamong := (among_of_ofWeights? h).2
  refine ⟨fun s => ?_⟩
  have hbelow := (ensures_sample hamong).outcome s
  rcases hr : (table.sample s).1 with e | i <;> rw [hr] at hbelow
  · exact hbelow
  · refine ⟨weights[i], List.getElem?_eq_getElem hbelow, Decidable.byContradiction fun hw => ?_⟩
    have hspares : ∀ slot ∈ table.slots, slot.Spares i := fun slot hslot => by
      obtain ⟨made, hmade, rfl⟩ := (mem_slots_of_ofWeights? h).1 hslot
      exact (Draft.shuns_finish hcount hshort hbelow hw made hmade).oriented
    have hne := (ensures_sample_ne hamong hspares).outcome s
    rw [hr] at hne
    exact hne rfl

end AliasTable

end Falsify
