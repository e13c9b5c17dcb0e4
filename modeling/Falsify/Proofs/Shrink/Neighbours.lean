import Falsify.Shrink.Passes

/-!
# Elementary steps make a sequence simpler

What the passes of a search try is simpler than what they start from: a sequence without
a block of its draws, with two neighbours put in order, or with a lower value at
positions that share one.

* `Draws.Simpler.trans`: the order is transitive;
* `simpler_withoutRange`, `simpler_swapped`, `simpler_withValueAt`: the three edits;
* `shared_of_mem_duplicateGroups`: the positions of a group share its value;
* `mem_neighbours`, `simpler_of_mem_neighbours`: all of a sequence's neighbours.
-/

namespace Falsify

theorem Draw.fit_value_le (width : UInt8) (value : UInt64) :
    (Draw.fit width value).value ≤ value := by
  rw [UInt64.le_iff_toNat_le, Draw.fit, UInt64.toNat_and]
  exact Nat.and_le_left

/-- A draw that was cut to a width is cut to it again. -/
theorem Draw.fit_fit_width (width : UInt8) (value value' : UInt64) :
    Draw.fit (Draw.fit width value).width value' = Draw.fit width value' := by
  have h : (if (if width ≤ 64 then width else 64) ≤ 64 then (if width ≤ 64 then width else 64)
      else 64) = if width ≤ 64 then width else 64 := by
    by_cases hw : width ≤ 64
    · simp only [if_pos hw]
    · simp only [if_neg hw, UInt8.le_refl, if_true]
  unfold Draw.fit
  dsimp only
  rw [h]

namespace Draws

/-! ## The order -/

theorem Simpler.trans {s t u : Draws} (h : s.Simpler t) (h' : t.Simpler u) : s.Simpler u := by
  rcases h with h | ⟨h, hv⟩ <;> rcases h' with h' | ⟨h', hv'⟩
  · exact .inl (Nat.lt_trans h h')
  · exact .inl (h' ▸ h)
  · exact .inl (h ▸ h')
  · exact .inr ⟨h.trans h', List.lt_trans hv hv'⟩

/-- A list that is nowhere higher than another and differs from it comes before it. -/
theorem values_lt_of_le {a b : List UInt64} (hl : a.length = b.length)
    (hle : ∀ (i : Nat) (x y : UInt64), a[i]? = some x → b[i]? = some y → x ≤ y) (hne : a ≠ b) :
    a < b := by
  induction a generalizing b with
  | nil =>
    cases b with
    | nil => exact absurd rfl hne
    | cons => simp at hl
  | cons x a ih =>
    cases b with
    | nil => simp at hl
    | cons y b =>
      rw [List.cons_lt_cons_iff]
      by_cases h : x = y
      · refine .inr ⟨h, ih (Nat.succ.inj hl) (fun i => hle (i + 1)) fun h' => hne ?_⟩
        rw [h, h']
      · exact .inl (UInt64.lt_of_le_of_ne (hle 0 x y rfl rfl) h)

/-! ## Blocks left out -/

theorem simpler_withoutRange (s : Draws) {i j : Nat} (hij : i < j) (hj : j ≤ s.length) :
    (s.withoutRange i j).Simpler s := by
  refine .inl ?_
  rw [length_withoutRange s (Nat.le_of_lt hij) hj]
  omega

/-! ## Neighbours put in order -/

theorem lt_length_of_outOfOrder {s : Draws} {i : Nat} (h : Search.outOfOrder s i) :
    i < s.length := by
  rw [Search.outOfOrder] at h
  split at h
  case h_2 => cases h
  rename_i ha _
  exact (List.getElem?_eq_some_iff.1 ha).1

theorem simpler_swapped {s : Draws} {i : Nat} (h : Search.outOfOrder s i) :
    (s.swapped i (i + 1)).Simpler s := by
  refine .inr ⟨length_swapped s i (i + 1), ?_⟩
  rw [Search.outOfOrder] at h
  split at h
  case h_2 => cases h
  rename_i a b ha hb
  rw [swapped, ha, hb, List.lt_iff_exists]
  -- Up to the first of the two draws nothing has changed.
  obtain ⟨hi, rfl⟩ := List.getElem?_eq_some_iff.1 ha
  obtain ⟨hi', rfl⟩ := List.getElem?_eq_some_iff.1 hb
  refine .inr ⟨i, by simp [values]; omega, by simp [values]; omega, fun j hj => ?_, ?_⟩
  · have h₁ : i ≠ j := by omega
    have h₂ : i + 1 ≠ j := by omega
    simp [values, h₁, h₂]
  · simpa [values, List.getElem_set] using h

/-! ## Values lowered -/

/-- A value other than zero stands at some positions. -/
def Shared (s : Draws) (positions : List Nat) (value : UInt64) : Prop :=
  value ≠ 0 ∧ positions ≠ [] ∧ ∀ i ∈ positions, s.values[i]? = some value

theorem Shared.lt_length {s : Draws} {positions : List Nat} {value : UInt64}
    (h : s.Shared positions value) : ∀ i ∈ positions, i < s.length := by
  intro i hi
  have := (List.getElem?_eq_some_iff.1 (h.2.2 i hi)).1
  rwa [length_values] at this

theorem getElem?_withValueAt (s : Draws) (positions : List Nat) (value : UInt64) (i : Nat) :
    (s.withValueAt positions value)[i]? =
      if i ∈ positions then s[i]?.map fun d => Draw.fit d.width value else s[i]? := by
  induction positions generalizing s with
  | nil => simp [withValueAt]
  | cons j rest ih =>
    rw [withValueAt, List.foldl_cons, ← withValueAt, ih, withValue, List.getElem?_modify]
    rcases s[i]? with _ | d
    · simp
    · by_cases hj : j = i
      · subst hj
        simp [Draw.fit_fit_width]
      · simp [hj, Ne.symm hj]

/-- A sequence gets simpler when positions that share a value get a lower one, even if that is cut to
the widths of the draws. -/
theorem simpler_withValueAt {s : Draws} {positions : List Nat} {value lower : UInt64}
    (h : s.Shared positions value) (hlt : lower < value) :
    (s.withValueAt positions lower).Simpler s := by
  refine .inr ⟨length_withValueAt s positions lower, ?_⟩
  have hfit : ∀ width, (Draw.fit width lower).value < value := fun width =>
    UInt64.lt_of_le_of_lt (Draw.fit_value_le width lower) hlt
  refine values_lt_of_le (by simp) (fun i x y hx hy => ?_) fun heq => ?_
  · rw [values, List.getElem?_map, getElem?_withValueAt] at hx
    rw [values, List.getElem?_map] at hy
    rcases hd : s[i]? with _ | d <;> rw [hd] at hx hy
    · cases hy
    · by_cases hi : i ∈ positions
      · have hv := h.2.2 i hi
        rw [values, List.getElem?_map, hd] at hv
        rw [if_pos hi] at hx
        cases hx
        cases hy
        cases hv
        exact UInt64.le_of_lt (hfit d.width)
      · rw [if_neg hi] at hx
        cases hx
        cases hy
        exact UInt64.le_refl _
  · obtain ⟨i, hi⟩ := List.exists_mem_of_ne_nil _ h.2.1
    have hv := h.2.2 i hi
    rw [← heq, values, List.getElem?_map, getElem?_withValueAt, if_pos hi] at hv
    rcases hd : s[i]? with _ | d <;> rw [hd] at hv
    · cases hv
    · cases hv
      exact absurd (hfit d.width) (UInt64.lt_irrefl _)

end Draws

/-! ## Groups of equal values -/

open Draws

/-- Sorting in one more position keeps that the positions listed for a value share it. -/
theorem shared_of_mem_alter {s : Draws} {groups : Assoc UInt64 (List Nat)}
    (hg : ∀ g ∈ groups, s.Shared g.2 g.1) {value : UInt64} {i : Nat} (h0 : value ≠ 0)
    (hi : s.values[i]? = some value) {g : UInt64 × List Nat}
    (h : g ∈ Assoc.alter value (fun old => old.getD [] ++ [i]) groups) : s.Shared g.2 g.1 := by
  rcases Assoc.mem_alter h with h | ⟨h₁, h₂⟩
  · exact hg g h
  · obtain ⟨k, positions⟩ := g
    cases h₁
    rcases h₂ with h₂ | ⟨old, ho, h₂⟩
    · cases h₂
      exact ⟨h0, by simp, by simpa using hi⟩
    · cases h₂
      refine ⟨h0, by simp, fun j hj => ?_⟩
      rcases List.mem_append.1 hj with hj | hj
      · exact (hg _ ho).2.2 j hj
      · exact List.mem_singleton.1 hj ▸ hi

/-- The positions that are listed for a value share it. -/
theorem shared_of_mem_positionsByValue {s : Draws} {g : UInt64 × List Nat}
    (h : g ∈ positionsByValue s) : s.Shared g.2 g.1 := by
  have hnil : ∀ g ∈ ([] : Assoc UInt64 (List Nat)), s.Shared g.2 g.1 := fun _ hg => by cases hg
  suffices hall : ∀ g ∈ positionsByValue s, s.Shared g.2 g.1 from hall g h
  refine List.foldlRecOn
    (motive := fun groups : Assoc UInt64 (List Nat) => ∀ g ∈ groups, s.Shared g.2 g.1)
    _ _ hnil fun groups hg p hp => ?_
  have hi : s.values[p.2]? = some p.1 := List.mk_mem_zipIdx_iff_getElem?.1 hp
  dsimp only
  split
  · exact hg
  · rename_i h0
    exact fun g => shared_of_mem_alter hg h0 hi

theorem shared_of_mem_duplicateGroups {s : Draws} {g : UInt64 × List Nat}
    (h : g ∈ duplicateGroups s) : s.Shared g.2 g.1 :=
  shared_of_mem_positionsByValue (List.mem_filter.1 h).1

/-! ## Neighbours -/

theorem toNat_mem_of_mem_lowered {value x : UInt64} (h : value ≠ 0) (hx : x ∈ lowered value) :
    x.toNat ∈ [0, value.toNat - 1, value.toNat / 2] := by
  have h0 : value.toNat ≠ 0 := fun h' => h (UInt64.toNat_inj.1 h')
  have h1 : (1 : UInt64) ≤ value := by
    rw [UInt64.le_iff_toNat_le, UInt64.toNat_one]
    omega
  simp only [lowered, List.mem_cons, List.not_mem_nil, or_false] at hx ⊢
  rcases hx with rfl | rfl | rfl
  · exact .inl rfl
  · exact .inr (.inl (by rw [UInt64.toNat_sub_of_le _ _ h1, UInt64.toNat_one]))
  · exact .inr (.inr (UInt64.toNat_div _ _))

theorem lowered_lt {value x : UInt64} (h : value ≠ 0) (hx : x ∈ lowered value) : x < value := by
  have h0 : value.toNat ≠ 0 := fun h' => h (UInt64.toNat_inj.1 h')
  have hx := toNat_mem_of_mem_lowered h hx
  simp only [List.mem_cons, List.not_mem_nil, or_false] at hx
  rw [UInt64.lt_iff_toNat_lt]
  omega

theorem mem_neighbours {s n : Draws} (h : n ∈ neighbours s) :
    (∃ size i, 0 < size ∧ size ≤ maxDeleteBlock ∧ i + size ≤ s.length ∧
      n = s.withoutRange i (i + size)) ∨
    (∃ i value, s.Shared [i] value ∧ ∃ x ∈ lowered value, n = s.withValueAt [i] x) ∨
    (∃ i, Search.outOfOrder s i ∧ n = s.swapped i (i + 1)) ∨
    ∃ g ∈ duplicateGroups s, ∃ x ∈ lowered g.1, n = s.withValueAt g.2 x := by
  rw [neighbours, List.mem_append, List.mem_append, List.mem_append] at h
  rcases h with ((h | h) | h) | h
  · obtain ⟨k, hk, h⟩ := List.mem_flatMap.1 h
    obtain ⟨i, hi, rfl⟩ := List.mem_map.1 h
    rw [List.mem_range] at hk hi
    exact .inl ⟨k + 1, i, by omega, by omega, by omega, rfl⟩
  · obtain ⟨⟨d, i⟩, hd, h⟩ := List.mem_flatMap.1 h
    dsimp only at h
    split at h
    case isTrue => cases h
    rename_i h0
    obtain ⟨x, hx, rfl⟩ := List.mem_map.1 h
    refine .inr (.inl ⟨i, d.value, ⟨h0, by simp, ?_⟩, x, hx, rfl⟩)
    have hi := List.mk_mem_zipIdx_iff_getElem?.1 hd
    simp [values, hi]
  · obtain ⟨i, -, h⟩ := List.mem_flatMap.1 h
    split at h
    case isFalse => cases h
    rename_i ho
    exact .inr (.inr (.inl ⟨i, ho, List.mem_singleton.1 h⟩))
  · obtain ⟨g, hg, h⟩ := List.mem_flatMap.1 h
    obtain ⟨x, hx, rfl⟩ := List.mem_map.1 h
    exact .inr (.inr (.inr ⟨g, hg, x, hx, rfl⟩))

/-- Every neighbour of a sequence is simpler than the sequence. -/
theorem simpler_of_mem_neighbours {s n : Draws} (h : n ∈ neighbours s) : n.Simpler s := by
  rcases mem_neighbours h with ⟨size, i, h₀, -, hle, rfl⟩ | ⟨i, value, hs, x, hx, rfl⟩ |
    ⟨i, ho, rfl⟩ | ⟨g, hg, x, hx, rfl⟩
  · exact simpler_withoutRange s (by omega) hle
  · exact simpler_withValueAt hs (lowered_lt hs.1 hx)
  · exact simpler_swapped ho
  · have hs := shared_of_mem_duplicateGroups hg
    exact simpler_withValueAt hs (lowered_lt hs.1 hx)

end Falsify
