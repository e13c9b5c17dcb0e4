import Falsify.Proofs.Shrink.Steps

/-!
# A search ends in a local minimum

A search that keeps within its budget ends with a cycle of passes that has found nothing.
In it every neighbour of the current sequence has its turn: it has been tried, or it was
seen before, and then it had been tried when the current sequence was no simpler.

* `Spent`: no sequence that was seen can improve the current one, as long as trials of one
  sequence have one answer; every step keeps this;
* `exists_pass_of_mem_neighbours`: each neighbour has a pass that has seen it if it found nothing;
* `run_eq_cycle`: a run ends with a cycle that has found nothing;
* `local_minimum`: the theorem.
-/

namespace Falsify

namespace Search

variable {σ : Type} {o : Oracle σ} {b : ShrinkBudget} {s t : Search σ}

/-! ## What was seen is spent -/

/-- None of the sequences that were seen can improve the current one, if trials answer by `P`. -/
def Spent (P : Draws → Option Draws) (s : Search σ) : Prop :=
  ∀ c ∈ s.seen, c.Simpler s.current → ∀ r, P c = some r → ¬ r.Simpler s.current

theorem spent_start (P : Draws → Option Draws) (initial : Draws) (world : σ) :
    Spent P (start initial world) := by
  intro c hc hs
  rw [start, Std.HashSet.mem_insert] at hc
  rcases hc with hc | hc
  · rw [← beq_iff_eq.1 hc] at hs
    exact absurd hs (Draws.Simpler.irrefl _)
  · exact absurd hc Std.HashSet.not_mem_emptyWithCapacity

variable {P : Draws → Option Draws}

/-- Considering a candidate keeps what was seen spent. -/
theorem Spent.consider (hP : ∀ c w, (o.trial c w).1 = P c) (hs : Spent P s) (c : Draws) :
    Spent P (s.consider o b c).2 := by
  have h := considered o b c s
  generalize s.consider o b c = r at h
  have hb : Spent P (s.checkBudget o b) := by
    intro c hc
    rw [seen_checkBudget] at hc
    rw [current_checkBudget]
    exact hs c hc
  cases h with
  | same => exact hs
  | skipped => exact hs
  | exhausted => exact hb
  | refused answer world _ _ _ ht hr =>
    intro c' hc' hs' r he
    rcases Std.HashSet.mem_insert.1 hc' with hc' | hc'
    · -- The candidate has just been tried, and its answer was no improvement.
      rw [← beq_iff_eq.1 hc', ← hP c (s.checkBudget o b).world, ht] at he
      have := hr r he
      rwa [← current_checkBudget o b s] at this
    · exact hb c' hc' hs' r he
  | improved r world _ _ _ ht hr =>
    intro c' hc' hs' r' he
    have hr' : r.Simpler (s.checkBudget o b).current := by rwa [current_checkBudget]
    rcases Std.HashSet.mem_insert.1 hc' with hc' | hc'
    · rw [← beq_iff_eq.1 hc'] at hs'
      exact absurd hs' (Draws.Simpler.irrefl _)
    · rcases Std.HashSet.mem_insert.1 hc' with hc' | hc'
      · rw [← beq_iff_eq.1 hc', ← hP c (s.checkBudget o b).world, ht] at he
        cases he
        exact Draws.Simpler.irrefl _
      · -- What was no simpler than the former sequence is no simpler than the new one.
        exact fun hlt => hb c' hc' (hs'.trans hr') r' he (hlt.trans hr')

theorem Spent.foldl (hP : ∀ c w, (o.trial c w).1 = P c) (candidates : List Draws)
    (hs : Spent P s) : Spent P (candidates.foldl (fun s c => (s.consider o b c).2) s) := by
  induction candidates generalizing s with
  | nil => exact hs
  | cons c rest ih => exact ih (hs.consider hP c)

theorem Spent.reaches (hP : ∀ c w, (o.trial c w).1 = P c) (hs : Spent P s)
    (h : Reaches o b s t) : Spent P t := by
  induction h with
  | refl => exact hs
  | tail _ hstep ih =>
    obtain ⟨c, -, rfl⟩ := hstep
    exact ih.consider hP c

/-! ## What has its turn is seen -/

/-- A simpler candidate that is considered within the budget is seen from then on. -/
theorem mem_seen_consider {c : Draws} (hc : c.Simpler s.current)
    (hx : (s.consider o b c).2.exhausted = false) : c ∈ (s.consider o b c).2.seen := by
  have h := considered o b c s
  generalize s.consider o b c = r at h hx
  cases h with
  | same h => exact absurd (h ▸ hc) (Draws.Simpler.irrefl _)
  | skipped _ h => exact h.resolve_left (not_not_intro hc)
  | exhausted _ h => exact absurd (h.symm.trans hx) (by decide)
  | refused => exact Std.HashSet.mem_insert_self
  | improved => exact Std.HashSet.mem_insert.2 (.inr Std.HashSet.mem_insert_self)

/-- Between the two states of a search nothing simpler was found, and the budget lasted. -/
structure Idle (s t : Search σ) : Prop where
  current : t.current = s.current
  exhausted : t.exhausted = false

/-- An idle search was idle in each of its parts. -/
theorem Idle.part {s₁ t₁ : Search σ} (h : s.Idle t) (hs : Reaches o b s s₁)
    (h₁ : Reaches o b s₁ t₁) (ht : Reaches o b t₁ t) : s₁.Idle t₁ ∧ s₁.current = s.current := by
  have hs₁ := hs.extends.current_eq (Reaches.extends (h₁.trans ht)) h.current
  have ht₁ := (Reaches.extends (hs.trans h₁)).current_eq ht.extends h.current
  exact ⟨⟨ht₁.trans hs₁.symm, ht.extends.exhausted h.exhausted⟩, hs₁⟩

/-- A simpler candidate that is considered in an idle search is seen in the end. -/
theorem Idle.mem_seen {s₁ : Search σ} {c : Draws} (h : s.Idle t) (hs : Reaches o b s s₁)
    (hc : c.Simpler s.current) (he : s₁.current.Edit c)
    (ht : Reaches o b (s₁.consider o b c).2 t) : c ∈ t.seen := by
  obtain ⟨hi, hcur⟩ := h.part hs (reaches_consider he) ht
  exact ht.extends.seen c (mem_seen_consider (hcur ▸ hc) hi.exhausted)

/-- A candidate that is considered in an idle search replaces nothing. -/
theorem Idle.not_considered {s₁ : Search σ} {c : Draws} (h : s.Idle t) (hs : Reaches o b s s₁)
    (hc : c.Simpler s.current) (he : s₁.current.Edit c)
    (ht : Reaches o b (s₁.consider o b c).2 t) : (s₁.consider o b c).1 = false := by
  obtain ⟨hi, hcur⟩ := h.part hs (reaches_consider he) ht
  have hne : c ≠ s₁.current := fun heq =>
    Draws.Simpler.irrefl c (by rwa [← hcur, ← heq] at hc)
  have hsteps := steps_consider o b hne
  rw [Steps, hi.current] at hsteps
  cases hr : (s₁.consider o b c).1 with
  | false => rfl
  | true =>
    rw [hr, if_pos rfl] at hsteps
    exact absurd hsteps (Draws.Simpler.irrefl _)

/-- Each member of a fold had its turn in an idle search. -/
theorem Idle.of_foldl {α : Type} {f : Search σ → α → Search σ}
    (hf : ∀ s a, Reaches o b s (f s a)) {l : List α} {a : α} (ha : a ∈ l)
    (h : s.Idle (l.foldl f s)) :
    ∃ t, t.current = s.current ∧ t.Idle (f t a) ∧ ∀ c ∈ (f t a).seen, c ∈ (l.foldl f s).seen := by
  obtain ⟨t, h₁, h₂⟩ := Reaches.through_foldl hf ha s
  obtain ⟨hi, hcur⟩ := h.part h₁ (hf t a) h₂
  exact ⟨t, hcur, hi, h₂.extends.seen⟩

/-! ### Blocks left out -/

/-- Deleting blocks of one size from a position on, without success, has seen each of them left
out: by induction on the loop. -/
theorem mem_seen_of_deleteBlocks {size : Nat} (hsize : 0 < size) (i : Nat) (s : Search σ)
    (h : s.Idle (s.deleteBlocks o b size i)) :
    ∀ j, i ≤ j → j + size ≤ s.current.length →
      s.current.withoutRange j (j + size) ∈ (s.deleteBlocks o b size i).seen := by
  fun_induction deleteBlocks with
  | case1 i s hg s' hc ih =>
    have hr : Reaches o b (s.consider o b (s.current.withoutRange i (i + size))).2
        (s'.deleteBlocks o b size i) := by
      rw [hc]
      exact reaches_deleteBlocks size i s'
    have := h.not_considered .refl (Draws.simpler_withoutRange _ (by omega) hg.2.1) (.delete _ _) hr
    rw [hc] at this
    cases this
  | case2 i s hg s' hc ih =>
    have he : (s.consider o b (s.current.withoutRange i (i + size))).2 = s' := by rw [hc]
    have hr := reaches_deleteBlocks (o := o) (b := b) size (i + 1) s'
    have hs := reaches_consider (o := o) (b := b) (s := s) (.delete i (i + size))
    rw [he] at hs
    obtain ⟨hi, hcur⟩ := h.part hs hr .refl
    intro j hj hle
    rcases Nat.eq_or_lt_of_le hj with rfl | hj
    · exact h.mem_seen .refl (Draws.simpler_withoutRange _ (by omega) hle) (.delete _ _)
        (by rwa [he])
    · rw [← hcur] at hle ⊢
      exact ih hi j hj hle
  | case3 i s hg =>
    exact fun j hj hle => absurd ⟨hsize, by omega, h.exhausted⟩ hg

/-! ### Values lowered -/

theorem considerValue_of_shared {positions : List Nat} {value : UInt64}
    (h : s.current.Shared positions value) (n : Nat) :
    considerValue o b positions n s =
      s.consider o b (s.current.withValueAt positions (UInt64.ofNat n)) := by
  rw [considerValue, if_pos]
  rw [List.all_eq_true]
  exact fun i hi => decide_eq_true (h.lt_length i hi)

/-- Minimizing a value that stands at some positions, without success, has seen it lowered. -/
theorem mem_seen_of_minimizeInteger {positions : List Nat} {value : UInt64}
    (hs : s.current.Shared positions value)
    (h : s.Idle (minimizeInteger (considerValue o b positions) value.toNat s).2) :
    ∀ x ∈ lowered value, s.current.withValueAt positions x ∈
      (minimizeInteger (considerValue o b positions) value.toNat s).2.seen := by
  have hpos : 0 < value.toNat := Nat.pos_of_ne_zero fun h0 => hs.1 (UInt64.toNat_inj.1 h0)
  rcases minimizeInteger_cases (considerValue o b positions) value.toNat s hpos with
    ⟨n, hn, s₁, h₁, ha, h₂⟩ | hp
  · -- A trial that was answered with yes would have found something simpler.
    have h₁ := Reaches.of_trials h₁
    have h₂ := Reaches.of_trials h₂
    have hcur := (h.part h₁ .refl ((reaches_considerValue positions n s₁).trans h₂)).2
    have hs₁ : s₁.current.Shared positions value := hcur ▸ hs
    have hlt : UInt64.ofNat n < value := by
      rwa [UInt64.lt_iff_toNat_lt, UInt64.toNat_ofNat_of_lt' (Nat.lt_trans hn value.toNat_lt)]
    rw [considerValue_of_shared hs₁] at ha h₂
    have := h.not_considered h₁ (hcur ▸ Draws.simpler_withValueAt hs₁ hlt) (.lower _ _) h₂
    rw [this] at ha
    cases ha
  · intro x hx
    have hlt := lowered_lt hs.1 hx
    obtain ⟨s₁, h₁, h₂⟩ := hp x.toNat (toNat_mem_of_mem_lowered hs.1 hx)
    have h₁ := Reaches.of_trials h₁
    have h₂ := Reaches.of_trials h₂
    have hcur := (h.part h₁ .refl ((reaches_considerValue positions x.toNat s₁).trans h₂)).2
    rw [considerValue_of_shared (hcur ▸ hs), UInt64.ofNat_toNat, hcur] at h₂
    exact h.mem_seen h₁ (Draws.simpler_withValueAt hs hlt) (hcur ▸ .lower _ _) h₂

theorem mem_seen_of_minimizeAt {i : Nat} {value : UInt64} (hs : s.current.Shared [i] value)
    (h : s.Idle (s.minimizeAt o b i)) :
    ∀ x ∈ lowered value, s.current.withValueAt [i] x ∈ (s.minimizeAt o b i).seen := by
  have hx := (reaches_minimizeAt (o := o) (b := b) s i).extends.exhausted h.exhausted
  have hd := hs.2.2 i List.mem_cons_self
  rw [Draws.values, List.getElem?_map, Option.map_eq_some_iff] at hd
  obtain ⟨d, hd, rfl⟩ := hd
  have he : s.minimizeAt o b i =
      (minimizeInteger (considerValue o b [i]) d.value.toNat s).2 := by
    rw [minimizeAt, hx, hd]
    exact if_neg hs.1
  rw [he] at h ⊢
  exact mem_seen_of_minimizeInteger hs h

theorem mem_seen_of_minimizeGroup {g : UInt64 × List Nat} (hs : s.current.Shared g.2 g.1)
    (h : s.Idle (s.minimizeGroup o b g)) :
    ∀ x ∈ lowered g.1, s.current.withValueAt g.2 x ∈ (s.minimizeGroup o b g).seen := by
  have hx := (reaches_minimizeGroup (o := o) (b := b) s g).extends.exhausted h.exhausted
  rw [minimizeGroup, hx] at h ⊢
  exact mem_seen_of_minimizeInteger hs h

/-! ### Neighbours put in order -/

theorem mem_seen_of_reorderAt {i : Nat} (ho : outOfOrder s.current i)
    (h : s.Idle (s.reorderAt o b i)) :
    s.current.swapped i (i + 1) ∈ (s.reorderAt o b i).seen := by
  have hx := (reaches_reorderAt (o := o) (b := b) s i).extends.exhausted h.exhausted
  rw [reorderAt, if_pos ⟨hx, ho⟩] at h ⊢
  exact mem_seen_consider (Draws.simpler_swapped ho) h.exhausted

/-! ## Passes that found nothing -/

/-- For each neighbour of a sequence there is a pass that has seen it if it has found nothing. -/
theorem exists_pass_of_mem_neighbours (o : Oracle σ) (b : ShrinkBudget) {current n : Draws}
    (hn : n ∈ neighbours current) :
    ∃ pass ∈ ShrinkPass.order, ∀ s : Search σ, s.current = current →
      s.Idle (s.runPass o b pass) → n ∈ (s.runPass o b pass).seen := by
  rcases mem_neighbours hn with ⟨size, i, h₀, hmax, hle, rfl⟩ | ⟨i, value, hs, x, hx, rfl⟩ |
    ⟨i, ho, rfl⟩ | ⟨g, hg, x, hx, rfl⟩
  · refine ⟨.deleteDraws, by decide, ?_⟩
    rintro s rfl h
    rw [runPass, deleteDraws_eq] at h ⊢
    have hk : maxDeleteBlock - size ∈ List.range maxDeleteBlock := List.mem_range.2 (by omega)
    obtain ⟨t, hcur, hi, hseen⟩ := Idle.of_foldl (o := o) (b := b)
      (f := fun s k => s.deleteBlocks o b (maxDeleteBlock - k) 0)
      (fun s _ => reaches_deleteBlocks _ 0 s) hk h
    rw [← hcur] at hle ⊢
    refine hseen _ ?_
    rw [show maxDeleteBlock - (maxDeleteBlock - size) = size by omega] at hi ⊢
    exact mem_seen_of_deleteBlocks h₀ 0 t hi i (Nat.zero_le i) hle
  · refine ⟨.minimizeDraws, by decide, ?_⟩
    rintro s rfl h
    rw [runPass, minimizeDraws_eq] at h
    have hi : i ∈ List.range s.current.length :=
      List.mem_range.2 (hs.lt_length i List.mem_cons_self)
    obtain ⟨t, hcur, hi, hseen⟩ := h.of_foldl reaches_minimizeAt hi
    rw [← hcur] at hs ⊢
    rw [runPass, minimizeDraws_eq]
    exact hseen _ (mem_seen_of_minimizeAt hs hi x hx)
  · refine ⟨.reorderDraws, by decide, ?_⟩
    rintro s rfl h
    rw [runPass, reorderDraws_eq] at h
    have hi : i ∈ List.range s.current.length := List.mem_range.2 (Draws.lt_length_of_outOfOrder ho)
    obtain ⟨t, hcur, hi, hseen⟩ := h.of_foldl reaches_reorderAt hi
    rw [← hcur] at ho ⊢
    rw [runPass, reorderDraws_eq]
    exact hseen _ (mem_seen_of_reorderAt ho hi)
  · refine ⟨.minimizeDuplicates, by decide, ?_⟩
    rintro s rfl h
    rw [runPass, minimizeDuplicates_eq] at h
    obtain ⟨t, hcur, hi, hseen⟩ := h.of_foldl reaches_minimizeGroup hg
    have hs := shared_of_mem_duplicateGroups hg
    rw [← hcur] at hs ⊢
    rw [runPass, minimizeDuplicates_eq]
    exact hseen _ (mem_seen_of_minimizeGroup hs hi x hx)

/-- A pass that is repeated as long as it helps runs once if it finds nothing. -/
theorem repeatPass_eq_runPass {pass : ShrinkPass} (h : s.Idle (s.repeatPass o b pass)) :
    s.repeatPass o b pass = s.runPass o b pass := by
  have hx := (reaches_repeatPass (o := o) (b := b) pass s).extends.exhausted h.exhausted
  have hr : Reaches o b (s.runPass o b pass) (s.repeatPass o b pass) := by
    rw [repeatPass, if_neg (by rw [hx]; decide)]
    dsimp only
    split
    · exact reaches_repeatPass pass _
    · exact .refl
  obtain ⟨hi, -⟩ := h.part .refl (reaches_runPass pass s) hr
  rw [repeatPass, if_neg (by rw [hx]; decide)]
  refine dif_neg ?_
  rw [hi.current]
  exact Draws.Simpler.irrefl _

/-- A cycle that has found nothing has seen all neighbours. -/
theorem mem_seen_of_cycle (h : s.Idle (s.cycle o b)) :
    ∀ n ∈ neighbours s.current, n ∈ (s.cycle o b).seen := by
  intro n hn
  obtain ⟨pass, hp, hseen⟩ := exists_pass_of_mem_neighbours o b hn
  obtain ⟨t, hcur, hi, hle⟩ := h.of_foldl (fun s pass => reaches_repeatPass pass s) hp
  refine hle n ?_
  have he := repeatPass_eq_runPass hi
  rw [he] at hi ⊢
  exact hseen t hcur hi

/-- A run within its budget ends with a cycle that has found nothing. -/
theorem run_eq_cycle (s : Search σ) (h : (s.run o b).exhausted = false) :
    ∃ t, Reaches o b s t ∧ s.run o b = t.cycle o b ∧ t.Idle (t.cycle o b) := by
  fun_induction run with
  | case1 s s' _ ih =>
    obtain ⟨t, ht, he, hi⟩ := ih h
    exact ⟨t, (reaches_cycle s).trans ht, he, hi⟩
  | case2 s s' hn =>
    have hc := (reaches_cycle (o := o) (b := b) s).extends.current
    exact ⟨s, .refl, rfl, hc.resolve_right fun hs => hn ⟨hs, h⟩, h⟩

/-- A run within its budget has seen all neighbours of the sequence it ends with. -/
theorem mem_seen_of_run (s : Search σ) (h : (s.run o b).exhausted = false) :
    ∀ n ∈ neighbours (s.run o b).current, n ∈ (s.run o b).seen := by
  obtain ⟨t, -, he, hi⟩ := run_eq_cycle s h
  rw [he, hi.current]
  exact mem_seen_of_cycle hi

/-- The search ends in a local minimum: if the budget lasted, every neighbour of the sequence it
ends with is simpler than that, and its trial does not give anything simpler. -/
theorem local_minimum (P : Draws → Option Draws) (effect : Draws → σ → σ)
    (elapsed : σ → Duration × σ) (b : ShrinkBudget) (initial : Draws) (world : σ)
    (candidates : List Draws) :
    let o : Oracle σ := ⟨fun c w => (P c, effect c w), elapsed⟩
    let s := (candidates.foldl (fun s c => (s.consider o b c).2) (start initial world)).run o b
    s.exhausted = false → ∀ n ∈ neighbours s.current,
      n.Simpler s.current ∧ (∀ r, P n = some r → ¬ r.Simpler s.current) ∧
        ((∀ c r, P c = some r → r = c) → P n = none) := by
  intro o s hx n hn
  have hs : n.Simpler s.current := simpler_of_mem_neighbours hn
  have hspent : Spent P s :=
    (Spent.foldl (o := o) (fun _ _ => rfl) candidates (spent_start P initial world)).reaches
      (fun _ _ => rfl) (reaches_run _)
  have hr := hspent n (mem_seen_of_run _ hx n hn) hs
  refine ⟨hs, hr, fun hid => ?_⟩
  cases hn' : P n with
  | none => rfl
  | some r => exact absurd (hid n r hn' ▸ hs) (hr r hn')

/-- Trials that accept every sequence but the empty one. -/
def nonempty : Oracle Unit :=
  ⟨fun c w => (if c = [] then none else some c, w), fun w => (.zero, w)⟩

theorem simpler_zero {c : Draws} (h : c.Simpler [⟨1, 0⟩]) : c = [] := by
  rcases h with h | ⟨h, hv⟩
  · exact List.length_eq_zero_iff.1 (by simpa using h)
  · obtain ⟨d, rfl⟩ := List.length_eq_one_iff.1 h
    rcases List.cons_lt_cons_iff.1 hv with h | ⟨-, h⟩
    · exact absurd h UInt64.not_lt_zero
    · exact absurd h (List.not_lt_nil _)

/-- A search that has arrived at a single zero tries the empty sequence once and stays. -/
theorem reaches_nonempty {b : ShrinkBudget} (hm : 2 < b.maxAttempts) (ht : b.timeout = none)
    {s t : Search Unit} (h : Reaches nonempty b s t) (hs : s.current = [⟨1, 0⟩])
    (hx : s.exhausted = false) (ha : s.attempts ≤ 1) :
    t.current = [⟨1, 0⟩] ∧ t.exhausted = false ∧ t.attempts ≤ 2 ∧ ([] ∈ t.seen ∨ t.attempts ≤ 1) := by
  induction h with
  | refl => exact ⟨hs, hx, by omega, .inr ha⟩
  | @tail u _ _ hstep ih =>
    obtain ⟨hu, hx, ha, hseen⟩ := ih
    obtain ⟨c, -, rfl⟩ := hstep
    have hb : u.checkBudget nonempty b = u := by
      rw [checkBudget, if_neg (by omega), ht]
    have h := considered nonempty b c u
    generalize u.consider nonempty b c = r at h
    have hempty : c.Simpler u.current → c = [] := fun hc => simpler_zero (hu ▸ hc)
    cases h with
    | same => exact ⟨hu, hx, ha, hseen⟩
    | skipped => exact ⟨hu, hx, ha, hseen⟩
    | exhausted _ h =>
      rw [hb] at h
      exact absurd (h.symm.trans hx) (by decide)
    | refused answer world hc hn =>
      rw [hb]
      rw [hempty hc] at hn ⊢
      refine ⟨hu, hx, ?_, .inl Std.HashSet.mem_insert_self⟩
      have := hseen.resolve_left hn
      show u.attempts + 1 ≤ 2
      omega
    | improved r world hc _ _ ht =>
      rw [hempty hc] at ht
      cases ht

theorem local_minimum_nonempty :
    let b : ShrinkBudget := ⟨500, none⟩
    let s := ([[⟨1, 0⟩]].foldl (fun s c => (s.consider nonempty b c).2)
      (start [⟨1, 1⟩] ())).run nonempty b
    s.exhausted = false ∧ s.current = [⟨1, 0⟩] ∧ [] ∈ neighbours s.current ∧
      Draws.Simpler [] s.current ∧ (nonempty.trial [] ()).1 = none := by
  intro b s
  have h₁ : (start [⟨1, 1⟩] ()).consider nonempty b [⟨1, 0⟩] =
      (true, (((start [⟨1, 1⟩] ()).note [⟨1, 0⟩] ()).improve [⟨1, 0⟩])) := by
    have hn : (start [⟨1, 1⟩] ()).seen.contains [⟨1, 0⟩] = false := by simp [start]
    have hs : Draws.Simpler [⟨1, 0⟩] (start [⟨1, 1⟩] ()).current := by decide
    have hne : ([⟨1, 0⟩] : Draws) ≠ (start [⟨1, 1⟩] ()).current := by decide
    have hb : (start [⟨1, 1⟩] ()).checkBudget nonempty b = start [⟨1, 1⟩] () := rfl
    rw [consider, if_neg hne, if_neg (by simp [hs, hn]), hb]
    rfl
  obtain ⟨hc, hx, -⟩ := reaches_nonempty (b := b) (by decide) rfl (reaches_run _)
    (congrArg (fun r => r.2.current) h₁) (congrArg (fun r => r.2.exhausted) h₁)
    (Nat.le_of_eq (congrArg (fun r => r.2.attempts) h₁))
  have hn : [] ∈ neighbours s.current := by
    rw [show s.current = [⟨1, 0⟩] from hc]
    decide
  obtain ⟨hs, -, hP⟩ := local_minimum (fun c => if c = [] then none else some c) (fun _ w => w)
    (fun w => (.zero, w)) b [⟨1, 1⟩] () [[⟨1, 0⟩]] hx [] hn
  refine ⟨hx, hc, hn, hs, hP fun c r hr => ?_⟩
  split at hr <;> cases hr
  rfl

end Search

end Falsify
