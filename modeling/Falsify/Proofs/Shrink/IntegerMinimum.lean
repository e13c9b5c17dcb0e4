import Falsify.Proofs.Shrink.Rounds

/-!
# Small numbers that no step lowers

If a test has one answer for each number, the search for a small number ends with one that no single
step lowers: neither zero nor one will do, nor the number less one or two, nor any of its shifts.
The last round of the search has tried them all in vain. If all numbers from a threshold on will do,
the search finds the threshold.

* `not_of_probed`: what was tried in vain will not do;
* `exists_idle_round`, `lower_least`: rounds of lowering steps end with one that finds nothing;
* `descended_least`: what the search ends with;
* `Tracks`: what its trials tell, which every trial keeps;
* `minimizeInteger_least`: the theorem.
-/

namespace Falsify

/-- A test that has one answer for each number and keeps a list of all it is asked, the first number
first. -/
def Trial.noting (p : Nat → Bool) : Trial (List Nat) := fun n asked =>
  (p n, asked ++ [n])

namespace Descent

/-! ## What was tried in vain -/

/-- No step lowers the number: not to zero or one, by one or two, or to one of its shifts. -/
structure Least (p : Nat → Bool) (r : Nat) : Prop where
  zero : 1 ≤ r → p 0 = false
  one : 2 ≤ r → p 1 = false
  pred : 1 ≤ r → p (r - 1) = false
  pred_pred : 3 ≤ r → p (r - 2) = false
  shift : ∀ k, 1 ≤ k → 1 ≤ r / 2 ^ k → p (r / 2 ^ k) = false

section Pure

variable {τ : Type} {test : Trial τ} {p : Nat → Bool} (hp : ∀ n w, (test n w).1 = p n)
  {n : Nat} {d d' : Descent τ}

include hp

/-- A number that will do is the best one once it was considered. -/
theorem current_le_of_consider (h : p n = true) : (consider test n d).2.current ≤ n := by
  rcases Nat.lt_or_ge n d.current with hlt | hge
  · rw [consider_of_lt hlt, hp, h]
    exact Nat.le_refl n
  · exact Nat.le_trans (current_consider_le test n d) hge

/-- A lower number that was considered without success will not do. -/
theorem not_of_probed (h : Probed test n d d') (he : d'.current = d.current)
    (hn : n < d.current) : p n = false := by
  obtain ⟨d₁, -, h₂⟩ := h
  refine Bool.eq_false_iff.2 fun hpn => ?_
  have := Reaches.current_le h₂
  have := current_le_of_consider hp (d := d₁) hpn
  omega

/-- If none of some lower numbers was a success, none will do. -/
theorem not_of_considerFirst {values : List Nat} (hlt : ∀ n ∈ values, n < d.current)
    (he : (considerFirst test values d).2.current = d.current) : ∀ n ∈ values, p n = false := by
  induction values generalizing d with
  | nil => nofun
  | cons v rest ih =>
    have hv := hlt v List.mem_cons_self
    have hfalse := not_of_probed hp (considerFirst_probed test v rest d) he hv
    have hnext : considerFirst test (v :: rest) d =
        considerFirst test rest (consider test v d).2 := by
      rw [considerFirst, Trial.bind_apply, consider_of_lt hv, hp, hfalse]
      rfl
    have hcur : (consider test v d).2.current = d.current := by
      rw [consider_of_lt hv, hp, hfalse]
      rfl
    rw [hnext, ← hcur] at he
    refine List.forall_mem_cons.2 ⟨hfalse, ih (fun n hn => ?_) he⟩
    rw [hcur]
    exact hlt n (List.mem_cons_of_mem _ hn)

end Pure

/-! ## Rounds of lowering -/

section Rounds

variable {τ : Type} (test : Trial τ)

theorem mem_shifts {n k : Nat} (hk : 1 ≤ k) (h : 1 ≤ n / 2 ^ k) : n / 2 ^ k ∈ shifts n := by
  have hle : 2 ^ k ≤ n := by
    rw [Nat.one_le_div_iff (Nat.two_pow_pos k)] at h
    exact h
  have hn : n ≠ 0 := by
    have := Nat.two_pow_pos k
    omega
  have hlog := (Nat.le_log2 hn).2 hle
  refine List.mem_map.2 ⟨k - 1, List.mem_range.2 ?_, by rw [Nat.sub_add_cancel hk]⟩
  rw [bitLength, if_neg hn]
  omega

theorem shifts_lt {n : Nat} : ∀ m ∈ shifts n, m < n := by
  intro m hm
  obtain ⟨k, hk, rfl⟩ := List.mem_map.1 hm
  have hn : 0 < n := Nat.pos_of_ne_zero fun h => by
    rw [h] at hk
    cases hk
  exact Nat.div_lt_self hn (Nat.one_lt_two_pow (Nat.succ_ne_zero k))

/-- Rounds of lowering steps end with one that lowers nothing. -/
theorem exists_idle_round (d : Descent τ) :
    ∃ d₁, Reaches test d d₁ ∧ lower test d = (lowerOnce test d₁).2 ∧
      (lowerOnce test d₁).2.current = d₁.current := by
  induction hn : d.current using Nat.strongRecOn generalizing d with
  | _ n ih =>
    have hr := lowerOnce_reaches test d
    rw [lower]
    split
    · rename_i hlt
      obtain ⟨d₁, h₁, he, hc⟩ := ih _ (by omega) (lowerOnce test d).2 rfl
      exact ⟨d₁, hr.trans h₁, he, hc⟩
    · have := Reaches.current_le hr
      exact ⟨d, .refl, rfl, by omega⟩

variable {test} {p : Nat → Bool} (hp : ∀ n w, (test n w).1 = p n)

include hp

/-- A round that lowers nothing has tried all of its steps. -/
theorem idle_least {d : Descent τ} (h₀ : 1 ≤ d.current → p 0 = false)
    (h₁ : 2 ≤ d.current → p 1 = false) (he : (lowerOnce test d).2.current = d.current) :
    Least p d.current := by
  rw [lowerOnce_apply] at he
  have hs := considerFirst_reaches test (shifts d.current) d
  generalize hd₁ : (considerFirst test (shifts d.current) d).2 = d₁ at *
  have hm₂ := lowerByMultiples_reaches test 2 d₁
  generalize hd₂ : (lowerByMultiples test 2 d₁).2 = d₂ at *
  have hm₁ := lowerByMultiples_reaches test 1 d₂
  have hle₁ := Reaches.current_le hs
  have hle₂ := Reaches.current_le hm₂
  have hle₃ := Reaches.current_le hm₁
  have hstep (k : Nat) {d d' : Descent τ} (hd : (lowerByMultiples test k d).2 = d') (hk : 1 ≤ k)
      (hc : d'.current = d.current) (hle : k ≤ d.current) : p (d.current - k) = false :=
    not_of_probed hp (lowerByMultiples_probed test hle) (hd ▸ hc) (by omega)
  refine ⟨h₀, h₁, fun h => ?_, fun h => ?_, fun k hk h => ?_⟩
  · have := hstep 1 (d := d₂) rfl (Nat.le_refl 1) (by omega) (by omega)
    rwa [show d₂.current = d.current by omega] at this
  · have := hstep 2 hd₂ (by omega) (by omega) (by omega)
    rwa [show d₁.current = d.current by omega] at this
  · exact not_of_considerFirst hp shifts_lt (by rw [hd₁]; omega) _ (mem_shifts hk h)

theorem lower_least {d : Descent τ} (h₀ : p 0 = false) (h₁ : p 1 = false) :
    Least p (lower test d).current := by
  obtain ⟨d₁, -, he, hc⟩ := exists_idle_round test d
  rw [he, hc]
  exact idle_least hp (fun _ => h₀) (fun _ => h₁) hc

end Rounds

/-! ## The whole search -/

theorem least_of_le_one {p : Nat → Bool} {r : Nat} (h : r ≤ 1) (h₀ : r = 1 → p 0 = false) :
    Least p r := by
  refine ⟨fun hr => h₀ (by omega), fun _ => by omega, fun hr => ?_, fun _ => by omega,
    fun k hk hr => ?_⟩
  · rw [show r - 1 = 0 by omega]
    exact h₀ (by omega)
  · have : r / 2 ^ k = 0 := Nat.div_eq_of_lt
      (Nat.lt_of_le_of_lt h (Nat.one_lt_two_pow (by omega)))
    omega

theorem least_two {p : Nat → Bool} (h₀ : p 0 = false) (h₁ : p 1 = false) : Least p 2 := by
  refine ⟨fun _ => h₀, fun _ => h₁, fun _ => h₁, fun _ => by omega, fun k hk hr => ?_⟩
  rcases Nat.eq_or_lt_of_le hk with rfl | hk
  · exact h₁
  · have : 2 ^ 2 ≤ 2 ^ k := Nat.pow_le_pow_right (by decide) hk
    rw [Nat.div_eq_of_lt (by omega)] at hr
    omega

section Pure

variable {τ : Type} {test : Trial τ} {p : Nat → Bool} (hp : ∀ n w, (test n w).1 = p n)

include hp

/-- A number that is no higher than the best one and is turned down will not do. -/
theorem not_of_consider {n : Nat} {d : Descent τ} (hn : n ≤ d.current)
    (h : ¬ (consider test n d).1 = true) :
    n < d.current ∧ p n = false ∧ (consider test n d).2.current = d.current := by
  rcases Nat.eq_or_lt_of_le hn with he | hlt
  · rw [consider_of_eq he] at h
    exact absurd rfl h
  · have hfalse : p n = false := by
      rw [consider_of_lt hlt, hp] at h
      simpa using h
    exact ⟨hlt, hfalse, by rw [current_consider, if_neg h]⟩

/-- The search for a small number ends with one that no step lowers: zero or one, which are tried
first, or two, or what the rounds of lowering end with. -/
theorem descended_least (start : Nat) (w : τ) : Least p (descended test start w).current := by
  have h := shortCut_apply test ⟨start, w⟩
  unfold descended
  by_cases h₀ : (consider test 0 ⟨start, w⟩).1 = true
  · rw [if_pos h₀] at h
    rw [h, if_pos rfl, current_consider, if_pos h₀]
    exact least_of_le_one (by decide) nofun
  · obtain ⟨hpos, hzero, hc₀⟩ := not_of_consider hp (Nat.zero_le _) h₀
    rw [if_neg h₀] at h
    generalize (consider test 0 ⟨start, w⟩).2 = d₀ at h hc₀
    by_cases h₁ : (consider test 1 d₀).1 = true
    · dsimp only at h
      rw [if_pos h₁] at h
      rw [h, if_pos rfl, current_consider, if_pos h₁]
      exact least_of_le_one (Nat.le_refl 1) fun _ => hzero
    · obtain ⟨-, hone, -⟩ := not_of_consider hp (by omega) h₁
      dsimp only at h
      rw [if_neg h₁] at h
      rw [h]
      split
      · rename_i htwo
        rw [beq_iff_eq] at htwo
        rw [htwo]
        exact least_two hzero hone
      · exact lower_least hp hzero hone

end Pure

/-! ## What the trials tell -/

/-- What is known of a descent that notes what it asks: its numbers are below the first one and
below all that would do before, and the best one is the first one or would do. -/
structure Tracks (p : Nat → Bool) (start : Nat) (d : Descent (List Nat)) : Prop where
  bounded : d.current ≤ start
  accepted : d.current = start ∨ p d.current = true
  below : ∀ n ∈ d.world, n < start
  lowest : ∀ n ∈ d.world, p n = true → d.current ≤ n
  falling : d.world.Pairwise fun a b => p a = true → b < a

variable {p : Nat → Bool} {start : Nat} {d d' : Descent (List Nat)}

theorem tracks_start (p : Nat → Bool) (start : Nat) : Tracks p start ⟨start, []⟩ :=
  ⟨Nat.le_refl _, .inl rfl, nofun, nofun, .nil⟩

theorem Tracks.consider (h : Tracks p start d) (n : Nat) :
    Tracks p start (Descent.consider (.noting p) n d).2 := by
  rcases Nat.lt_trichotomy n d.current with hlt | heq | hgt
  · have hask : Descent.consider (.noting p) n d =
        (p n, ⟨if p n then n else d.current, d.world ++ [n]⟩) := consider_of_lt hlt
    have hbounded := h.bounded
    rw [hask]
    refine ⟨?_, ?_, ?_, fun m hm hpm => ?_, ?_⟩
    · dsimp only
      split <;> omega
    · dsimp only
      split
      · exact .inr ‹_›
      · exact h.accepted
    · exact List.forall_mem_append.2 ⟨h.below, List.forall_mem_singleton.2 (by omega)⟩
    · dsimp only
      rcases List.mem_append.1 hm with hm | hm
      · have := h.lowest m hm hpm
        split <;> omega
      · rw [List.mem_singleton] at hm
        rw [hm] at hpm ⊢
        exact Nat.le_of_eq (if_pos hpm)
    · refine List.pairwise_append.2
        ⟨h.falling, List.pairwise_singleton _ _, fun a ha b hb hpa => ?_⟩
      have := h.lowest a ha hpa
      rw [List.mem_singleton.1 hb]
      omega
  · rwa [consider_of_eq heq]
  · rwa [consider_of_gt hgt]

theorem Tracks.reaches (h : Tracks p start d) (hr : Reaches (.noting p) d d') :
    Tracks p start d' := by
  induction hr with
  | refl => exact h
  | tail _ hstep ih =>
    obtain ⟨n, rfl⟩ := hstep
    exact ih.consider n

end Descent

/-- For a test that has one answer for each number, the search for a small number ends, with one
that is no higher than the first number, is that number or will do, and that no step lowers. All
numbers it asks about are below the first one and below all that would do before. If just the
numbers from a threshold on will do, it finds the threshold. -/
theorem minimizeInteger_least (p : Nat → Bool) (start : UInt64) :
    let found := minimizeInteger (.noting p) start.toNat []
    let r := found.1
    (∀ rounds, wordLimit ≤ rounds →
      minimizeIntegerWithin (.noting p) rounds start.toNat [] = some found) ∧
    r ≤ start.toNat ∧ (r = start.toNat ∨ p r = true) ∧
    (1 ≤ r → p 0 = false ∧ p (r - 1) = false) ∧ (2 ≤ r → p 1 = false) ∧
    (3 ≤ r → p (r - 2) = false) ∧ (∀ k, 1 ≤ k → 1 ≤ r >>> k → p (r >>> k) = false) ∧
    (∀ n ∈ found.2, n < start.toNat) ∧
    found.2.Pairwise (fun a b => p a = true → b < a) ∧
    ∀ threshold ≤ start.toNat, (∀ n ≤ start.toNat, p n = true ↔ threshold ≤ n) → r = threshold := by
  intro found r
  have hpure : ∀ n asked, (Trial.noting p n asked).1 = p n := fun _ _ => rfl
  have hleast : Descent.Least p r := Descent.descended_least hpure start.toNat []
  have htracks := (Descent.tracks_start p start.toNat).reaches (descended_reaches _ start.toNat [])
  have hbounded : r ≤ start.toNat := htracks.bounded
  have haccepted : r = start.toNat ∨ p r = true := htracks.accepted
  refine ⟨fun rounds h => minimizeIntegerWithin_eq _ h start.toNat_lt [], hbounded, haccepted,
    fun h => ⟨hleast.zero h, hleast.pred h⟩, hleast.one, hleast.pred_pred, fun k hk h => ?_,
    htracks.below, htracks.falling, fun threshold ht hp => ?_⟩
  · rw [Nat.shiftRight_eq_div_pow] at h ⊢
    exact hleast.shift k hk h
  · have hlow : threshold ≤ r := haccepted.elim (fun he => he ▸ ht) (hp r hbounded).1
    refine (Nat.eq_or_lt_of_le hlow).elim Eq.symm fun hlt => ?_
    have hpred := hleast.pred (by omega)
    rw [(hp (r - 1) (by omega)).2 (by omega)] at hpred
    cases hpred

end Falsify
