import Mathlib.Logic.Relation
import Falsify.Shrink.Integer

/-!
# What a search for a number puts to trial

The searches for small numbers change the state of their trials by trials only. So what
they do to it is some trials, one after another (`Trial.Reaches`), and a fact about that
state is proved for one trial and holds of a whole search.

* `findInteger_reaches`, `minimizeInteger_reaches`: both searches consist of trials;
* `Descent.Reaches.accepted`: a best number that was lowered was lowered by a trial;
* `minimizeInteger_cases`: a search that has not lowered its number has tried zero, the
  number before, and half the number.
-/

namespace Falsify

namespace Trial

variable {τ : Type} {f : Trial τ} {n : Nat} {w w₁ w' : τ}

/-- One trial. -/
def Step (f : Trial τ) (w w' : τ) : Prop :=
  ∃ n, w' = (f n w).2

/-- Some trials, one after another. -/
abbrev Reaches (f : Trial τ) : τ → τ → Prop :=
  Relation.ReflTransGen f.Step

/-- A number was put to trial between two states. -/
def Probed (f : Trial τ) (n : Nat) (w w' : τ) : Prop :=
  ∃ w₁, f.Reaches w w₁ ∧ f.Reaches (f n w₁).2 w'

theorem reaches_trial (f : Trial τ) (n : Nat) (w : τ) : f.Reaches w (f n w).2 :=
  .single ⟨n, rfl⟩

theorem Probed.of_reaches (h : f.Reaches w w₁) : f.Probed n w₁ w' → f.Probed n w w' := by
  rintro ⟨v, hv, h'⟩
  exact ⟨v, h.trans hv, h'⟩

theorem Probed.reaches (h : f.Probed n w w₁) (h' : f.Reaches w₁ w') : f.Probed n w w' := by
  obtain ⟨v, hv, hn⟩ := h
  exact ⟨v, hv, hn.trans h'⟩

theorem bind_apply {α β : Type} (x : StateM τ α) (g : α → StateM τ β) (w : τ) :
    (x >>= g) w = g (x w).1 (x w).2 := rfl

end Trial

open Trial

/-! ## Numbers whose successor will not do -/

section Find

variable {τ : Type} (f : Trial τ)

theorem bisect_reaches (low high : Nat) (w : τ) : f.Reaches w (bisect f low high w).2 := by
  induction hn : high - low using Nat.strongRecOn generalizing low high w with
  | _ n ih =>
    rw [bisect]
    split
    · rw [bind_apply]
      refine (reaches_trial f (low + (high - low) / 2) w).trans ?_
      split
      · exact ih _ (by omega) _ _ _ rfl
      · exact ih _ (by omega) _ _ _ rfl
    · exact .refl

theorem gallop_reaches (low high : Nat) (w : τ) : f.Reaches w (gallop f low high w).2 := by
  induction hn : wordLimit - high using Nat.strongRecOn generalizing low high w with
  | _ n ih =>
    rw [gallop, bind_apply]
    refine (reaches_trial f high w).trans ?_
    split
    · split
      · exact ih _ (by omega) _ _ _ rfl
      · exact .refl
    · exact bisect_reaches f _ _ _

theorem stepFrom_reaches (i steps : Nat) (w : τ) : f.Reaches w (stepFrom f i steps w).2 := by
  induction steps generalizing i w with
  | zero => exact gallop_reaches f _ _ w
  | succ steps ih =>
    rw [stepFrom, bind_apply]
    refine (reaches_trial f i w).trans ?_
    split
    · exact ih _ _
    · exact .refl

theorem findInteger_reaches (w : τ) : f.Reaches w (findInteger f w).2 :=
  stepFrom_reaches f 1 4 w

/-- One is tried first. -/
theorem findInteger_probed (w : τ) : f.Probed 1 w (findInteger f w).2 := by
  refine ⟨w, .refl, ?_⟩
  rw [findInteger, stepFrom, bind_apply]
  split
  · exact stepFrom_reaches f _ _ _
  · exact .refl

end Find

namespace Descent

variable {τ : Type} {test : Trial τ} {n : Nat} {d d' : Descent τ}

/-! ## Descents -/

/-- Some steps of a descent, one after another. -/
abbrev Reaches (test : Trial τ) : Descent τ → Descent τ → Prop :=
  Trial.Reaches (consider test)

/-- A number was considered in the course of a descent. -/
abbrev Probed (test : Trial τ) : Nat → Descent τ → Descent τ → Prop :=
  Trial.Probed (consider test)

theorem consider_of_eq (h : n = d.current) : consider test n d = (true, d) :=
  if_pos h

theorem consider_of_gt (h : d.current < n) : consider test n d = (false, d) := by
  rw [consider, if_neg (by omega), if_pos h]

theorem consider_of_lt (h : n < d.current) :
    consider test n d =
      ((test n d.world).1,
        ⟨if (test n d.world).1 then n else d.current, (test n d.world).2⟩) := by
  rw [consider, if_neg (by omega), if_neg (by omega)]
  rcases test n d.world with ⟨_ | _, _⟩ <;> rfl

/-- A number that will do is the best one from now on. -/
theorem current_consider (test : Trial τ) (n : Nat) (d : Descent τ) :
    (consider test n d).2.current = if (consider test n d).1 then n else d.current := by
  rcases Nat.lt_trichotomy n d.current with h | h | h
  · rw [consider_of_lt h]
  · rw [consider_of_eq h, if_pos rfl, h]
  · rw [consider_of_gt h]
    rfl

theorem current_consider_le (test : Trial τ) (n : Nat) (d : Descent τ) :
    (consider test n d).2.current ≤ d.current := by
  rcases Nat.lt_trichotomy n d.current with h | h | h
  · rw [consider_of_lt h]
    dsimp only
    split <;> omega
  · exact Nat.le_of_eq (by rw [consider_of_eq h])
  · exact Nat.le_of_eq (by rw [consider_of_gt h])

theorem reaches_world_consider (test : Trial τ) (n : Nat) (d : Descent τ) :
    test.Reaches d.world (consider test n d).2.world := by
  rcases Nat.lt_trichotomy n d.current with h | h | h
  · rw [consider_of_lt h]
    exact reaches_trial test n d.world
  · rw [consider_of_eq h]
  · rw [consider_of_gt h]

/-- A descent does not rise. -/
theorem Reaches.current_le (h : Reaches test d d') : d'.current ≤ d.current := by
  induction h with
  | refl => exact Nat.le_refl _
  | tail _ hstep ih =>
    obtain ⟨n, rfl⟩ := hstep
    exact Nat.le_trans (current_consider_le test n _) ih

/-- The steps of a descent are trials. -/
theorem Reaches.world (h : Reaches test d d') : test.Reaches d.world d'.world := by
  refine h.lift' Descent.world ?_
  rintro d₁ _ ⟨n, rfl⟩
  exact reaches_world_consider test n d₁

/-- A best number that was lowered was lowered by a trial of a lower number. -/
theorem Reaches.accepted (h : Reaches test d d') (hlt : d'.current < d.current) :
    ∃ n < d.current, ∃ w, test.Reaches d.world w ∧ (test n w).1 = true ∧
      test.Reaches (test n w).2 d'.world := by
  induction h with
  | refl => exact absurd hlt (Nat.lt_irrefl _)
  | @tail d₁ _ hd hstep ih =>
    rcases Nat.lt_or_ge d₁.current d.current with h₁ | h₁
    · obtain ⟨n, hn, w, hw, ht, hr⟩ := ih h₁
      refine ⟨n, hn, w, hw, ht, hr.trans ?_⟩
      exact Reaches.world (.single hstep)
    · obtain ⟨n, rfl⟩ := hstep
      have hle := Reaches.current_le hd
      -- The number was still the first one, and this step lowers it.
      have hn : n < d₁.current := by
        rcases Nat.lt_trichotomy n d₁.current with h | h | h
        · exact h
        · rw [consider_of_eq h] at hlt
          exact absurd hlt (Nat.not_lt.2 h₁)
        · rw [consider_of_gt h] at hlt
          exact absurd hlt (Nat.not_lt.2 h₁)
      rw [consider_of_lt hn] at hlt ⊢
      refine ⟨n, by omega, d₁.world, Reaches.world hd, ?_, .refl⟩
      cases ht : (test n d₁.world).1 with
      | true => rfl
      | false =>
        rw [ht] at hlt
        exact absurd hlt (Nat.not_lt.2 h₁)

/-- A lower number that was considered before the best one was lowered was put to trial. -/
theorem probed_world (h : Probed test n d d') (he : d'.current = d.current)
    (hn : n < d.current) : test.Probed n d.world d'.world := by
  obtain ⟨d₁, h₁, h₂⟩ := h
  have hlt : n < d₁.current := by
    have := Reaches.current_le h₂
    have := current_consider_le test n d₁
    omega
  refine ⟨d₁.world, Reaches.world h₁, ?_⟩
  have := Reaches.world h₂
  rwa [consider_of_lt hlt] at this

/-! ## The steps of a descent -/

theorem considerFirst_reaches (test : Trial τ) (values : List Nat) (d : Descent τ) :
    Reaches test d (considerFirst test values d).2 := by
  induction values generalizing d with
  | nil => exact .refl
  | cons n rest ih =>
    rw [considerFirst, bind_apply]
    refine (reaches_trial _ n d).trans ?_
    split
    · exact .refl
    · exact ih _

theorem considerFirst_probed (test : Trial τ) (n : Nat) (rest : List Nat) (d : Descent τ) :
    Probed test n d (considerFirst test (n :: rest) d).2 := by
  refine ⟨d, .refl, ?_⟩
  rw [considerFirst, bind_apply]
  split
  · exact .refl
  · exact considerFirst_reaches test rest _

/-- The trials by which a descent takes steps of `k`. -/
def multiples (test : Trial τ) (k base : Nat) : Trial (Descent τ) := fun n =>
  if n * k ≤ base then consider test (base - n * k) else return false

theorem lowerByMultiples_apply (test : Trial τ) (k : Nat) (d : Descent τ) :
    (lowerByMultiples test k d).2 = (findInteger (multiples test k d.current) d).2 := rfl

theorem reaches_of_multiples {k base : Nat} (h : Trial.Reaches (multiples test k base) d d') :
    Reaches test d d' := by
  refine h.lift' id ?_
  rintro d₁ _ ⟨n, rfl⟩
  unfold multiples
  split
  · exact reaches_trial _ _ _
  · exact .refl

theorem lowerByMultiples_reaches (test : Trial τ) (k : Nat) (d : Descent τ) :
    Reaches test d (lowerByMultiples test k d).2 := by
  rw [lowerByMultiples_apply]
  exact reaches_of_multiples (findInteger_reaches _ d)

theorem lowerByMultiples_probed (test : Trial τ) {k : Nat} {d : Descent τ} (h : k ≤ d.current) :
    Probed test (d.current - k) d (lowerByMultiples test k d).2 := by
  obtain ⟨d₁, h₁, h₂⟩ := findInteger_probed (multiples test k d.current) d
  refine ⟨d₁, reaches_of_multiples h₁, ?_⟩
  rw [lowerByMultiples_apply]
  rw [multiples, Nat.one_mul, if_pos h] at h₂
  exact reaches_of_multiples h₂

/-- A descent after its trials of single parts of the best number. -/
def afterParts (test : Trial τ) (d : Descent τ) : Descent τ :=
  let d := (considerFirst test (maskings d.current) d).2
  if 8 < bitLength d.current then
    let d' := (consider test (d.current / 2 ^ (bitLength d.current - 8)) d).2
    (consider test (d'.current % 256) d').2
  else d

theorem afterParts_reaches (test : Trial τ) (d : Descent τ) :
    Reaches test d (afterParts test d) := by
  refine (considerFirst_reaches test (maskings d.current) d).trans ?_
  unfold afterParts
  dsimp only
  split
  · exact (reaches_trial _ _ _).trans (reaches_trial _ _ _)
  · exact .refl

theorem shortCut_apply (test : Trial τ) (d : Descent τ) :
    shortCut test d =
      if (consider test 0 d).1 then (true, (consider test 0 d).2)
      else
        let d₀ := (consider test 0 d).2
        if (consider test 1 d₀).1 then (true, (consider test 1 d₀).2)
        else
          let d₂ := afterParts test (consider test 1 d₀).2
          (d₂.current == 2, d₂) := by
  rw [shortCut, bind_apply]
  split
  · rfl
  · dsimp only
    rw [bind_apply]
    split
    · rfl
    · generalize (consider test 1 (consider test 0 d).2).2 = d₁
      rw [afterParts]
      by_cases h : 8 < bitLength (considerFirst test (maskings d₁.current) d₁).2.current
      · rw [if_pos h]
        exact congrFun (if_pos h) _
      · rw [if_neg h]
        exact congrFun (if_neg h) _

/-- Short cuts that have not lowered the best number have tried zero, and one if that is lower. They
leave nothing to do only if the number is at most two. -/
theorem shortCut_spec (test : Trial τ) (d : Descent τ) :
    Reaches test d (shortCut test d).2 ∧
      ((shortCut test d).2.current = d.current → 0 < d.current →
        Probed test 0 d (shortCut test d).2 ∧
          (2 ≤ d.current → Probed test 1 d (shortCut test d).2) ∧
          ((shortCut test d).1 = true → d.current ≤ 2)) := by
  have h₀ := reaches_trial (consider test) 0 d
  have h₁ := reaches_trial (consider test) 1 (consider test 0 d).2
  have h₂ := afterParts_reaches test (consider test 1 (consider test 0 d).2).2
  rw [shortCut_apply]
  dsimp only
  split
  · rename_i ht
    dsimp only
    refine ⟨h₀, fun he hpos => ?_⟩
    rw [current_consider, if_pos ht] at he
    omega
  · split
    · rename_i ht
      dsimp only
      refine ⟨h₀.trans h₁, fun he hpos => ?_⟩
      rw [current_consider, if_pos ht] at he
      exact ⟨⟨d, .refl, h₁⟩, fun _ => by omega, fun _ => by omega⟩
    · dsimp only
      refine ⟨h₀.trans (h₁.trans h₂), fun he hpos => ?_⟩
      refine ⟨⟨d, .refl, h₁.trans h₂⟩, fun _ => ⟨_, h₀, h₂⟩, fun hd => ?_⟩
      rw [he, beq_iff_eq] at hd
      omega

/-! ## Rounds of lowering -/

theorem lowerOnce_apply (test : Trial τ) (d : Descent τ) :
    (lowerOnce test d).2 =
      (lowerByMultiples test 1
        (lowerByMultiples test 2 (considerFirst test (shifts d.current) d).2).2).2 := by
  rw [lowerOnce, bind_apply, bind_apply, bind_apply]
  rfl

theorem lowerOnce_reaches (test : Trial τ) (d : Descent τ) :
    Reaches test d (lowerOnce test d).2 := by
  rw [lowerOnce_apply]
  exact (considerFirst_reaches test _ d).trans
    ((lowerByMultiples_reaches test 2 _).trans (lowerByMultiples_reaches test 1 _))

/-- Half a number is the first of its shifts. -/
theorem shifts_eq_cons {n : Nat} (h : 2 ≤ n) : ∃ rest, shifts n = n / 2 :: rest := by
  have hn : 1 < bitLength n := by
    rw [bitLength, if_neg (by omega)]
    have := (Nat.le_log2 (by omega : n ≠ 0)).2 (show 2 ^ 1 ≤ n from h)
    omega
  obtain ⟨k, hk⟩ : ∃ k, bitLength n - 1 = k + 1 := ⟨bitLength n - 2, by omega⟩
  refine ⟨(List.range k).map fun i => n / 2 ^ (i + 1 + 1), ?_⟩
  rw [shifts, hk, List.range_succ_eq_map, List.map_cons, List.map_map]
  rfl

/-- A round that has not lowered the best number has tried half of it and the number before. -/
theorem lowerOnce_probed (test : Trial τ) {d : Descent τ} (h : 2 ≤ d.current)
    (he : (lowerOnce test d).2.current = d.current) :
    Probed test (d.current / 2) d (lowerOnce test d).2 ∧
      Probed test (d.current - 1) d (lowerOnce test d).2 := by
  have hr := lowerOnce_reaches test d
  rw [lowerOnce_apply] at he ⊢
  obtain ⟨rest, hs⟩ := shifts_eq_cons h
  have h₁ := considerFirst_reaches test (shifts d.current) d
  have h₂ := lowerByMultiples_reaches test 2 (considerFirst test (shifts d.current) d).2
  generalize hd : (lowerByMultiples test 2 (considerFirst test (shifts d.current) d).2).2 = d₂ at *
  have h₃ := lowerByMultiples_reaches test 1 d₂
  refine ⟨?_, ?_⟩
  · have hp := considerFirst_probed test (d.current / 2) rest d
    rw [← hs] at hp
    exact hp.reaches (h₂.trans h₃)
  · have hc : d₂.current = d.current := by
      have := Reaches.current_le h₁
      have := Reaches.current_le h₂
      have := Reaches.current_le h₃
      omega
    have hp := lowerByMultiples_probed test (k := 1) (d := d₂) (by omega)
    rw [hc] at hp
    exact hp.of_reaches (h₁.trans h₂)

theorem lower_reaches (test : Trial τ) (d : Descent τ) : Reaches test d (lower test d) := by
  induction hn : d.current using Nat.strongRecOn generalizing d with
  | _ n ih =>
    rw [lower]
    split
    · rename_i hlt
      exact (lowerOnce_reaches test d).trans (ih _ (by omega) _ rfl)
    · exact lowerOnce_reaches test d

/-- A descent that has not lowered its number stopped after the first round. -/
theorem lower_eq_lowerOnce (test : Trial τ) {d : Descent τ}
    (he : (lower test d).current = d.current) : lower test d = (lowerOnce test d).2 := by
  rw [lower] at he ⊢
  split
  · rename_i hlt
    rw [dif_pos hlt] at he
    have := Reaches.current_le (lower_reaches test (lowerOnce test d).2)
    omega
  · rfl

end Descent

/-! ## Small numbers -/

section Minimize

open Descent

variable {τ : Type} (test : Trial τ) (start : Nat) (w : τ)

/-- The end of a search for a small number. -/
def descended : Descent τ :=
  if (shortCut test ⟨start, w⟩).1 then (shortCut test ⟨start, w⟩).2
  else lower test (shortCut test ⟨start, w⟩).2

theorem minimizeInteger_apply :
    minimizeInteger test start w =
      ((descended test start w).current, (descended test start w).world) := rfl

theorem descended_reaches : Descent.Reaches test ⟨start, w⟩ (descended test start w) := by
  have h := (shortCut_spec test ⟨start, w⟩).1
  unfold descended
  split
  · exact h
  · exact h.trans (lower_reaches test _)

theorem minimizeInteger_reaches : test.Reaches w (minimizeInteger test start w).2 := by
  rw [minimizeInteger_apply]
  exact Reaches.world (descended_reaches test start w)

/-- A search that has not lowered its number has considered zero, the number before, and half the
number. -/
theorem descended_probed (he : (descended test start w).current = start) (hpos : 0 < start) :
    ∀ n ∈ [0, start - 1, start / 2], Descent.Probed test n ⟨start, w⟩ (descended test start w) := by
  obtain ⟨-, hp⟩ := shortCut_spec test ⟨start, w⟩
  have hs := Reaches.current_le (shortCut_spec test ⟨start, w⟩).1
  have hl := lower_reaches test (shortCut test ⟨start, w⟩).2
  have hle := Reaches.current_le hl
  intro n hn
  simp only [List.mem_cons, List.not_mem_nil, or_false] at hn
  unfold descended at he ⊢
  split
  · rename_i hd
    rw [if_pos hd] at he
    obtain ⟨h₀, h₁, h₂⟩ := hp he hpos
    have : start ≤ 2 := h₂ hd
    rcases (by omega : n = 0 ∨ n = 1 ∧ 2 ≤ start) with rfl | ⟨rfl, h⟩
    · exact h₀
    · exact h₁ h
  · rename_i hd
    rw [if_neg hd] at he
    have hc : (shortCut test ⟨start, w⟩).2.current = start := by
      dsimp only at hs
      omega
    have h₀ := (hp hc hpos).1.reaches hl
    rcases (by omega : n = 0 ∨ 2 ≤ start ∧ (n = start / 2 ∨ n = start - 1)) with rfl | ⟨h, h'⟩
    · exact h₀
    · -- What is left was one round of lowering, from the first number.
      have honce := lower_eq_lowerOnce test (he.trans hc.symm)
      rw [honce] at he ⊢
      obtain ⟨h₂, h₁⟩ := lowerOnce_probed test (d := (shortCut test ⟨start, w⟩).2) (by omega)
        (he.trans hc.symm)
      rw [hc] at h₁ h₂
      rcases h' with rfl | rfl
      · exact h₂.of_reaches (shortCut_spec test ⟨start, w⟩).1
      · exact h₁.of_reaches (shortCut_spec test ⟨start, w⟩).1

/-- A search for a small number has found a lower one by a trial, or it has tried zero, the number
before, and half the number. -/
theorem minimizeInteger_cases (hpos : 0 < start) :
    (∃ n < start, ∃ w₁, test.Reaches w w₁ ∧ (test n w₁).1 = true ∧
      test.Reaches (test n w₁).2 (minimizeInteger test start w).2) ∨
    ∀ n ∈ [0, start - 1, start / 2], test.Probed n w (minimizeInteger test start w).2 := by
  have hr := descended_reaches test start w
  rw [minimizeInteger_apply]
  rcases Nat.lt_or_eq_of_le (Reaches.current_le hr) with h | h
  · exact .inl (Reaches.accepted hr h)
  · refine .inr fun n hn => probed_world (descended_probed test start w h hpos n hn) h ?_
    simp only [List.mem_cons, List.not_mem_nil, or_false] at hn
    show n < start
    omega

end Minimize

end Falsify
