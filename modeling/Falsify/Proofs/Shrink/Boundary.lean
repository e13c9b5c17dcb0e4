import Mathlib.Data.Nat.Find
import Falsify.Proofs.Shrink.Mirror
import Falsify.Proofs.Shrink.Rounds

/-!
# Where a test turns

A search for a number whose successor will not do keeps two ends: a lower one that is zero or will
do, and a higher one that will not do, with nothing probed in between (`Bracket`). Each probe falls
between the ends and takes the place of one of them, whatever the answer. So no number is probed
twice, and in the end the two are neighbours. The doubling stops at `rung 61`, since a word does not
hold the next rung; if even that one will do, nothing need be known of its successor.

* `Trial.recording`: a test with a record of its probes;
* `Bracket.probe`: what a probe does to the ends;
* `bisect_bracket`: halving a gap ends with neighbours, after as many probes as the gap has bits;
* `gallop_settled`, `findInteger_settled`: so does the search, after a number of probes that is
  logarithmic in its result;
* `findInteger_boundary`: the theorem for any test;
* `findInteger_largest`: the theorem for tests that all numbers up to one pass.
-/

namespace Falsify

/-- A test with a record of its probes and their answers, the first probe first. -/
def Trial.recording {τ : Type} (f : Trial τ) : Trial (τ × List (Nat × Bool)) := fun n s =>
  ((f n s.1).1, (f n s.1).2, s.2 ++ [(n, (f n s.1).1)])

/-! ## Doubling -/

/-- The numbers that doubling comes to. -/
def rung (k : Nat) : Nat := 5 * 2 ^ k

theorem two_mul_rung (k : Nat) : 2 * rung k = rung (k + 1) := by
  rw [rung, rung, Nat.pow_succ]
  omega

theorem le_rung (k : Nat) : 2 ^ (k + 2) ≤ rung k := by
  rw [rung, Nat.pow_add]
  omega

theorem rung_sub_le (k : Nat) : rung (k + 1) - rung k ≤ 2 ^ (k + 3) := by
  rw [← two_mul_rung, rung, Nat.pow_add]
  omega

theorem rung_mono {k j : Nat} (h : k ≤ j) : rung k ≤ rung j :=
  Nat.mul_le_mul_left 5 (Nat.pow_le_pow_right (by decide) h)

/-- The highest number that is ever probed. A word does not hold twice as much. -/
abbrev highestProbe : Nat := rung 61

/-! ## The two ends -/

/-- What the probes so far tell of two ends: the lower one is zero or will do, the higher one is out
of reach or will not do, and what was probed lies outside of them and was probed once. -/
structure Bracket (low high : Nat) (probes : List (Nat × Bool)) : Prop where
  reach : high ≤ highestProbe + 1
  accepted : low = 0 ∨ (low, true) ∈ probes
  refused : high = highestProbe + 1 ∨ (high, false) ∈ probes
  outside : ∀ n ∈ probes.map Prod.fst, 1 ≤ n ∧ n ≤ highestProbe ∧ (n ≤ low ∨ high ≤ n)
  distinct : (probes.map Prod.fst).Nodup

theorem bracket_start : Bracket 0 (highestProbe + 1) [] :=
  ⟨Nat.le_refl _, .inl rfl, .inl rfl, nofun, .nil⟩

/-- A number between the ends that is probed takes the place of one of them. -/
theorem Bracket.probe {low high n : Nat} {probes : List (Nat × Bool)} (h : Bracket low high probes)
    (hlow : low < n) (hhigh : n < high) (answer : Bool) :
    Bracket (if answer then n else low) (if answer then high else n) (probes ++ [(n, answer)]) := by
  have hreach := h.reach
  have hlast : (n, answer) ∈ probes ++ [(n, answer)] := List.mem_append_right _ List.mem_cons_self
  have hbefore {e : Nat × Bool} (he : e ∈ probes) : e ∈ probes ++ [(n, answer)] :=
    List.mem_append_left _ he
  refine ⟨?_, ?_, ?_, ?_, ?_⟩
  · split <;> omega
  · cases answer with
    | true => exact .inr hlast
    | false => exact h.accepted.imp_right hbefore
  · cases answer with
    | true => exact h.refused.imp_right hbefore
    | false => exact .inr hlast
  · intro m hm
    rw [List.map_append, List.mem_append] at hm
    rcases hm with hm | hm
    · have := h.outside m hm
      split <;> omega
    · rw [List.map_singleton, List.mem_singleton] at hm
      split <;> omega
  · rw [List.map_append, List.map_singleton]
    refine List.nodup_append.2 ⟨h.distinct, List.pairwise_singleton _ n, fun m hm m' hm' he => ?_⟩
    have := h.outside m hm
    rw [List.mem_singleton] at hm'
    omega

/-- A search has come to an end: the ends are neighbours, and the probes are few. -/
structure Settled (r : Nat) (probes : List (Nat × Bool)) : Prop where
  bracket : Bracket r (r + 1) probes
  few : probes.length ≤ 2 * Nat.log2 (max r 1) + 5

theorem few_of_le {k r calls : Nat} (hr : 2 ^ (k + 1) ≤ r) (hcalls : calls ≤ 2 * k + 7) :
    calls ≤ 2 * Nat.log2 (max r 1) + 5 := by
  have hpos := Nat.two_pow_pos (k + 1)
  rw [Nat.max_eq_left (by omega)]
  have := (Nat.le_log2 (by omega)).2 hr
  omega

/-! ## One probe of the search -/

section Step

variable {τ : Type} {f : Trial τ} {low high : Nat} {w w' : τ} {answer : Bool}

/-- The middle takes the place of one of the ends. -/
theorem bisect_step (hlt : low + 1 < high) (h : f (low + (high - low) / 2) w = (answer, w')) :
    bisect f low high w = bisect f (if answer then low + (high - low) / 2 else low)
      (if answer then high else low + (high - low) / 2) w' := by
  rw [bisect, dif_pos hlt, Trial.bind_apply, h]
  cases answer <;> rfl

theorem gallop_step (h : f high w = (answer, w')) :
    gallop f low high w =
      if answer then
        if high < 2 * high ∧ 2 * high < wordLimit then gallop f high (2 * high) w' else (high, w')
      else bisect f low high w' := by
  rw [gallop, Trial.bind_apply, h]
  cases answer with
  | false => rfl
  | true =>
    by_cases hd : high < 2 * high ∧ 2 * high < wordLimit
    · rw [if_pos rfl, if_pos rfl, if_pos hd, dif_pos hd]
    · rw [if_pos rfl, if_pos rfl, if_neg hd, dif_neg hd]
      rfl

theorem stepFrom_step {i steps : Nat} (h : f (i + 1) w = (answer, w')) :
    stepFrom f (i + 1) (steps + 1) w =
      if answer then stepFrom f (i + 1 + 1) steps w' else (i, w') := by
  rw [stepFrom, Trial.bind_apply, h]
  cases answer <;> rfl

theorem recording_apply (f : Trial τ) (n : Nat) (w : τ) (probes : List (Nat × Bool)) :
    f.recording n (w, probes) = ((f n w).1, (f n w).2, probes ++ [(n, (f n w).1)]) := rfl

end Step

/-! ## The whole search -/

section Find

variable {τ : Type} (f : Trial τ) {low high k : Nat} {probes : List (Nat × Bool)}

/-- Halving a gap of at most `2 ^ k` takes `k` probes at most. -/
theorem bisect_bracket (h : Bracket low high probes) (hlt : low < high)
    (hgap : high - low ≤ 2 ^ k) (w : τ) :
    let found := bisect f.recording low high (w, probes)
    low ≤ found.1 ∧ Bracket found.1 (found.1 + 1) found.2.2 ∧
      found.2.2.length ≤ probes.length + k := by
  induction k generalizing low high probes w with
  | zero =>
    obtain rfl : high = low + 1 := by omega
    rw [bisect, dif_neg (Nat.lt_irrefl _)]
    exact ⟨Nat.le_refl _, h, Nat.le_refl _⟩
  | succ k ih =>
    by_cases hnext : low + 1 < high
    · have hprobed := h.probe (n := low + (high - low) / 2) (by omega) (by omega)
      rw [bisect_step hnext (recording_apply f _ w probes)]
      obtain ⟨hle, hb, hcalls⟩ := ih (hprobed (f (low + (high - low) / 2) w).1) (by split <;> omega)
        (by split <;> omega) (f (low + (high - low) / 2) w).2
      refine ⟨Nat.le_trans (by split <;> omega) hle, hb, ?_⟩
      rw [List.length_append, List.length_singleton] at hcalls
      omega
    · obtain rfl : high = low + 1 := by omega
      rw [bisect, dif_neg hnext]
      exact ⟨Nat.le_refl _, h, Nat.le_add_right _ _⟩

/-- The next probe is a rung, and the lower end is at least `2 ^ (k + 1)`, which pays for the probes
so far and for those of halving the gap up to the rung. -/
theorem gallop_settled (hk : k ≤ 61) (h : Bracket low (highestProbe + 1) probes)
    (hlow : 2 ^ (k + 1) ≤ low) (hlt : low < rung k) (hgap : rung k - low ≤ 2 ^ (k + 2))
    (hcalls : probes.length ≤ k + 4) (w : τ) :
    let found := gallop f.recording low (rung k) (w, probes)
    Settled found.1 found.2.2 := by
  -- The induction is on the rungs that are left.
  induction hn : 61 - k using Nat.strongRecOn generalizing low k probes w with
  | _ n ih =>
    have hprobed := h.probe hlt (Nat.lt_succ_of_le (rung_mono hk))
    have hcalls' (b : Bool) : (probes ++ [(rung k, b)]).length ≤ k + 5 := by
      rw [List.length_append, List.length_singleton]
      omega
    rw [gallop_step (recording_apply f _ w probes)]
    cases (f (rung k) w).1 with
    | false =>
      have hrefused : Bracket low (rung k) (probes ++ [(rung k, false)]) := hprobed false
      obtain ⟨hle, hb, hfew⟩ := bisect_bracket f hrefused hlt hgap (f (rung k) w).2
      have := hcalls' false
      rw [if_neg Bool.false_ne_true]
      exact ⟨hb, few_of_le (Nat.le_trans hlow hle) (by omega)⟩
    | true =>
      have haccepted : Bracket (rung k) (highestProbe + 1) (probes ++ [(rung k, true)]) :=
        hprobed true
      rw [if_pos rfl, two_mul_rung]
      rcases Nat.eq_or_lt_of_le hk with rfl | hlast
      · -- A word does not hold the next rung, so the ends are neighbours out of reach.
        rw [if_neg (by decide)]
        change Settled (rung 61) (probes ++ [(rung 61, true)])
        exact ⟨haccepted, few_of_le (k := 61) (by decide) (Nat.le_trans (hcalls' true) (by decide))⟩
      · have hword : rung (k + 1) < wordLimit :=
          Nat.lt_of_le_of_lt (rung_mono hlast) (by decide : rung 61 < wordLimit)
        have hup : rung k < rung (k + 1) := by
          have := le_rung k
          have := Nat.two_pow_pos (k + 2)
          rw [← two_mul_rung]
          omega
        rw [if_pos ⟨hup, hword⟩]
        exact ih _ (by omega) hlast haccepted (le_rung k) hup (rung_sub_le k) (hcalls' true)
          (f (rung k) w).2 rfl

/-- As many numbers were accepted in turn as were probed. -/
theorem stepFrom_settled {i steps : Nat} (hsum : i + steps = 4)
    (h : Bracket i (highestProbe + 1) probes) (hcalls : probes.length = i) (w : τ) :
    let found := stepFrom f.recording (i + 1) steps (w, probes)
    Settled found.1 found.2.2 := by
  induction steps generalizing i probes w with
  | zero =>
    obtain rfl : i = 4 := hsum
    exact gallop_settled f (k := 0) (Nat.zero_le _) h (by decide) (by decide) (by decide)
      (Nat.le_of_eq hcalls) w
  | succ steps ih =>
    have hreach : 4 < highestProbe := by decide
    have hprobed := h.probe (Nat.lt_add_one i) (by omega)
    have hcalls' (b : Bool) : (probes ++ [(i + 1, b)]).length = i + 1 := by
      rw [List.length_append, List.length_singleton, hcalls]
    rw [stepFrom_step (recording_apply f _ w probes)]
    cases (f (i + 1) w).1 with
    | false =>
      rw [if_neg Bool.false_ne_true]
      exact ⟨hprobed false, Nat.le_trans (Nat.le_of_eq (hcalls' false)) (by omega)⟩
    | true =>
      rw [if_pos rfl]
      exact ih (i := i + 1) (by omega) (hprobed true) (hcalls' true) (f (i + 1) w).2

theorem findInteger_settled (w : τ) :
    let found := findInteger f.recording (w, [])
    Settled found.1 found.2.2 :=
  stepFrom_settled f (Nat.zero_add 4) bracket_start rfl w

/-- A record has no influence on the search. -/
theorem findInteger_recording (w : τ) :
    let found := findInteger f.recording (w, [])
    findInteger f w = (found.1, found.2.1) :=
  let plain : Mirror (τ × List (Nat × Bool)) τ := ⟨fun _ => True, Prod.fst⟩
  (plain.reflects_findInteger (f := f.recording) (g := f) (fun _ _ _ => ⟨trivial, rfl⟩)
    (w, []) trivial).2

/-- What is recorded was answered. -/
theorem recorded_answers {w : τ} {s : τ × List (Nat × Bool)} (h : f.recording.Reaches (w, []) s) :
    ∀ e ∈ s.2, ∃ w', (f e.1 w').1 = e.2 := by
  induction h with
  | refl => nofun
  | @tail s _ _ hstep ih =>
    obtain ⟨n, rfl⟩ := hstep
    exact List.forall_mem_append.2 ⟨ih, List.forall_mem_singleton.2 ⟨s.1, rfl⟩⟩

end Find

/-- The search for a number whose successor will not do, for any test, whatever its answers depend
on. It ends, with zero or with a number that was accepted. The next number was refused, unless the
result is the last one that doubling comes to. No number is probed twice, and the probes are
logarithmic in the result. -/
theorem findInteger_boundary {τ : Type} (f : Trial τ) (w : τ) :
    let found := findInteger f.recording (w, [])
    let r := found.1
    let probes := found.2.2
    findInteger f w = (r, found.2.1) ∧
    (∀ rounds, wordLimit ≤ rounds → findIntegerWithin f rounds w = some (r, found.2.1)) ∧
    (∀ n ∈ probes.map Prod.fst, 1 ≤ n ∧ n < wordLimit) ∧
    (r = 0 ∨ (r, true) ∈ probes) ∧ (r = 5 * 2 ^ 61 ∨ (r + 1, false) ∈ probes) ∧
    (probes.map Prod.fst).Nodup ∧ probes.length ≤ 2 * Nat.log2 (max r 1) + 5 := by
  intro found r probes
  obtain ⟨hb, hfew⟩ := findInteger_settled f w
  have hplain : findInteger f w = (r, found.2.1) := findInteger_recording f w
  have hword : highestProbe < wordLimit := by decide
  refine ⟨hplain, fun rounds h => ?_, fun n hn => ?_, hb.accepted, ?_, hb.distinct, hfew⟩
  · rw [findIntegerWithin_eq f h, hplain]
  · have := hb.outside n hn
    exact ⟨this.1, Nat.lt_of_le_of_lt this.2.1 hword⟩
  · exact hb.refused.imp_left Nat.succ.inj

/-! ## Tests that all numbers up to one pass -/

section Threshold

variable {τ : Type} (f : Trial τ) {p : UInt64 → Bool}

/-- A test that has one answer for each word turns where the search ends, unless the search ends
with the last number that doubling comes to. -/
theorem findInteger_turns (hf : ∀ (n : UInt64) w, (f n.toNat w).1 = p n) (hzero : p 0 = true)
    (w : τ) :
    let r := (findInteger f w).1
    r ≤ highestProbe ∧ p (.ofNat r) = true ∧ (r = highestProbe ∨ p (.ofNat (r + 1)) = false) := by
  intro r
  have hb := (findInteger_settled f w).bracket
  have hrecord := recorded_answers f (findInteger_reaches f.recording (w, []))
  have hr : (findInteger f.recording (w, [])).1 = r :=
    (congrArg Prod.fst (findInteger_recording f w)).symm
  rw [hr] at hb
  have hword : highestProbe + 1 < UInt64.size := by decide
  have hreach := hb.reach
  have hanswer {n : Nat} {b : Bool} (hn : n < UInt64.size)
      (he : (n, b) ∈ (findInteger f.recording (w, [])).2.2) : p (.ofNat n) = b := by
    obtain ⟨w', hw'⟩ := hrecord _ he
    rw [← hf (.ofNat n) w', UInt64.toNat_ofNat_of_lt' hn]
    exact hw'
  refine ⟨by omega, ?_, ?_⟩
  · rcases hb.accepted with h | h
    · rw [h]
      exact hzero
    · exact hanswer (by omega) h
  · exact hb.refused.imp Nat.succ.inj (hanswer (by omega))

theorem exists_largest (hzero : p 0 = true) :
    ∃ largest, p largest = true ∧ ∀ n, p n = true → n ≤ largest := by
  let P (n : Nat) : Prop := p (.ofNat n) = true
  have hle : Nat.findGreatest P (2 ^ 64 - 1) < 2 ^ 64 :=
    Nat.lt_of_le_of_lt (Nat.findGreatest_le _) (by decide)
  refine ⟨.ofNat (Nat.findGreatest P (2 ^ 64 - 1)), Nat.findGreatest_spec (P := P) (Nat.zero_le _)
    hzero, fun n hn => ?_⟩
  rw [UInt64.le_iff_toNat_le, UInt64.toNat_ofNat_of_lt' hle]
  refine Nat.le_findGreatest (Nat.le_sub_one_of_lt n.toNat_lt) ?_
  change p (.ofNat n.toNat) = true
  rwa [UInt64.ofNat_toNat]

end Threshold

/-- If zero passes a test and so does what is below a number that passes, the search finds the
largest number that passes, or the last one that doubling comes to if the largest is higher. -/
theorem findInteger_largest {τ : Type} (f : Trial τ) (p : UInt64 → Bool)
    (hf : ∀ (n : UInt64) w, (f n.toNat w).1 = p n) (hzero : p 0 = true)
    (hdown : ∀ m n, m < n → p n = true → p m = true) (w : τ) :
    ∃ largest, p largest = true ∧ (∀ n, p n = true → n ≤ largest) ∧
      (findInteger f w).1 = min largest.toNat (5 * 2 ^ 61) := by
  obtain ⟨largest, hlargest, hmax⟩ := exists_largest hzero
  obtain ⟨hreach, hpass, hturn⟩ := findInteger_turns f hf hzero w
  refine ⟨largest, hlargest, hmax, ?_⟩
  generalize (findInteger f w).1 = r at hreach hpass hturn ⊢
  have hword : highestProbe + 1 < UInt64.size := by decide
  have hle : r ≤ largest.toNat := by
    have := UInt64.le_iff_toNat_le.1 (hmax _ hpass)
    rwa [UInt64.toNat_ofNat_of_lt' (by omega)] at this
  rcases hturn with hlast | hturn
  · rw [hlast] at hle ⊢
    exact (Nat.min_eq_right hle).symm
  · -- The largest number is not above `r`, since then the number after `r` would pass too.
    have hnot : ¬ r < largest.toNat := fun hlt => by
      have hnext : UInt64.ofNat (r + 1) ≤ largest := by
        rw [UInt64.le_iff_toNat_le, UInt64.toNat_ofNat_of_lt' (by omega)]
        exact hlt
      have hyes : p (.ofNat (r + 1)) = true := by
        rcases UInt64.lt_or_eq_of_le hnext with h | h
        · exact hdown _ _ h hlargest
        · rwa [h]
      rw [hturn] at hyes
      cases hyes
    have : r ≤ 5 * 2 ^ 61 := hreach
    omega

/-- A test that counts its calls and is passed by the numbers up to `bound`. -/
def Trial.upTo (bound : Nat) : Trial Nat := fun n calls => (decide (n ≤ bound), calls + 1)

theorem findInteger_largest_half :
    let p : UInt64 → Bool := fun n => decide (n.toNat ≤ 2 ^ 63)
    (∀ (n : UInt64) calls, (Trial.upTo (2 ^ 63) n.toNat calls).1 = p n) ∧ p 0 = true ∧
      (∀ m n, m < n → p n = true → p m = true) ∧
      (findInteger (.upTo (2 ^ 63)) 0).1 = 2 ^ 63 := by
  intro p
  have hdown : ∀ m n, m < n → p n = true → p m = true := fun m n hlt hn => by
    have := UInt64.lt_iff_toNat_lt.1 hlt
    exact decide_eq_true (Nat.le_trans (Nat.le_of_lt this) (of_decide_eq_true hn))
  obtain ⟨largest, hlargest, hmax, hr⟩ :=
    findInteger_largest (.upTo (2 ^ 63)) p (fun _ _ => rfl) rfl hdown 0
  have hhigh : largest.toNat ≤ 2 ^ 63 := of_decide_eq_true hlargest
  have hlow : 2 ^ 63 ≤ largest.toNat := by
    have := UInt64.le_iff_toNat_le.1 (hmax (.ofNat (2 ^ 63)) (by decide))
    rwa [UInt64.toNat_ofNat_of_lt' (by decide)] at this
  refine ⟨fun _ _ => rfl, rfl, hdown, ?_⟩
  rw [hr]
  omega

/-- If all words pass, the search ends with a number that is not the largest. -/
theorem findInteger_not_largest :
    let p : UInt64 → Bool := fun _ => true
    let r := (findInteger (fun n => return p (.ofNat n)) ()).1
    p 0 = true ∧ (∀ m n, m < n → p n = true → p m = true) ∧ r = 5 * 2 ^ 61 ∧
      ∃ n, p n = true ∧ r < n.toNat := by
  intro p r
  obtain ⟨-, -, hturn⟩ := findInteger_turns (fun n => return p (.ofNat n)) (p := p)
    (fun _ _ => rfl) rfl ()
  have hr : r = 5 * 2 ^ 61 := hturn.resolve_right Bool.noConfusion
  exact ⟨rfl, fun _ _ _ _ => rfl, hr, .ofNat (2 ^ 64 - 1), rfl, hr ▸ by decide⟩

end Falsify
