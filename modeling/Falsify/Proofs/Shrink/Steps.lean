import Falsify.Proofs.Shrink.Neighbours
import Falsify.Proofs.Shrink.Trials

/-!
# Passes consist of steps

Whatever a pass of a search does, it does by considering edits of the current sequence. So
a whole search is some such steps, one after another (`Search.Reaches`), and a fact about
searches is proved for one step (`Search.Step`) and follows for every pass.

* `reaches_deleteBlocks`, `reaches_minimizeInteger`: the two loops over candidates;
* `reaches_runPass`, `reaches_repeatPass`, `reaches_cycle`, `reaches_run`: passes and runs;
* `Reaches.through_foldl`: a fold comes by each of its members;
* `considered`: all that a step can come to;
* `Reaches.extends`: what steps leave of the current sequence, of what was seen, and of the
  budget.
-/

namespace Falsify

/-- The edits that the passes try. -/
inductive Draws.Edit (s : Draws) : Draws → Prop where
  | delete (i j : Nat) : s.Edit (s.withoutRange i j)
  | swap (i j : Nat) : s.Edit (s.swapped i j)
  | lower (positions : List Nat) (value : UInt64) : s.Edit (s.withValueAt positions value)

namespace Search

variable {σ : Type} {o : Oracle σ} {b : ShrinkBudget} {s t u : Search σ}

/-- An edit of the current sequence is considered. -/
def Step (o : Oracle σ) (b : ShrinkBudget) (s t : Search σ) : Prop :=
  ∃ c, s.current.Edit c ∧ t = (s.consider o b c).2

/-- Some steps, one after another. -/
abbrev Reaches (o : Oracle σ) (b : ShrinkBudget) : Search σ → Search σ → Prop :=
  Relation.ReflTransGen (Step o b)

theorem reaches_consider {c : Draws} (h : s.current.Edit c) :
    Reaches o b s (s.consider o b c).2 :=
  .single ⟨c, h, rfl⟩

/-! ## Folds -/

section Folds

variable {α : Type} {f : Search σ → α → Search σ}

theorem reaches_foldl (h : ∀ s a, Reaches o b s (f s a)) (l : List α) (s : Search σ) :
    Reaches o b s (l.foldl f s) := by
  induction l generalizing s with
  | nil => exact .refl
  | cons a l ih => exact (h s a).trans (ih _)

/-- A fold of steps takes each of its members at some point. -/
theorem Reaches.through_foldl (h : ∀ s a, Reaches o b s (f s a)) {l : List α} {a : α} (ha : a ∈ l)
    (s : Search σ) : ∃ t, Reaches o b s t ∧ Reaches o b (f t a) (l.foldl f s) := by
  induction l generalizing s with
  | nil => cases ha
  | cons x l ih =>
    rcases List.mem_cons.1 ha with rfl | ha
    · exact ⟨s, .refl, reaches_foldl h l _⟩
    · obtain ⟨t, ht, h'⟩ := ih ha (f s x)
      exact ⟨t, (h s x).trans ht, h'⟩

end Folds

/-! ## Loops -/

theorem deleteBlocks_of_consider {size i : Nat} {s' : Search σ} {r : Bool}
    (hc : 0 < size ∧ i + size ≤ s.current.length ∧ s.exhausted = false)
    (he : s.consider o b (s.current.withoutRange i (i + size)) = (r, s')) :
    s.deleteBlocks o b size i = s'.deleteBlocks o b size (if r then i else i + 1) := by
  rw [deleteBlocks, dif_pos hc]
  split <;> cases he.symm.trans ‹_› <;> rfl

theorem reaches_deleteBlocks (size i : Nat) (s : Search σ) :
    Reaches o b s (s.deleteBlocks o b size i) := by
  fun_induction deleteBlocks with
  | case1 i s h s' hc ih =>
    have := reaches_consider (o := o) (b := b) (s := s) (.delete i (i + size))
    rw [hc] at this
    exact this.trans ih
  | case2 i s h s' hc ih =>
    have := reaches_consider (o := o) (b := b) (s := s) (.delete i (i + size))
    rw [hc] at this
    exact this.trans ih
  | case3 => exact .refl

theorem reaches_considerValue (positions : List Nat) (value : Nat) (s : Search σ) :
    Reaches o b s (considerValue o b positions value s).2 := by
  unfold considerValue
  split
  · exact reaches_consider (.lower _ _)
  · exact .refl

/-- Trials of values at some positions are steps. -/
theorem Reaches.of_trials {positions : List Nat}
    (h : Trial.Reaches (considerValue o b positions) s t) : Reaches o b s t := by
  refine h.lift' id ?_
  rintro s _ ⟨n, rfl⟩
  exact reaches_considerValue positions n s

theorem reaches_minimizeInteger (positions : List Nat) (start : Nat) (s : Search σ) :
    Reaches o b s (minimizeInteger (considerValue o b positions) start s).2 :=
  .of_trials (minimizeInteger_reaches _ start s)

/-! ## Passes -/

/-- How a position is treated when draws are minimized one by one. -/
def minimizeAt (o : Oracle σ) (b : ShrinkBudget) (s : Search σ) (i : Nat) : Search σ :=
  match s.exhausted, s.current[i]? with
  | false, some draw =>
    if draw.value = 0 then s
    else (minimizeInteger (considerValue o b [i]) draw.value.toNat s).2
  | _, _ => s

/-- How a position is treated when draws are put in order. -/
def reorderAt (o : Oracle σ) (b : ShrinkBudget) (s : Search σ) (i : Nat) : Search σ :=
  if s.exhausted = false ∧ outOfOrder s.current i then
    (s.consider o b (s.current.swapped i (i + 1))).2
  else s

/-- How a group of equal draws is treated. -/
def minimizeGroup (o : Oracle σ) (b : ShrinkBudget) (s : Search σ) (g : UInt64 × List Nat) :
    Search σ :=
  if s.exhausted then s
  else (minimizeInteger (considerValue o b g.2) g.1.toNat s).2

theorem deleteDraws_eq (s : Search σ) : s.deleteDraws o b =
    (List.range maxDeleteBlock).foldl (fun s k => s.deleteBlocks o b (maxDeleteBlock - k) 0) s :=
  rfl

theorem minimizeDraws_eq (s : Search σ) :
    s.minimizeDraws o b = (List.range s.current.length).foldl (minimizeAt o b) s := rfl

theorem reorderDraws_eq (s : Search σ) :
    s.reorderDraws o b = (List.range s.current.length).foldl (reorderAt o b) s := rfl

theorem minimizeDuplicates_eq (s : Search σ) :
    s.minimizeDuplicates o b = (duplicateGroups s.current).foldl (minimizeGroup o b) s := rfl

theorem reaches_minimizeAt (s : Search σ) (i : Nat) : Reaches o b s (s.minimizeAt o b i) := by
  unfold minimizeAt
  split
  · split
    · exact .refl
    · exact reaches_minimizeInteger _ _ _
  · exact .refl

theorem reaches_reorderAt (s : Search σ) (i : Nat) : Reaches o b s (s.reorderAt o b i) := by
  unfold reorderAt
  split
  · exact reaches_consider (.swap _ _)
  · exact .refl

theorem reaches_minimizeGroup (s : Search σ) (g : UInt64 × List Nat) :
    Reaches o b s (s.minimizeGroup o b g) := by
  unfold minimizeGroup
  split
  · exact .refl
  · exact reaches_minimizeInteger _ _ _

theorem reaches_runPass (pass : ShrinkPass) (s : Search σ) :
    Reaches o b s (s.runPass o b pass) := by
  cases pass with
  | deleteDraws =>
    rw [runPass, deleteDraws_eq]
    exact reaches_foldl (fun s _ => reaches_deleteBlocks _ _ s) _ s
  | minimizeDraws =>
    rw [runPass, minimizeDraws_eq]
    exact reaches_foldl reaches_minimizeAt _ s
  | reorderDraws =>
    rw [runPass, reorderDraws_eq]
    exact reaches_foldl reaches_reorderAt _ s
  | minimizeDuplicates =>
    rw [runPass, minimizeDuplicates_eq]
    exact reaches_foldl reaches_minimizeGroup _ s

theorem reaches_repeatPass (pass : ShrinkPass) (s : Search σ) :
    Reaches o b s (s.repeatPass o b pass) := by
  fun_induction repeatPass with
  | case1 => exact .refl
  | case2 s _ s' _ ih => exact (reaches_runPass pass s).trans ih
  | case3 s _ s' _ => exact reaches_runPass pass s

theorem reaches_cycle (s : Search σ) : Reaches o b s (s.cycle o b) :=
  reaches_foldl (fun s pass => reaches_repeatPass pass s) _ s

theorem reaches_run (s : Search σ) : Reaches o b s (s.run o b) := by
  fun_induction run with
  | case1 s s' _ ih => exact (reaches_cycle s).trans ih
  | case2 s s' _ => exact reaches_cycle s

/-! ## What a step does -/

/-- All that considering a candidate can come to. -/
inductive Considered (o : Oracle σ) (b : ShrinkBudget) (c : Draws) (s : Search σ) :
    Bool × Search σ → Prop where
  /-- The candidate is the current sequence. -/
  | same (h : c = s.current) : Considered o b c s (true, s)
  /-- The candidate is not tried. -/
  | skipped (hne : c ≠ s.current) (h : ¬ c.Simpler s.current ∨ c ∈ s.seen) :
    Considered o b c s (false, s)
  /-- There is no budget left to try it. -/
  | exhausted (hs : c.Simpler s.current) (h : (s.checkBudget o b).exhausted = true) :
    Considered o b c s (false, s.checkBudget o b)
  /-- The candidate is tried, and nothing simpler comes of it. -/
  | refused (answer : Option Draws) (world : σ) (hs : c.Simpler s.current) (hn : c ∉ s.seen)
    (hb : (s.checkBudget o b).exhausted = false)
    (ht : o.trial c (s.checkBudget o b).world = (answer, world))
    (hr : ∀ r, answer = some r → ¬ r.Simpler s.current) :
    Considered o b c s (false, (s.checkBudget o b).note c world)
  /-- The candidate is tried, and what its trial recorded is simpler. -/
  | improved (r : Draws) (world : σ) (hs : c.Simpler s.current) (hn : c ∉ s.seen)
    (hb : (s.checkBudget o b).exhausted = false)
    (ht : o.trial c (s.checkBudget o b).world = (some r, world))
    (hr : r.Simpler s.current) :
    Considered o b c s (true, ((s.checkBudget o b).note c world).improve r)

theorem considered (o : Oracle σ) (b : ShrinkBudget) (c : Draws) (s : Search σ) :
    Considered o b c s (s.consider o b c) := by
  unfold consider
  split
  · exact .same ‹_›
  · rename_i hne
    split
    · rename_i h
      exact .skipped hne h
    · rename_i h
      rw [not_or, Classical.not_not] at h
      split
      · exact .exhausted h.1 ‹_›
      · rename_i hb
        have hb : (s.checkBudget o b).exhausted = false := by simpa using hb
        rcases ht : o.trial c (s.checkBudget o b).world with ⟨_ | r, world⟩
        · simp only [attempt, ht]
          exact .refused none world h.1 h.2 hb ht (by simp)
        · have hcur : ((s.checkBudget o b).note c world).current = s.current :=
            current_checkBudget o b s
          simp only [attempt, ht, hcur]
          split
          · exact .improved r world h.1 h.2 hb ht ‹_›
          · rename_i hr
            exact .refused (some r) world h.1 h.2 hb ht fun r' he => by cases he; exact hr

/-- A look at the budget may find that it is used up and may ask for the time. It does nothing
else. -/
theorem checkBudget_eq (o : Oracle σ) (b : ShrinkBudget) (s : Search σ) :
    ∃ exhausted world, s.checkBudget o b = { s with exhausted := exhausted, world := world } ∧
      (world = s.world ∨ world = (o.elapsed s.world).2) := by
  unfold checkBudget
  split
  · exact ⟨_, _, rfl, .inl rfl⟩
  · split
    · exact ⟨_, _, rfl, .inl rfl⟩
    · exact ⟨_, _, rfl, .inr rfl⟩

@[simp] theorem seen_checkBudget (o : Oracle σ) (b : ShrinkBudget) (s : Search σ) :
    (s.checkBudget o b).seen = s.seen := by
  obtain ⟨_, _, h, -⟩ := checkBudget_eq o b s
  rw [h]

@[simp] theorem attempts_checkBudget (o : Oracle σ) (b : ShrinkBudget) (s : Search σ) :
    (s.checkBudget o b).attempts = s.attempts := by
  obtain ⟨_, _, h, -⟩ := checkBudget_eq o b s
  rw [h]

@[simp] theorem improvements_checkBudget (o : Oracle σ) (b : ShrinkBudget) (s : Search σ) :
    (s.checkBudget o b).improvements = s.improvements := by
  obtain ⟨_, _, h, -⟩ := checkBudget_eq o b s
  rw [h]

theorem world_checkBudget (o : Oracle σ) (b : ShrinkBudget) (s : Search σ) :
    (s.checkBudget o b).world = s.world ∨
      (s.checkBudget o b).world = (o.elapsed s.world).2 := by
  obtain ⟨_, _, h, hw⟩ := checkBudget_eq o b s
  rw [h]
  exact hw

/-- As long as there is budget, trials are left. -/
theorem lt_of_checkBudget (h : (s.checkBudget o b).exhausted = false) :
    s.attempts < b.maxAttempts := by
  unfold checkBudget at h
  split at h
  · cases h
  · rename_i hlt
    exact Nat.not_le.1 hlt

/-- A budget that was used up stays so. -/
theorem exhausted_of_checkBudget (h : (s.checkBudget o b).exhausted = false) :
    s.exhausted = false := by
  unfold checkBudget at h
  split at h
  · cases h
  · split at h
    · exact h
    · exact (Bool.or_eq_false_iff.1 h).1

/-- What a later state of a search has of an earlier one: its current sequence or a simpler one, all
that was seen, and a budget that was used up already. -/
structure Extends (s t : Search σ) : Prop where
  current : t.current = s.current ∨ t.current.Simpler s.current
  seen : ∀ c ∈ s.seen, c ∈ t.seen
  exhausted : t.exhausted = false → s.exhausted = false

theorem Extends.refl (s : Search σ) : s.Extends s :=
  ⟨.inl rfl, fun _ => id, id⟩

theorem Extends.trans (h : s.Extends t) (h' : t.Extends u) : s.Extends u := by
  refine ⟨?_, fun c hc => h'.seen c (h.seen c hc), fun hu => h.exhausted (h'.exhausted hu)⟩
  rcases h.current with hs | hs <;> rcases h'.current with ht | ht
  · exact .inl (ht.trans hs)
  · exact .inr (hs ▸ ht)
  · exact .inr (ht.symm ▸ hs)
  · exact .inr (ht.trans hs)

theorem extends_checkBudget (o : Oracle σ) (b : ShrinkBudget) (s : Search σ) :
    s.Extends (s.checkBudget o b) :=
  ⟨.inl (current_checkBudget o b s), fun c hc => by rwa [seen_checkBudget],
    exhausted_of_checkBudget⟩

theorem extends_consider (o : Oracle σ) (b : ShrinkBudget) (c : Draws) (s : Search σ) :
    s.Extends (s.consider o b c).2 := by
  have h := considered o b c s
  generalize s.consider o b c = r at h
  have hb := extends_checkBudget o b s
  cases h with
  | same => exact .refl s
  | skipped => exact .refl s
  | exhausted => exact hb
  | refused answer world =>
    exact hb.trans ⟨.inl rfl, fun c hc => Std.HashSet.mem_insert.2 (.inr hc), id⟩
  | improved r world _ _ _ _ hr =>
    refine hb.trans ⟨.inr ?_, fun c hc => ?_, id⟩
    · rwa [current_checkBudget]
    · exact Std.HashSet.mem_insert.2 (.inr (Std.HashSet.mem_insert.2 (.inr hc)))

theorem Reaches.extends (h : Reaches o b s t) : s.Extends t := by
  induction h with
  | refl => exact .refl s
  | tail _ hstep ih =>
    obtain ⟨c, -, rfl⟩ := hstep
    exact ih.trans (extends_consider o b c _)

/-- A search that ends with the sequence it began with had it all the time. -/
theorem Extends.current_eq (h : s.Extends t) (h' : t.Extends u) (he : u.current = s.current) :
    t.current = s.current := by
  rcases h.current with ht | ht
  · exact ht
  · rcases h'.current with hu | hu
    · exact absurd (he ▸ hu ▸ ht) (Draws.Simpler.irrefl _)
    · exact absurd (he ▸ hu.trans ht) (Draws.Simpler.irrefl _)

end Search

end Falsify
