import Falsify.Proofs.Shrink.Rounds
import Falsify.Proofs.Shrink.Steps

/-!
# Every search ends

A search has loops in loops: cycles of passes, repetitions of a pass, the positions of a pass, and
the search for a small number at a position. Here it is once more with each of them in rounds, which
go on as long as something has changed (`Search.runWithin`). Whatever the trials answer, a change
makes the current sequence simpler, so its rank among all sequences falls, and a round without a
change leaves fewer positions. The rank of the first sequence bounds all loops.

* `deleteBlocksWithin_eq`, `sweepWithin_eq`, `groupsWithin_eq`: the passes end;
* `repeatPassWithin_eq`, `cycleWithin_eq`, `runWithin_eq`: so do repetitions and cycles;
* `run_ends`: the theorem.
-/

namespace Falsify

namespace Draws

theorem rank_le_of_eq_or_simpler {s t : Draws} (h : t = s ∨ t.Simpler s) :
    t.rank ≤ s.rank ∧ t.length ≤ s.length := by
  rcases h with rfl | h
  · exact ⟨Nat.le_refl _, Nat.le_refl _⟩
  · exact ⟨Nat.le_of_lt (rank_lt_of_simpler h), h.length_le⟩

/-- A number of rounds that is enough for any loop of a search that starts from the sequence. -/
def roundLimit (s : Draws) : Nat :=
  wordLimit + s.rank + s.length + 1

end Draws

namespace Search

variable {σ : Type}

/-! ## The search in rounds -/

section Definitions

variable (o : Oracle σ) (b : ShrinkBudget) (rounds : Nat)

/-- Deletes blocks of draws, from position to position: a block that has gone makes place for the
next one. -/
def deleteBlocksWithin (size : Nat) (s : Search σ) : Option (Search σ) :=
  loop (fun (i, s) =>
    if i + size ≤ s.current.length ∧ s.exhausted = false then
      let answer := s.consider o b (s.current.withoutRange i (i + size))
      some (.inl (if answer.1 then i else i + 1, answer.2))
    else some (.inr s)) rounds (0, s)

/-- Treats position after position, up to the last one that has `ahead` positions behind it. The
length is looked at again in each round. -/
def sweepWithin (ahead : Nat) (treat : Search σ → Nat → Option (Search σ)) (s : Search σ) :
    Option (Search σ) :=
  loop (fun (i, s) =>
    if i + ahead < s.current.length ∧ s.exhausted = false then
      (treat s i).map fun s' => .inl (i + 1, s')
    else some (.inr s)) rounds (0, s)

/-- Minimizes a value that stands at some positions. -/
def minimizeValueWithin (positions : List Nat) (value : UInt64) (s : Search σ) :
    Option (Search σ) :=
  (minimizeIntegerWithin (considerValue o b positions) rounds value.toNat s).map Prod.snd

def minimizeAtWithin (s : Search σ) (i : Nat) : Option (Search σ) :=
  match s.current[i]? with
  | none => some s
  | some draw => if draw.value = 0 then some s else minimizeValueWithin o b rounds [i] draw.value s

def minimizeGroupWithin (s : Search σ) (g : UInt64 × List Nat) : Option (Search σ) :=
  if s.exhausted then some s else minimizeValueWithin o b rounds g.2 g.1 s

def runPassWithin (pass : ShrinkPass) (s : Search σ) : Option (Search σ) :=
  match pass with
  | .deleteDraws => (List.range maxDeleteBlock).foldlM
      (fun s k => deleteBlocksWithin o b rounds (maxDeleteBlock - k) s) s
  | .minimizeDraws => sweepWithin rounds 0 (minimizeAtWithin o b rounds) s
  | .reorderDraws => sweepWithin rounds 1 (fun s i => some (reorderAt o b s i)) s
  | .minimizeDuplicates =>
    (duplicateGroups s.current).foldlM (minimizeGroupWithin o b rounds) s

/-- Runs a pass again and again as long as it changes the sequence, and notes if it has. -/
def repeatPassWithin (p : Bool × Search σ) (pass : ShrinkPass) : Option (Bool × Search σ) :=
  loop (fun (improved, s) =>
    if s.exhausted then some (.inr (improved, s))
    else (runPassWithin o b rounds pass s).map fun s' =>
      if s'.current = s.current then .inr (improved, s') else .inl (true, s')) rounds p

/-- Runs all passes in order, each as often as it changes something. True if any of them has. -/
def cycleWithin (s : Search σ) : Option (Bool × Search σ) :=
  ShrinkPass.order.foldlM (repeatPassWithin o b rounds) (false, s)

/-- The whole search: cycles of passes as long as one has changed something and the budget lasts. -/
def runWithin (s : Search σ) : Option (Search σ) :=
  loop (fun s => (cycleWithin o b rounds s).map fun p =>
    if p.1 = false ∨ p.2.exhausted then .inr p.2 else .inl p.2) rounds s

end Definitions

/-! ## Passes -/

variable {o : Oracle σ} {b : ShrinkBudget} {rounds : Nat}

/-- The rounds are enough for every sequence that a search can come to from here. -/
def Lasts (rounds : Nat) (s : Search σ) : Prop :=
  s.current.roundLimit ≤ rounds

theorem Lasts.reaches {s t : Search σ} (h : s.Lasts rounds) (ht : Reaches o b s t) :
    t.Lasts rounds := by
  have := Draws.rank_le_of_eq_or_simpler ht.extends.current
  unfold Lasts Draws.roundLimit at *
  omega

/-- A fold ends if each of its members does. -/
theorem foldlM_eq_some {α : Type} {f : Search σ → α → Search σ}
    {g : Search σ → α → Option (Search σ)} {l : List α}
    (hg : ∀ a ∈ l, ∀ s, s.Lasts rounds → g s a = some (f s a)) (hf : ∀ s a, Reaches o b s (f s a))
    {s : Search σ} (hs : s.Lasts rounds) : l.foldlM g s = some (l.foldl f s) := by
  induction l generalizing s with
  | nil => rfl
  | cons a l ih =>
    rw [List.foldlM_cons, hg a List.mem_cons_self s hs]
    exact ih (fun a ha => hg a (List.mem_cons_of_mem _ ha)) (hs.reaches (hf s a))

theorem deleteBlocksWithin_eq {size : Nat} (hsize : 0 < size) {s : Search σ}
    (hs : s.Lasts rounds) :
    deleteBlocksWithin o b rounds size s = some (deleteBlocks o b size 0 s) := by
  refine loop_eq_some (fun _ => True)
    (fun p : Nat × Search σ => p.2.current.rank + (p.2.current.length - p.1))
    (fun p => deleteBlocks o b size p.1 p.2) (fun ⟨i, s⟩ _ => ?_) trivial ?_
  · by_cases hg : i + size ≤ s.current.length ∧ s.exhausted = false
    · have hd := deleteBlocks_of_consider (o := o) (b := b) ⟨hsize, hg⟩ (Prod.eta _).symm
      refine .inr ⟨_, if_pos hg, trivial, ?_, hd.symm⟩
      have hl := Draws.length_withoutRange s.current (Nat.le_add_right i size) hg.1
      have hne : s.current.withoutRange i (i + size) ≠ s.current := fun he => by
        rw [he] at hl
        omega
      have hsteps := steps_consider o b hne
      dsimp only
      rw [Steps] at hsteps
      split at hsteps
      · rename_i ha
        rw [if_pos ha]
        have := Draws.rank_lt_of_simpler hsteps
        have := hsteps.length_le
        omega
      · rename_i ha
        rw [if_neg ha, hsteps]
        omega
    · refine .inl ((if_neg hg).trans ?_)
      dsimp only
      rw [deleteBlocks, dif_neg fun h => hg h.2]
  · unfold Lasts Draws.roundLimit at hs
    dsimp only
    omega

theorem foldl_eq_self {α : Type} {f : Search σ → α → Search σ} {s : Search σ} {l : List α}
    (h : ∀ a ∈ l, f s a = s) : l.foldl f s = s := by
  induction l with
  | nil => rfl
  | cons a l ih =>
    rw [List.foldl_cons, h a List.mem_cons_self]
    exact ih fun a ha => h a (List.mem_cons_of_mem _ ha)

/-- A sweep treats the positions that there were at its start: what has gone of them since then
would be left alone anyway. -/
theorem sweepWithin_eq {ahead : Nat} {f : Search σ → Nat → Search σ}
    {treat : Search σ → Nat → Option (Search σ)}
    (ht : ∀ s i, s.Lasts rounds → s.exhausted = false → treat s i = some (f s i))
    (hf : ∀ s i, Reaches o b s (f s i))
    (hrest : ∀ s i, ¬ (i + ahead < s.current.length ∧ s.exhausted = false) → f s i = s)
    {s : Search σ} (hs : s.Lasts rounds) :
    sweepWithin rounds ahead treat s = some ((List.range s.current.length).foldl f s) := by
  rw [List.range_eq_range']
  generalize hl : s.current.length = l
  refine loop_eq_some
    (fun p : Nat × Search σ => p.2.Lasts rounds ∧ p.2.current.length ≤ l)
    (fun p => l - p.1) (fun p => (List.range' p.1 (l - p.1)).foldl f p.2)
    (fun ⟨i, s⟩ ⟨hs, hle⟩ => ?_) ⟨hs, Nat.le_of_eq hl⟩ ?_
  · dsimp only at hs hle ⊢
    by_cases hg : i + ahead < s.current.length ∧ s.exhausted = false
    · refine .inr ⟨(i + 1, f s i), ?_, ⟨hs.reaches (hf s i), ?_⟩, by dsimp only; omega, ?_⟩
      · rw [if_pos hg, ht s i hs hg.2]
        rfl
      · have := Draws.rank_le_of_eq_or_simpler (hf s i).extends.current
        dsimp only
        omega
      · rw [show l - i = l - (i + 1) + 1 by omega, List.range'_succ, List.foldl_cons]
    · refine .inl ((if_neg hg).trans ?_)
      rw [foldl_eq_self fun j hj => hrest s j fun h => hg ⟨?_, h.2⟩]
      have := (List.mem_range'_1.1 hj).1
      have := h.1
      omega
  · unfold Lasts Draws.roundLimit at hs
    dsimp only
    omega

theorem minimizeValueWithin_eq (positions : List Nat) (value : UInt64) {s : Search σ}
    (hs : s.Lasts rounds) : minimizeValueWithin o b rounds positions value s =
      some (minimizeInteger (considerValue o b positions) value.toNat s).2 := by
  have hrounds : wordLimit ≤ rounds := by
    unfold Lasts Draws.roundLimit at hs
    omega
  rw [minimizeValueWithin, minimizeIntegerWithin_eq _ hrounds value.toNat_lt]
  rfl

theorem minimizeAtWithin_eq (s : Search σ) (i : Nat) (hs : s.Lasts rounds)
    (hx : s.exhausted = false) : minimizeAtWithin o b rounds s i = some (minimizeAt o b s i) := by
  unfold minimizeAtWithin minimizeAt
  rw [hx]
  rcases s.current[i]? with _ | draw
  · rfl
  · dsimp only
    split
    · rfl
    · exact minimizeValueWithin_eq [i] draw.value hs

theorem minimizeAt_of_rest (s : Search σ) (i : Nat)
    (h : ¬ (i + 0 < s.current.length ∧ s.exhausted = false)) : minimizeAt o b s i = s := by
  unfold minimizeAt
  split
  · rename_i draw hx hd
    exact absurd ⟨(List.getElem?_eq_some_iff.1 hd).1, hx⟩ h
  · rfl

theorem reorderAt_of_rest (s : Search σ) (i : Nat)
    (h : ¬ (i + 1 < s.current.length ∧ s.exhausted = false)) : reorderAt o b s i = s := by
  refine if_neg fun ⟨hx, ho⟩ => h ⟨?_, hx⟩
  rw [outOfOrder] at ho
  split at ho
  · rename_i hb
    exact (List.getElem?_eq_some_iff.1 hb).1
  · cases ho

theorem runPassWithin_eq (pass : ShrinkPass) {s : Search σ} (hs : s.Lasts rounds) :
    runPassWithin o b rounds pass s = some (s.runPass o b pass) := by
  cases pass with
  | deleteDraws =>
    rw [runPass, deleteDraws_eq]
    refine foldlM_eq_some (o := o) (b := b) (fun k hk s hs => ?_)
      (fun s k => reaches_deleteBlocks _ 0 s) hs
    have := List.mem_range.1 hk
    exact deleteBlocksWithin_eq (by omega) hs
  | minimizeDraws =>
    rw [runPass, minimizeDraws_eq]
    exact sweepWithin_eq minimizeAtWithin_eq reaches_minimizeAt minimizeAt_of_rest hs
  | reorderDraws =>
    rw [runPass, reorderDraws_eq]
    exact sweepWithin_eq (fun _ _ _ _ => rfl) reaches_reorderAt reorderAt_of_rest hs
  | minimizeDuplicates =>
    rw [runPass, minimizeDuplicates_eq]
    refine foldlM_eq_some (fun g _ s hs => ?_) reaches_minimizeGroup hs
    unfold minimizeGroupWithin minimizeGroup
    split
    · rfl
    · exact minimizeValueWithin_eq g.2 g.1 hs

/-! ## Repetitions and cycles -/

/-- Whether something has changed between two states of a search. -/
def changed (s t : Search σ) : Bool :=
  decide (t.current ≠ s.current)

theorem changed_self (s : Search σ) : s.changed s = false := by
  simp [changed]

/-- What has changed on the way to a later state has not been changed back. -/
theorem changed_trans {s t u : Search σ} (h : Reaches o b s t) (h' : Reaches o b t u) :
    s.changed u = (s.changed t || t.changed u) := by
  have hiff : u.current = s.current ↔ t.current = s.current ∧ u.current = t.current := by
    refine ⟨fun he => ?_, fun ⟨h₁, h₂⟩ => h₂.trans h₁⟩
    have ht := h.extends.current_eq h'.extends he
    exact ⟨ht, he.trans ht.symm⟩
  simp only [changed, ne_eq, hiff, Decidable.not_and_iff_or_not, Bool.decide_or]

theorem simpler_of_changed {s t : Search σ} (h : Reaches o b s t) (hc : t.current ≠ s.current) :
    t.current.Simpler s.current :=
  h.extends.current.resolve_left hc

theorem repeatPassWithin_eq (pass : ShrinkPass) (improved : Bool) {s : Search σ}
    (hs : s.Lasts rounds) : repeatPassWithin o b rounds (improved, s) pass =
      some (improved || s.changed (s.repeatPass o b pass), s.repeatPass o b pass) := by
  refine loop_eq_some (fun p : Bool × Search σ => p.2.Lasts rounds)
    (fun p => p.2.current.rank)
    (fun p => (p.1 || p.2.changed (p.2.repeatPass o b pass), p.2.repeatPass o b pass))
    (fun ⟨improved, s⟩ hs => ?_) hs ?_
  · dsimp only at hs ⊢
    rw [repeatPass]
    by_cases hx : s.exhausted = true
    · rw [if_pos hx, if_pos hx, changed_self, Bool.or_false]
      exact .inl rfl
    · have hpass := reaches_runPass (o := o) (b := b) pass s
      rw [if_neg hx, if_neg hx, runPassWithin_eq pass hs, Option.map_some]
      by_cases hc : (s.runPass o b pass).current = s.current
      · rw [if_pos hc, dif_neg (by rw [hc]; exact Draws.Simpler.irrefl _)]
        refine .inl ?_
        simp [changed, hc]
      · have hsimpler := simpler_of_changed hpass hc
        rw [if_neg hc, dif_pos hsimpler]
        refine .inr ⟨_, rfl, hs.reaches hpass, Draws.rank_lt_of_simpler hsimpler, ?_⟩
        rw [changed_trans hpass (reaches_repeatPass pass _)]
        simp [changed, hc]
  · unfold Lasts Draws.roundLimit at hs
    dsimp only
    omega

/-- Some passes in turn, each as often as it helps. -/
theorem foldlM_repeatPassWithin (passes : List ShrinkPass) (improved : Bool) {s : Search σ}
    (hs : s.Lasts rounds) : passes.foldlM (repeatPassWithin o b rounds) (improved, s) =
      some (improved || s.changed (passes.foldl (fun s pass => s.repeatPass o b pass) s),
        passes.foldl (fun s pass => s.repeatPass o b pass) s) := by
  induction passes generalizing improved s with
  | nil => simp [changed_self]
  | cons pass passes ih =>
    have h₁ := reaches_repeatPass (o := o) (b := b) pass s
    have h₂ := reaches_foldl (o := o) (b := b) (fun s pass => reaches_repeatPass pass s) passes
      (s.repeatPass o b pass)
    rw [List.foldlM_cons, repeatPassWithin_eq pass improved hs]
    refine (ih _ (hs.reaches h₁)).trans ?_
    rw [List.foldl_cons, changed_trans h₁ h₂, Bool.or_assoc]

theorem cycleWithin_eq {s : Search σ} (hs : s.Lasts rounds) :
    cycleWithin o b rounds s = some (s.changed (s.cycle o b), s.cycle o b) :=
  foldlM_repeatPassWithin ShrinkPass.order false hs

theorem runWithin_eq {s : Search σ} (hs : s.Lasts rounds) :
    runWithin o b rounds s = some (s.run o b) := by
  refine loop_eq_some (Lasts rounds) (fun s : Search σ => s.current.rank) (run o b)
    (fun s hs => ?_) hs ?_
  · have hcycle := reaches_cycle (o := o) (b := b) s
    rw [cycleWithin_eq hs, Option.map_some, run]
    by_cases hc : (s.cycle o b).current = s.current ∨ (s.cycle o b).exhausted = true
    · rw [if_pos (by simpa [changed] using hc), dif_neg]
      · exact .inl rfl
      · rintro ⟨hsimpler, hx⟩
        rcases hc with hc | hc
        · exact Draws.Simpler.irrefl _ (hc ▸ hsimpler)
        · exact absurd (hx.symm.trans hc) Bool.false_ne_true
    · obtain ⟨hne, hx⟩ := not_or.1 hc
      have hsimpler := simpler_of_changed hcycle hne
      rw [if_neg (by simpa [changed] using hc), dif_pos ⟨hsimpler, by simpa using hx⟩]
      exact .inr ⟨_, rfl, hs.reaches hcycle, Draws.rank_lt_of_simpler hsimpler, rfl⟩
  · unfold Lasts Draws.roundLimit at hs
    omega

/-- Every search ends. For each first sequence there is a number of rounds that no loop of a search
from there exceeds, whatever the trials answer and whatever they remember, and however large the
budget is: neither the cycles, nor the repetitions of a pass, nor the loops of a pass. -/
theorem run_ends (initial : Draws) :
    ∃ limit, ∀ {σ : Type} (o : Oracle σ) (b : ShrinkBudget) (world : σ) (rounds : Nat),
      limit ≤ rounds →
        runWithin o b rounds (start initial world) = some ((start initial world).run o b) :=
  ⟨initial.roundLimit, fun _ _ _ _ h => runWithin_eq h⟩

end Search

end Falsify
