import Std.Data.HashSet
import Falsify.Draws
import Falsify.Shrink.Budget

/-!
# Searching for simpler failures

A search holds the simplest sequence found so far and puts simpler ones to trial. A trial replays
a sequence and answers with the draws that the replay recorded if it still fails; these may differ
from what was tried, and it is they that are kept. No sequence is tried twice.

* `Search.consider`: the one step that every pass is made of;
* `Search.steps_consider`: it leaves the current sequence alone or replaces it by a simpler one.
-/

namespace Falsify

/-- What a search asks for: trials of sequences, and the time since it began. Both may have
effects. -/
structure Oracle (σ : Type) where
  trial : Draws → StateM σ (Option Draws)
  elapsed : StateM σ Duration

/-- The state of a search. -/
structure Search (σ : Type) where
  /-- The simplest sequence found so far. -/
  current : Draws
  /-- The sequences that need not be tried any more. -/
  seen : Std.HashSet Draws
  /-- Trials made. -/
  attempts : Nat
  /-- Trials that gave a simpler sequence. -/
  improvements : Nat
  /-- The budget is used up. -/
  exhausted : Bool
  world : σ

namespace Search

variable {σ : Type}

/-- A search that starts from a sequence known to fail. -/
def start (initial : Draws) (world : σ) : Search σ where
  current := initial
  seen := Std.HashSet.emptyWithCapacity.insert initial
  attempts := 0
  improvements := 0
  exhausted := false
  world := world

/-- Looks whether the budget is used up. The time is looked at only if trials are left. -/
def checkBudget (o : Oracle σ) (b : ShrinkBudget) (s : Search σ) : Search σ :=
  if b.maxAttempts ≤ s.attempts then { s with exhausted := true }
  else
    match b.timeout with
    | none => s
    | some timeout =>
      let elapsed := o.elapsed s.world
      { s with exhausted := s.exhausted || timeout ≤ elapsed.1, world := elapsed.2 }

/-- Notes that a sequence has been tried, and what the trial left of the world. -/
def note (candidate : Draws) (world : σ) (s : Search σ) : Search σ :=
  { s with seen := s.seen.insert candidate, attempts := s.attempts + 1, world := world }

/-- A simpler sequence takes the place of the current one. -/
def improve (recorded : Draws) (s : Search σ) : Search σ :=
  { s with
    current := recorded
    seen := s.seen.insert recorded
    improvements := s.improvements + 1 }

/-- Puts a sequence to trial. -/
def attempt (o : Oracle σ) (candidate : Draws) (s : Search σ) : Bool × Search σ :=
  let answer := o.trial candidate s.world
  let s := s.note candidate answer.2
  match answer.1 with
  | none => (false, s)
  | some recorded => if recorded.Simpler s.current then (true, s.improve recorded) else (false, s)

/-- True if the candidate is the current sequence, or if its trial replaced that by a simpler one. A
candidate that is not simpler, or not new, is not tried. -/
def consider (o : Oracle σ) (b : ShrinkBudget) (candidate : Draws) (s : Search σ) :
    Bool × Search σ :=
  if candidate = s.current then (true, s)
  else if ¬ candidate.Simpler s.current ∨ s.seen.contains candidate then (false, s)
  else if (s.checkBudget o b).exhausted then (false, s.checkBudget o b)
  else (s.checkBudget o b).attempt o candidate

@[simp] theorem current_checkBudget (o : Oracle σ) (b : ShrinkBudget) (s : Search σ) :
    (s.checkBudget o b).current = s.current := by
  unfold checkBudget
  split
  · rfl
  · split <;> rfl

/-- What a step of a search does to the current sequence, given its answer. -/
def Steps (s : Search σ) (r : Bool × Search σ) : Prop :=
  if r.1 then r.2.current.Simpler s.current else r.2.current = s.current

theorem steps_attempt (o : Oracle σ) (candidate : Draws) (s : Search σ) :
    s.Steps (s.attempt o candidate) := by
  unfold attempt
  simp only
  split
  · rfl
  · split
    · assumption
    · rfl

/-- Considering a candidate that is not the current sequence replaces that by a simpler one or
leaves it alone, and the answer tells which. -/
theorem steps_consider (o : Oracle σ) (b : ShrinkBudget) {candidate : Draws} {s : Search σ}
    (h : candidate ≠ s.current) : s.Steps (s.consider o b candidate) := by
  unfold consider
  rw [if_neg h]
  split
  · rfl
  · split
    · exact current_checkBudget o b s
    · have := steps_attempt o candidate (s.checkBudget o b)
      rwa [Steps, current_checkBudget] at this

end Search

end Falsify
