import Falsify.Proofs.Shrink.Trials

/-!
# Loops in rounds

The searches for small numbers once more, with each loop as it goes round: it asks for another round
on its own condition alone, and gives up after a number of rounds (`loop`). A loop that ends within
some rounds has a result, so a search that has one, whatever its trials answer, has come to an end
in all its loops.

* `loop_eq_some`: a loop with less room after each round ends;
* `bisectWithin_eq`, `gallopWithin_eq`, `findIntegerWithin_eq`: the search for a number whose
  successor will not do ends within as many rounds as there are words;
* `lowerWithin_eq`, `minimizeIntegerWithin_eq`: so does the search for a small number.
-/

namespace Falsify

section Loop

variable {α β : Type}

/-- Goes round as long as a round asks for another one, but so many times at most. A round may fail
itself, if a loop in it gives up. -/
def loop (round : α → Option (α ⊕ β)) : (rounds : Nat) → α → Option β
  | 0, _ => none
  | rounds + 1, a =>
    match round a with
    | none => none
    | some (.inl a') => loop round rounds a'
    | some (.inr b) => some b

/-- A loop ends if each round leaves less room for others; it has the result that all its rounds
agree on. -/
theorem loop_eq_some {round : α → Option (α ⊕ β)} (inv : α → Prop) (room : α → Nat)
    (result : α → β)
    (h : ∀ a, inv a → round a = some (.inr (result a)) ∨
      ∃ a', round a = some (.inl a') ∧ inv a' ∧ room a' < room a ∧ result a' = result a)
    {rounds : Nat} {a : α} (ha : inv a) (hroom : room a < rounds) :
    loop round rounds a = some (result a) := by
  induction rounds generalizing a with
  | zero => exact absurd hroom (Nat.not_lt_zero _)
  | succ rounds ih =>
    rw [loop]
    rcases h a ha with hr | ⟨a', hr, ha', hlt, he⟩
    · rw [hr]
    · rw [hr]
      exact (ih ha' (by omega)).trans (congrArg some he)

end Loop

/-! ## Numbers whose successor will not do -/

/-- A number that will do, a higher one, and the state of the trials. -/
structure Gap (τ : Type) where
  low : Nat
  high : Nat
  world : τ

section Find

variable {τ : Type} (f : Trial τ)

/-- Halves the gap, round by round. -/
def bisectWithin (rounds : Nat) (g : Gap τ) : Option (Nat × τ) :=
  loop (fun g =>
    if g.low + 1 < g.high then
      let middle := g.low + (g.high - g.low) / 2
      let answer := f middle g.world
      some (.inl (if answer.1 then ⟨middle, g.high, answer.2⟩ else ⟨g.low, middle, answer.2⟩))
    else some (.inr (g.low, g.world))) rounds g

theorem bisectWithin_eq {rounds : Nat} (g : Gap τ) (h : g.high - g.low < rounds) :
    bisectWithin f rounds g = some (bisect f g.low g.high g.world) := by
  refine loop_eq_some (fun _ => True) (fun g : Gap τ => g.high - g.low)
    (fun g => bisect f g.low g.high g.world) (fun g _ => ?_) trivial h
  by_cases hlt : g.low + 1 < g.high
  · refine .inr ⟨_, if_pos hlt, trivial, ?_, ?_⟩
    · split <;> dsimp only <;> omega
    · rw [bisect.eq_def f g.low g.high, dif_pos hlt, Trial.bind_apply]
      split <;> rfl
  · refine .inl ((if_neg hlt).trans ?_)
    rw [bisect, dif_neg hlt]
    rfl

/-- Doubles the higher number, round by round, as long as a word holds it. -/
def gallopWithin (rounds : Nat) (g : Gap τ) : Option (Nat × τ) :=
  loop (fun g =>
    let answer := f g.high g.world
    if answer.1 then
      if 2 * g.high < wordLimit then some (.inl ⟨g.high, 2 * g.high, answer.2⟩)
      else some (.inr (g.high, answer.2))
    else (bisectWithin f rounds ⟨g.low, g.high, answer.2⟩).map .inr) rounds g

theorem gallopWithin_eq {rounds : Nat} (h : wordLimit ≤ rounds) (g : Gap τ)
    (hg : 0 < g.high ∧ g.high < wordLimit) :
    gallopWithin f rounds g = some (gallop f g.low g.high g.world) := by
  refine loop_eq_some (fun g : Gap τ => 0 < g.high ∧ g.high < wordLimit)
    (fun g => wordLimit - g.high) (fun g => gallop f g.low g.high g.world)
    (fun g hg => ?_) hg (by omega)
  rw [gallop.eq_def f g.low g.high, Trial.bind_apply]
  cases ha : (f g.high g.world).1 with
  | false =>
    refine .inl ?_
    dsimp only
    rw [ha, if_neg Bool.false_ne_true, if_neg Bool.false_ne_true,
      bisectWithin_eq f _ (by dsimp only; omega)]
    rfl
  | true =>
    dsimp only
    rw [ha, if_pos rfl, if_pos rfl]
    by_cases hd : 2 * g.high < wordLimit
    · rw [if_pos hd, dif_pos ⟨by omega, hd⟩]
      exact .inr ⟨_, rfl, ⟨by dsimp only; omega, hd⟩, by dsimp only; omega, rfl⟩
    · rw [if_neg hd, dif_neg fun h => hd h.2]
      exact .inl rfl

/-- Tries some numbers in turn, and gallops from there. -/
def stepFromWithin (rounds i : Nat) : (steps : Nat) → τ → Option (Nat × τ)
  | 0, w => gallopWithin f rounds ⟨i - 1, i, w⟩
  | steps + 1, w =>
    let answer := f i w
    if answer.1 then stepFromWithin rounds (i + 1) steps answer.2
    else some (i - 1, answer.2)

theorem stepFromWithin_eq {rounds i steps : Nat} (h : wordLimit ≤ rounds) (hpos : 0 < i)
    (hword : i + steps < wordLimit) (w : τ) :
    stepFromWithin f rounds i steps w = some (stepFrom f i steps w) := by
  induction steps generalizing i w with
  | zero => exact gallopWithin_eq f h ⟨i - 1, i, w⟩ ⟨hpos, by omega⟩
  | succ steps ih =>
    rw [stepFromWithin, stepFrom, Trial.bind_apply]
    split
    · exact ih (by omega) (by omega) _
    · rfl

/-- The search for a number that will do whose successor will not, with its loops in rounds. -/
def findIntegerWithin (rounds : Nat) (w : τ) : Option (Nat × τ) :=
  stepFromWithin f rounds 1 4 w

theorem findIntegerWithin_eq {rounds : Nat} (h : wordLimit ≤ rounds) (w : τ) :
    findIntegerWithin f rounds w = some (findInteger f w) :=
  stepFromWithin_eq f h (by decide) (by decide) w

end Find

/-! ## Small numbers -/

namespace Descent

variable {τ : Type} (test : Trial τ)

def lowerByMultiplesWithin (rounds k : Nat) (d : Descent τ) : Option (Descent τ) :=
  (findIntegerWithin (multiples test k d.current) rounds d).map Prod.snd

def lowerOnceWithin (rounds : Nat) (d : Descent τ) : Option (Descent τ) := do
  let d ← lowerByMultiplesWithin test rounds 2 (considerFirst test (shifts d.current) d).2
  lowerByMultiplesWithin test rounds 1 d

/-- Rounds of lowering steps, until one leaves the best number as it was. -/
def lowerWithin (rounds : Nat) (d : Descent τ) : Option (Descent τ) :=
  loop (fun d => (lowerOnceWithin test rounds d).map fun d' =>
    if d'.current = d.current then .inr d' else .inl d') rounds d

variable {rounds : Nat} (h : wordLimit ≤ rounds)

include h

theorem lowerByMultiplesWithin_eq (k : Nat) (d : Descent τ) :
    lowerByMultiplesWithin test rounds k d = some (lowerByMultiples test k d).2 := by
  rw [lowerByMultiplesWithin, findIntegerWithin_eq _ h]
  rfl

theorem lowerOnceWithin_eq (d : Descent τ) :
    lowerOnceWithin test rounds d = some (lowerOnce test d).2 := by
  rw [lowerOnceWithin, lowerByMultiplesWithin_eq test h, Option.bind_eq_bind, Option.bind_some,
    lowerByMultiplesWithin_eq test h, lowerOnce_apply]

theorem lowerWithin_eq {d : Descent τ} (hd : d.current < rounds) :
    lowerWithin test rounds d = some (lower test d) := by
  refine loop_eq_some (fun _ => True) current (lower test) (fun d _ => ?_) trivial hd
  have hle := Reaches.current_le (lowerOnce_reaches test d)
  rw [lowerOnceWithin_eq test h, Option.map_some, lower.eq_def test d]
  by_cases he : (lowerOnce test d).2.current = d.current
  · rw [if_pos he, dif_neg (by omega)]
    exact .inl rfl
  · rw [if_neg he, dif_pos (by omega)]
    exact .inr ⟨_, rfl, trivial, by omega, rfl⟩

end Descent

open Descent in
/-- The search for a small number, with its loops in rounds. -/
def minimizeIntegerWithin {τ : Type} (test : Trial τ) (rounds start : Nat) (w : τ) :
    Option (Nat × τ) :=
  let d := shortCut test ⟨start, w⟩
  (if d.1 then some d.2 else lowerWithin test rounds d.2).map fun d => (d.current, d.world)

/-- Whatever its trials answer, the search for a small number ends: its loops go round no more often
than there are words. -/
theorem minimizeIntegerWithin_eq {τ : Type} (test : Trial τ) {rounds start : Nat}
    (h : wordLimit ≤ rounds) (hs : start < wordLimit) (w : τ) :
    minimizeIntegerWithin test rounds start w = some (minimizeInteger test start w) := by
  have hle := Descent.Reaches.current_le (Descent.shortCut_spec test ⟨start, w⟩).1
  rw [minimizeIntegerWithin, minimizeInteger_apply, descended]
  dsimp only at hle ⊢
  split
  · rfl
  · rw [Descent.lowerWithin_eq test h (by omega)]
    rfl

end Falsify
