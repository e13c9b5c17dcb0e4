import Falsify.Source

/-!
# Weighted coins, and growth by coin tosses

A coin comes up true with a given probability. It takes a whole word, so that lowering the draw
turns the coin towards false. `Growth` decides one element at a time whether a collection goes on:
each decision is a draw of its own, so that leaving out an element's decision together with the
element's draws leaves out exactly that element.

* `coin`: certain coins are written, all others drawn;
* `Growth.step`: the next decision;
* `Growth.repeatWhile`: one action for each decision to go on.
-/

namespace Falsify

/-- How many of the `2 ^ 64` words count as true for a coin of probability `p`. The conversion rounds
down. -/
def coinThreshold (p : Float) : UInt64 :=
  (p * 18446744073709551616.0).toUInt64

/-- A coin that comes up true with probability `p`. The highest words count as true. -/
def coin (p : Float) : DrawM Bool := do
  if p ≤ 0.0 then
    Source.write 0
    return false
  else if p ≥ 1.0 then
    Source.write 1
    return true
  else
    let probe ← Source.bits 64
    return probe > 0xFFFFFFFFFFFFFFFF - coinThreshold p

/-- The growth of a collection: its bounds, the probability of going on, and how far it has come. -/
structure Growth where
  least : Nat
  most : Nat
  goOn : Float
  count : Nat

namespace Growth

/-- The growth of a collection of `least` to `most` elements, `expected` of them on average. -/
def start (least most : Nat) (expected : Float) : Growth :=
  ⟨least, most, 1.0 - 1.0 / (1.0 + expected), 0⟩

def more (g : Growth) : Growth :=
  { g with count := g.count + 1 }

/-- Whether there is another element. Nothing is drawn for a collection of fixed size; otherwise a
decision that the bounds force is written, and any other is a coin. -/
def step (g : Growth) : DrawM Bool := do
  if g.least = g.most then
    return g.count < g.most
  else if g.count < g.least then
    Source.write 1
    return true
  else if g.most ≤ g.count then
    Source.write 0
    return false
  else
    coin g.goOn

/-- Decides, and counts the element if there is one. -/
def next (g : Growth) : DrawM (Bool × Growth) := do
  if ← g.step then
    return (true, g.more)
  else
    return (false, g)

/-- Every element still to come counts towards one of the bounds. -/
def room (g : Growth) : Nat :=
  max g.least g.most - g.count

theorem step_true_count_lt {g : Growth} {s s' : Source} (h : g.step s = (.ok true, s')) :
    g.count < max g.least g.most := by
  unfold step at h
  split at h
  · have : decide (g.count < g.most) = true := by
      injection h with h1 _
      injection h1
    have : g.count < g.most := of_decide_eq_true this
    omega
  · split at h
    · omega
    · split at h
      · rw [DrawM.bind_apply] at h
        split at h
        · cases h
        · cases h
      · omega

/-- Runs `element` once for each decision to go on, and gives what came of it. -/
def repeatWhile {α : Type} (element : DrawM α) (g : Growth) (s : Source) :
    Except Stop (List α) × Source :=
  match _h : g.step s with
  | (.error e, s') => (.error e, s')
  | (.ok false, s') => (.ok [], s')
  | (.ok true, s') =>
    match element s' with
    | (.error e, s') => (.error e, s')
    | (.ok a, s') =>
      match repeatWhile element g.more s' with
      | (.error e, s') => (.error e, s')
      | (.ok rest, s') => (.ok (a :: rest), s')
termination_by g.room
decreasing_by
  have := step_true_count_lt _h
  simp only [room, more]
  omega

end Growth

end Falsify
