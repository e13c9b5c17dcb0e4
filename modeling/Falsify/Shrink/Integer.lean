import Falsify.Draw

/-!
# Searching for small numbers

Two searches over words, both by trial. A trial answers whether a number will do; it may keep a
state of its own, and nothing is assumed about its answers.

* `findInteger`: a number that will do whose successor will not, found with few trials;
* `minimizeInteger`: a number that will do and that no simple step lowers.
-/

namespace Falsify

/-- A test of numbers with a state. -/
abbrev Trial (τ : Type) := Nat → StateM τ Bool

/-- Numbers from here on are too large for a word. -/
def wordLimit : Nat := 2 ^ 64

section Find

variable {τ : Type}

/-- Halves the gap between a number that will do and one that will not. -/
def bisect (f : Trial τ) (low high : Nat) : StateM τ Nat :=
  if _h : low + 1 < high then do
    let middle := low + (high - low) / 2
    if ← f middle then bisect f middle high else bisect f low middle
  else return low
termination_by high - low
decreasing_by all_goals omega

/-- Doubles `high` as long as it will do and a word holds it. -/
def gallop (f : Trial τ) (low high : Nat) : StateM τ Nat := do
  if ← f high then
    if _h : high < 2 * high ∧ 2 * high < wordLimit then gallop f high (2 * high)
    else return high
  else bisect f low high
termination_by wordLimit - high

/-- Tries the numbers from `i` on, `steps` of them, and gallops from there. -/
def stepFrom (f : Trial τ) (i : Nat) : (steps : Nat) → StateM τ Nat
  | 0 => gallop f (i - 1) i
  | steps + 1 => do
    if ← f i then stepFrom f (i + 1) steps else return i - 1

/-- A number that will do whose successor will not, if zero will do: one to four in turn, then
doubling, then halving the gap. -/
def findInteger (f : Trial τ) : StateM τ Nat :=
  stepFrom f 1 4

end Find

/-- The state of a descent: the best number so far, and the state of the trials. -/
structure Descent (τ : Type) where
  current : Nat
  world : τ

namespace Descent

variable {τ : Type}

/-- Puts a number to trial; if it will do, it is the best one from now on. A number that is not
lower than the best one is no news. -/
def consider (test : Trial τ) (value : Nat) : StateM (Descent τ) Bool := fun d =>
  if value = d.current then (true, d)
  else if d.current < value then (false, d)
  else
    match test value d.world with
    | (true, world) => (true, ⟨value, world⟩)
    | (false, world) => (false, { d with world := world })

/-- Considers numbers in turn until one will do. -/
def considerFirst (test : Trial τ) : List Nat → StateM (Descent τ) Unit
  | [] => return ()
  | value :: rest => do
    if ← consider test value then return () else considerFirst test rest

/-- The low bits of a number: all but one, all but two, and so on down to one. -/
def maskings (n : Nat) : List Nat :=
  (List.range (bitLength n - 1)).map fun k => n % 2 ^ (bitLength n - 1 - k)

/-- The high bits of a number: all but one, all but two, and so on, as long as there is something
left. -/
def shifts (n : Nat) : List Nat :=
  (List.range (bitLength n - 1)).map fun k => n / 2 ^ (k + 1)

/-- Takes as many steps of `k` down from the best number as will do. -/
def lowerByMultiples (test : Trial τ) (k : Nat) : StateM (Descent τ) Unit := do
  let base := (← get).current
  let _ ← findInteger fun n =>
    if n * k ≤ base then consider test (base - n * k) else return false

/-- Tries zero, one, the low bits, and a single byte. True if nothing is left to do. -/
def shortCut (test : Trial τ) : StateM (Descent τ) Bool := do
  if ← consider test 0 then return true
  if ← consider test 1 then return true
  considerFirst test (maskings (← get).current)
  let size := bitLength (← get).current
  if size > 8 then
    let _ ← consider test ((← get).current / 2 ^ (size - 8))
    let _ ← consider test ((← get).current % 256)
  return (← get).current == 2

/-- One round of lowering steps. -/
def lowerOnce (test : Trial τ) : StateM (Descent τ) Unit := do
  considerFirst test (shifts (← get).current)
  lowerByMultiples test 2
  lowerByMultiples test 1

/-- Rounds of lowering steps as long as they lower the best number. -/
def lower (test : Trial τ) (d : Descent τ) : Descent τ :=
  let d' := (lowerOnce test d).2
  if _h : d'.current < d.current then lower test d' else d'
termination_by d.current

end Descent

/-- A number that will do, from a first one that does: only lower numbers than the best one so far
are tried, and the trial must say whether a number is to become the best. -/
def minimizeInteger {τ : Type} (test : Trial τ) (start : Nat) : StateM τ Nat := fun world =>
  let (done, d) := Descent.shortCut test ⟨start, world⟩
  let d := if done then d else Descent.lower test d
  (d.current, d.world)

end Falsify
