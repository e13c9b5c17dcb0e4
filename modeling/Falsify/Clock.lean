import Falsify.Duration

/-!
# Clocks

A clock that never goes back. Time passes when somebody sleeps, and some of it passes before each
reading; how much is not known beforehand and is given as a sequence.

* `Clock.read`: the time now;
* `Clock.sleep`: lets time pass.
-/

namespace Falsify

/-- A clock: the nanoseconds that pass before each reading, how often it was read, and the time. -/
structure Clock where
  latency : Nat → Nat
  readings : Nat
  nanos : Nat

namespace Clock

def start (latency : Nat → Nat) : Clock :=
  ⟨latency, 0, 0⟩

/-- The time now, counted from the start of the clock. -/
def read (c : Clock) : Duration × Clock :=
  let nanos := c.nanos + c.latency c.readings
  (⟨nanos⟩, { c with readings := c.readings + 1, nanos := nanos })

def sleep (c : Clock) (nanos : Nat) : Clock :=
  { c with nanos := c.nanos + nanos }

theorem nanos_le_read (c : Clock) : c.nanos ≤ c.read.2.nanos :=
  Nat.le_add_right _ _

end Clock

end Falsify
