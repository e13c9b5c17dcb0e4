import Falsify.Encoding
import Falsify.Outcome

/-!
# Health checks

A monitor watches the generated cases of a run and tells when the run is useless or painfully
slow: when most cases are turned down, when they are too large, or when the body is slow. Cases
from elsewhere are not looked at, and it stops looking once enough cases were valid or a check has
fired.

* `HealthMonitor.observe`: what the monitor makes of a case;
* `HealthMonitor.observe_of_not_generated`: other cases do not matter to it.
-/

namespace Falsify

/-- The numbers at which checks fire. -/
structure HealthLimits where
  /-- The monitor looks no further after this many valid cases. -/
  validWindow : Nat := 10
  maxRejected : Nat := 50
  maxLarge : Nat := 10
  maxSlow : Nat := 5
  /-- Cases with longer encodings count as large. -/
  sizeCeiling : Nat := 8 * 1024
  /-- Cases that take this long count as slow. -/
  slowThreshold : Duration := .ofSeconds 1

/-- A check that fired, and what it found. -/
structure HealthFailure where
  check : HealthCheck
  message : String
  deriving DecidableEq

def HealthFailure.toReason (f : HealthFailure) : GaveUpReason :=
  .healthCheck f.check f.message

/-- What has been counted so far. -/
structure HealthMonitor where
  limits : HealthLimits
  suppressed : List HealthCheck
  valid : Nat := 0
  rejected : Nat := 0
  large : Nat := 0
  slow : Nat := 0
  flagged : Bool := false

namespace HealthMonitor

/-- The monitor still looks at cases. -/
def isActive (m : HealthMonitor) : Bool :=
  !m.flagged && m.valid < m.limits.validWindow

/-- Counts a case by its outcome and its time. -/
def count (m : HealthMonitor) (c : Case) : HealthMonitor :=
  let m :=
    match c.outcome with
    | .gaveUp (.rejected _) => { m with rejected := m.rejected + 1 }
    | .gaveUp (.overrun _) => { m with large := m.large + 1 }
    | .gaveUp _ => m
    | .passed | .failed _ =>
      let tooLarge := m.limits.sizeCeiling < Encoding.encodedLength c.draws
      { m with valid := m.valid + 1, large := if tooLarge then m.large + 1 else m.large }
  if m.limits.slowThreshold ≤ c.timing.execution then { m with slow := m.slow + 1 } else m

/-- Whether a check has reached its limit. -/
def reached (m : HealthMonitor) : HealthCheck → Bool
  | .filterTooMuch => m.limits.maxRejected ≤ m.rejected
  | .dataTooLarge => m.limits.maxLarge ≤ m.large
  | .tooSlow => m.limits.maxSlow ≤ m.slow

/-- What a check that fires says. -/
def complaint (m : HealthMonitor) : HealthCheck → String
  | .filterTooMuch =>
    s!"too much filtering: only {m.valid} valid cases were generated " ++
      s!"while {m.rejected} were rejected"
  | .dataTooLarge =>
    s!"{m.large} generated cases exceeded the size limit of {m.limits.sizeCeiling} bytes"
  | .tooSlow =>
    let threshold := Text.fixedPoint 0 m.limits.slowThreshold.milliseconds
    s!"{m.slow} cases took longer than {threshold}ms to execute"

/-- The first check that fires, of those not suppressed. -/
def firing (m : HealthMonitor) : Option HealthFailure :=
  (HealthCheck.all.find? fun check => !m.suppressed.contains check && m.reached check).map
    fun check => ⟨check, m.complaint check⟩

/-- Looks at a case; the first time that a check fires, its failure is given. -/
def observe (m : HealthMonitor) (c : Case) : Option HealthFailure × HealthMonitor :=
  if c.source ≠ .generated || !m.isActive then (none, m)
  else
    let m := m.count c
    (m.firing, { m with flagged := m.firing.isSome })

theorem observe_of_not_generated (m : HealthMonitor) {c : Case} (h : c.source ≠ .generated) :
    m.observe c = (none, m) := by
  simp [observe, h]

end HealthMonitor

end Falsify
