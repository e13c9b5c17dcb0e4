import Falsify.Proofs.Run.Case

/-!
# What health checks make of time

Of all that a monitor counts, only the slow cases depend on how long a case took. If the check
that looks at them is not made, a monitor finds the same of a case however long it took.

* `HealthMonitor.paceless`: a monitor that has counted no slow case;
* `observe_alike`: monitors that agree but for slow cases find the same of cases that are alike.
-/

namespace Falsify

namespace HealthMonitor

/-- A monitor that has counted no slow case. -/
def paceless (m : HealthMonitor) : HealthMonitor :=
  { m with slow := 0 }

/-- Counts a case by its outcome alone. -/
def tally (m : HealthMonitor) (c : Case) : HealthMonitor :=
  match c.outcome with
  | .gaveUp (.rejected _) => { m with rejected := m.rejected + 1 }
  | .gaveUp (.overrun _) => { m with large := m.large + 1 }
  | .gaveUp _ => m
  | .passed | .failed _ =>
    let tooLarge := m.limits.sizeCeiling < Encoding.encodedLength c.draws
    { m with valid := m.valid + 1, large := if tooLarge then m.large + 1 else m.large }

theorem count_eq (m : HealthMonitor) (c : Case) : m.count c =
    if (m.tally c).limits.slowThreshold ≤ c.timing.execution then
      { m.tally c with slow := (m.tally c).slow + 1 }
    else m.tally c := rfl

theorem paceless_count (m : HealthMonitor) (c : Case) :
    (m.count c).paceless = (m.tally c).paceless := by
  rw [count_eq]
  split <;> rfl

theorem tally_paceless (m : HealthMonitor) (c : Case) :
    m.paceless.tally c.timeless = (m.tally c).paceless := by
  have houtcome : c.timeless.outcome = c.outcome := rfl
  unfold tally
  rw [houtcome]
  rcases c.outcome with _ | _ | _ | _ | _ <;> rfl

theorem suppressed_tally (m : HealthMonitor) (c : Case) :
    (m.tally c).suppressed = m.suppressed := by
  unfold tally
  rcases c.outcome with _ | _ | _ | _ | _ <;> rfl

/-- A check for slowness that is not made does not fire. -/
theorem firing_paceless {m : HealthMonitor} (h : .tooSlow ∈ m.suppressed) :
    m.paceless.firing = m.firing := by
  have hslow : ∀ m' : HealthMonitor, .tooSlow ∈ m'.suppressed →
      (!m'.suppressed.contains .tooSlow && m'.reached .tooSlow) = false := by
    intro m' h'
    simp [h']
  unfold firing HealthCheck.all
  simp only [List.find?_cons, List.find?_nil, hslow m h, hslow m.paceless h]
  change Option.map _ (match !m.suppressed.contains .filterTooMuch && m.reached .filterTooMuch with
    | true => _
    | false => match !m.suppressed.contains .dataTooLarge && m.reached .dataTooLarge with
      | true => _
      | false => _) = _
  cases !m.suppressed.contains .filterTooMuch && m.reached .filterTooMuch <;>
    cases !m.suppressed.contains .dataTooLarge && m.reached .dataTooLarge <;> rfl

/-- If slow cases do not count, then no times do. -/
theorem observe_paceless {m : HealthMonitor} (h : .tooSlow ∈ m.suppressed) {c : Case}
    (hc : c.source = .generated) : (m.observe c).1 = (m.paceless.observe c.timeless).1 ∧
      (m.observe c).2.paceless = (m.paceless.observe c.timeless).2.paceless := by
  have hcount : (m.paceless.count c.timeless).paceless = (m.count c).paceless := by
    rw [paceless_count, paceless_count, tally_paceless]
    rfl
  have hsuppressed : .tooSlow ∈ (m.count c).paceless.suppressed := by
    rw [paceless_count]
    exact (m.suppressed_tally c).symm ▸ h
  have hsuppressed' : .tooSlow ∈ (m.paceless.count c.timeless).paceless.suppressed := by
    rw [hcount]
    exact hsuppressed
  have hfiring : (m.paceless.count c.timeless).firing = (m.count c).firing := by
    rw [← firing_paceless (m := m.count c) hsuppressed, ← hcount,
      firing_paceless (m := m.paceless.count c.timeless) hsuppressed']
  have hsource : (c.source ≠ .generated || !m.isActive) = !m.isActive := by
    simp [hc]
  have hsource' : (c.timeless.source ≠ .generated || !m.paceless.isActive) = !m.isActive := rfl
  unfold observe
  rw [hsource, hsource']
  cases m.isActive
  · exact ⟨rfl, rfl⟩
  · refine ⟨hfiring.symm, ?_⟩
    change { (m.count c).paceless with flagged := (m.count c).firing.isSome } = _
    rw [← hfiring, ← hcount]
    rfl

/-- Monitors that have counted alike, but for slow cases, find the same of cases that are alike. -/
theorem observe_alike {m m' : HealthMonitor} (hm : m'.paceless = m.paceless)
    (h : .tooSlow ∈ m.suppressed) {c c' : Case} (hc : c.source = .generated)
    (hc' : c'.source = .generated) (ht : c'.timeless = c.timeless) :
    (m'.observe c').1 = (m.observe c).1 ∧
      (m'.observe c').2.paceless = (m.observe c).2.paceless := by
  have h' : .tooSlow ∈ m'.suppressed := by
    have hs : m'.suppressed = m.suppressed := (congrArg suppressed hm :)
    exact hs ▸ h
  obtain ⟨h₁, h₂⟩ := observe_paceless h hc
  obtain ⟨h₁', h₂'⟩ := observe_paceless h' hc'
  rw [h₁, h₂, h₁', h₂', hm, ht]
  exact ⟨rfl, rfl⟩

theorem suppressed_observe (m : HealthMonitor) (c : Case) :
    (m.observe c).2.suppressed = m.suppressed := by
  unfold observe
  split
  · rfl
  · change (m.count c).paceless.suppressed = _
    rw [paceless_count]
    exact m.suppressed_tally c

end HealthMonitor

end Falsify
