import Mathlib.Data.List.Induction
import Falsify.Health

/-!
# When a health check fires

A monitor counts as it goes, stops once enough cases were valid, and stops for good when a check
has fired. What it says can be told from the cases alone: a check is due at a generated case before
which the window of valid cases was not full, when the generated cases up to this one reach the
limit of the check. The monitor speaks once, at the first case at which a check is due.

* `HealthLimits.due?`: the check that is due at a case;
* `HealthMonitor.tallied`: the counts of a list of cases;
* `HealthMonitor.watch_spec`: while no check was due and the window is not full a monitor has
  counted all cases, and afterwards it looks at none;
* `HealthMonitor.speaks_once`: the theorem.
-/

namespace Falsify

namespace Case

/-- The case was generated. Monitors look at no other. -/
def isGenerated (c : Case) : Bool :=
  c.source = .generated

/-- The case came to an answer. -/
def isValid (c : Case) : Bool :=
  match c.outcome with
  | .passed | .failed _ => true
  | .gaveUp _ => false

/-- The case is one of those that the check is about. -/
def countsFor (limits : HealthLimits) (c : Case) : HealthCheck → Bool
  | .filterTooMuch =>
    match c.outcome with
    | .gaveUp (.rejected _) => true
    | _ => false
  | .dataTooLarge =>
    match c.outcome with
    | .gaveUp (.overrun _) => true
    | .gaveUp _ => false
    | .passed | .failed _ => limits.sizeCeiling < Encoding.encodedLength c.draws
  | .tooSlow => limits.slowThreshold ≤ c.timing.execution

end Case

/-- How many generated cases of the list are valid. -/
def validIn (cases : List Case) : Nat :=
  cases.countP fun c => c.isGenerated && c.isValid

namespace HealthLimits

/-- The number of cases at which a check fires. -/
def most (limits : HealthLimits) : HealthCheck → Nat
  | .filterTooMuch => limits.maxRejected
  | .dataTooLarge => limits.maxLarge
  | .tooSlow => limits.maxSlow

/-- How many generated cases of the list a check is about. -/
def counted (limits : HealthLimits) (check : HealthCheck) (cases : List Case) : Nat :=
  cases.countP fun c => c.isGenerated && c.countsFor limits check

/-- The check that is due at a case after some others: the first one that is not suppressed and
whose limit is reached with this case, unless the case is not looked at or the window is full. -/
def due? (limits : HealthLimits) (suppressed : List HealthCheck) (before : List Case) (c : Case) :
    Option HealthCheck :=
  if c.isGenerated && decide (validIn before < limits.validWindow) then
    HealthCheck.all.find? fun check =>
      !suppressed.contains check &&
        decide (limits.most check ≤ limits.counted check (before ++ [c]))
  else none

/-- No check was due at any of the cases. -/
def Undisturbed (limits : HealthLimits) (suppressed : List HealthCheck) (cases : List Case) :
    Prop :=
  ∀ before c after, cases = before ++ c :: after → limits.due? suppressed before c = none

variable {limits : HealthLimits} {suppressed : List HealthCheck} {cases : List Case} {c : Case}

theorem undisturbed_nil : limits.Undisturbed suppressed [] := by
  intro before c after h
  simp at h

theorem undisturbed_concat : limits.Undisturbed suppressed (cases ++ [c]) ↔
    limits.Undisturbed suppressed cases ∧ limits.due? suppressed cases c = none := by
  constructor
  · intro h
    refine ⟨fun before d after heq => h before d (after ++ [c]) (by simp [heq]), h cases c [] rfl⟩
  · rintro ⟨h, hc⟩ before d after heq
    rcases List.eq_nil_or_concat after with rfl | ⟨after', last, rfl⟩
    · obtain ⟨rfl, rfl⟩ : cases = before ∧ c = d := by simpa using heq
      exact hc
    · have hsplit : cases ++ [c] = (before ++ d :: after') ++ [last] := by simpa using heq
      exact h before d after' (List.append_inj_left' hsplit rfl)

/-- A generated case is counted by each check that is about it. -/
theorem counted_concat (limits : HealthLimits) (check : HealthCheck) (cases : List Case)
    (h : c.isGenerated = true) : limits.counted check (cases ++ [c]) =
      limits.counted check cases + if c.countsFor limits check then 1 else 0 := by
  rw [counted, List.countP_append, List.countP_singleton, h, Bool.true_and]
  rfl

theorem validIn_concat (cases : List Case) (h : c.isGenerated = true) :
    validIn (cases ++ [c]) = validIn cases + if c.isValid then 1 else 0 := by
  rw [validIn, List.countP_append, List.countP_singleton, h, Bool.true_and]
  rfl

theorem validIn_le_concat (cases : List Case) (c : Case) :
    validIn cases ≤ validIn (cases ++ [c]) := by
  rw [validIn, validIn, List.countP_append]
  exact Nat.le_add_right _ _

end HealthLimits

namespace HealthMonitor

open HealthLimits

/-- The monitor that has looked at the cases. -/
def watch (m : HealthMonitor) (cases : List Case) : HealthMonitor :=
  cases.foldl (fun m c => (m.observe c).2) m

/-- What the monitor says at a case after some others. -/
def answer (m : HealthMonitor) (before : List Case) (c : Case) : Option HealthFailure :=
  ((m.watch before).observe c).1

/-- A monitor that has counted all generated cases of the list. -/
def tallied (limits : HealthLimits) (suppressed : List HealthCheck) (cases : List Case) :
    HealthMonitor where
  limits := limits
  suppressed := suppressed
  valid := validIn cases
  rejected := limits.counted .filterTooMuch cases
  large := limits.counted .dataTooLarge cases
  slow := limits.counted .tooSlow cases

variable {limits : HealthLimits} {suppressed : List HealthCheck} {cases : List Case} {c : Case}

theorem watch_concat (m : HealthMonitor) (cases : List Case) (c : Case) :
    m.watch (cases ++ [c]) = ((m.watch cases).observe c).2 := by
  rw [watch, List.foldl_append]
  rfl

/-! ## One case -/

theorem observe_of_inactive {m : HealthMonitor} (h : m.isActive = false) (c : Case) :
    m.observe c = (none, m) := by
  simp [observe, h]

theorem observe_of_active {m : HealthMonitor} (h : m.isActive = true) (hc : c.isGenerated = true) :
    m.observe c =
      ((m.count c).firing, { m.count c with flagged := (m.count c).firing.isSome }) := by
  have hsource : c.source = .generated := of_decide_eq_true hc
  simp [observe, h, hsource]

/-- What is not generated is not counted. -/
theorem tallied_concat_other (h : c.isGenerated = false) :
    tallied limits suppressed (cases ++ [c]) = tallied limits suppressed cases := by
  simp [tallied, validIn, counted, h]

/-- What is generated is counted by its outcome, its size and its time. -/
theorem count_tallied (h : c.isGenerated = true) :
    (tallied limits suppressed cases).count c = tallied limits suppressed (cases ++ [c]) := by
  have hvalid := validIn_concat cases h
  have hcounted := fun check => counted_concat limits check cases h
  by_cases hslow : limits.slowThreshold ≤ c.timing.execution <;>
    by_cases hlarge : limits.sizeCeiling < Encoding.encodedLength c.draws <;>
      rcases ho : c.outcome with _ | _ | _ | _ | _ | _ | _ | _ <;>
        simp [tallied, count, hvalid, hcounted, Case.isValid, Case.countsFor, ho, hslow, hlarge]

theorem reached_tallied (check : HealthCheck) : (tallied limits suppressed cases).reached check =
    decide (limits.most check ≤ limits.counted check cases) := by
  cases check <;> rfl

theorem isActive_tallied : (tallied limits suppressed cases).isActive =
    decide (validIn cases < limits.validWindow) := rfl

/-- With a generated case counted and the window not full before it, the check that fires is the
one that is due. -/
theorem firing_tallied (hc : c.isGenerated = true) (hroom : validIn cases < limits.validWindow) :
    (tallied limits suppressed (cases ++ [c])).firing =
      (limits.due? suppressed cases c).map fun check =>
        ⟨check, (tallied limits suppressed (cases ++ [c])).complaint check⟩ := by
  simp only [firing, due?, hc, hroom, decide_true, Bool.and_true, if_true, reached_tallied]
  rfl

/-! ## All cases -/

/-- No check was due so far, and the window is not full. -/
def Watching (limits : HealthLimits) (suppressed : List HealthCheck) (cases : List Case) : Prop :=
  limits.Undisturbed suppressed cases ∧ validIn cases < limits.validWindow

theorem Watching.of_concat (h : Watching limits suppressed (cases ++ [c])) :
    Watching limits suppressed cases :=
  ⟨(undisturbed_concat.1 h.1).1, Nat.lt_of_le_of_lt (validIn_le_concat cases c) h.2⟩

/-- A monitor that still watches has counted all cases, and one that does not is inactive: by
induction on the cases, the last one apart. -/
theorem watch_spec (limits : HealthLimits) (suppressed : List HealthCheck) (cases : List Case) :
    let m := (tallied limits suppressed []).watch cases
    (Watching limits suppressed cases → m = tallied limits suppressed cases) ∧
      (¬ Watching limits suppressed cases → m.isActive = false) := by
  induction cases using List.reverseRecOn with
  | nil =>
    refine ⟨fun _ => rfl, fun h => ?_⟩
    have hfull : ¬ validIn [] < limits.validWindow := fun hroom => h ⟨undisturbed_nil, hroom⟩
    exact isActive_tallied.trans (decide_eq_false hfull)
  | append_singleton cases c ih =>
    simp only [watch_concat]
    by_cases hw : Watching limits suppressed cases
    · rw [ih.1 hw]
      have hactive : (tallied limits suppressed cases).isActive = true :=
        isActive_tallied.trans (decide_eq_true hw.2)
      by_cases hc : c.isGenerated = true
      · rw [observe_of_active hactive hc, count_tallied hc, firing_tallied hc hw.2]
        rcases hdue : limits.due? suppressed cases c with _ | check
        · refine ⟨fun _ => rfl, fun h => ?_⟩
          have hfull : ¬ validIn (cases ++ [c]) < limits.validWindow := fun hroom =>
            h ⟨undisturbed_concat.2 ⟨hw.1, hdue⟩, hroom⟩
          exact isActive_tallied.trans (decide_eq_false hfull)
        · refine ⟨fun h => ?_, fun _ => rfl⟩
          have hnone := (undisturbed_concat.1 h.1).2
          rw [hdue] at hnone
          cases hnone
      · have hc : c.isGenerated = false := Bool.eq_false_iff.2 hc
        have hsource : c.source ≠ .generated := of_decide_eq_false hc
        rw [observe_of_not_generated _ hsource, tallied_concat_other hc]
        refine ⟨fun _ => rfl, fun h => ?_⟩
        refine absurd ⟨undisturbed_concat.2 ⟨hw.1, by simp [due?, hc]⟩, ?_⟩ h
        simpa [validIn, hc] using hw.2
    · have hinactive := ih.2 hw
      rw [observe_of_inactive hinactive]
      exact ⟨fun h => absurd h.of_concat hw, fun _ => hinactive⟩

/-- The monitor speaks when a check is due and none was due before. -/
theorem answer_eq_some_iff (limits : HealthLimits) (suppressed : List HealthCheck)
    (before : List Case) (c : Case) (failure : HealthFailure) :
    (tallied limits suppressed []).answer before c = some failure ↔
      limits.Undisturbed suppressed before ∧ ∃ check, limits.due? suppressed before c = some check ∧
        failure = ⟨check, (tallied limits suppressed (before ++ [c])).complaint check⟩ := by
  obtain ⟨hopen, hshut⟩ := watch_spec limits suppressed before
  unfold answer
  by_cases hc : c.isGenerated = true
  · by_cases hw : Watching limits suppressed before
    · have hactive : (tallied limits suppressed before).isActive = true :=
        isActive_tallied.trans (decide_eq_true hw.2)
      rw [hopen hw, observe_of_active hactive hc, count_tallied hc, firing_tallied hc hw.2,
        Option.map_eq_some_iff]
      simp only [hw.1, true_and, eq_comm]
    · rw [observe_of_inactive (hshut hw)]
      refine ⟨nofun, ?_⟩
      rintro ⟨hquiet, check, hdue, -⟩
      have hroom : validIn before < limits.validWindow := by
        refine Decidable.byContradiction fun hfull => ?_
        simp [due?, hfull] at hdue
      exact absurd ⟨hquiet, hroom⟩ hw
  · have hc : c.isGenerated = false := Bool.eq_false_iff.2 hc
    have hsource : c.source ≠ .generated := of_decide_eq_false hc
    rw [observe_of_not_generated _ hsource]
    refine ⟨nofun, ?_⟩
    rintro ⟨-, check, hdue, -⟩
    simp [due?, hc] at hdue

/-- What is inactive stays so. -/
theorem watch_of_inactive {m : HealthMonitor} (h : m.isActive = false) (cases : List Case) :
    m.watch cases = m := by
  induction cases with
  | nil => rfl
  | cons c rest ih =>
    have hstep : m.watch (c :: rest) = (m.observe c).2.watch rest := rfl
    rw [hstep, observe_of_inactive h]
    exact ih

/-- Cases that were not generated leave the monitor as it is. -/
theorem watch_filter (m : HealthMonitor) (cases : List Case) :
    m.watch (cases.filter Case.isGenerated) = m.watch cases := by
  induction cases generalizing m with
  | nil => rfl
  | cons c rest ih =>
    have hstep : m.watch (c :: rest) = (m.observe c).2.watch rest := rfl
    by_cases hc : c.isGenerated = true
    · rw [List.filter_cons_of_pos hc, hstep, ← ih]
      rfl
    · have hsource : c.source ≠ .generated := of_decide_eq_false (Bool.eq_false_iff.2 hc)
      rw [List.filter_cons_of_neg hc, hstep, observe_of_not_generated _ hsource]
      exact ih m

/-- A monitor speaks at the first case at which a check is due, of that check and with the counts
up to this case, and it speaks once. Cases that were not generated change no answer, a check that is
suppressed is never named, and a monitor that has become inactive stays so. -/
theorem speaks_once (limits : HealthLimits) (suppressed : List HealthCheck) :
    let monitor : HealthMonitor := { limits, suppressed }
    (∀ before c failure, monitor.answer before c = some failure ↔
      limits.Undisturbed suppressed before ∧
        ∃ check, limits.due? suppressed before c = some check ∧
          failure = ⟨check, (tallied limits suppressed (before ++ [c])).complaint check⟩) ∧
    (∀ before c failure between d, monitor.answer before c = some failure →
      monitor.answer (before ++ c :: between) d = none) ∧
    (∀ before before' c, before.filter Case.isGenerated = before'.filter Case.isGenerated →
      monitor.answer before c = monitor.answer before' c) ∧
    (∀ before c failure, monitor.answer before c = some failure →
      c.source = .generated ∧ failure.check ∉ suppressed) ∧
    ∀ before after, (monitor.watch before).isActive = false →
      (monitor.watch (before ++ after)).isActive = false := by
  intro monitor
  have hspeaks := answer_eq_some_iff limits suppressed
  refine ⟨hspeaks, fun before c failure between d h => ?_, fun before before' c h => ?_,
    fun before c failure h => ?_, fun before after h => ?_⟩
  · obtain ⟨-, check, hdue, -⟩ := (hspeaks before c failure).1 h
    refine Option.eq_none_iff_forall_ne_some.2 fun failure' h' => ?_
    have hquiet := ((hspeaks _ d failure').1 h').1
    cases (hquiet before c between rfl).symm.trans hdue
  · rw [answer, answer, ← watch_filter, h, watch_filter]
  · obtain ⟨-, check, hdue, rfl⟩ := (hspeaks before c failure).1 h
    unfold due? at hdue
    split at hdue
    · rename_i hlooked
      have hfound := List.find?_some hdue
      rw [Bool.and_eq_true] at hlooked hfound
      exact ⟨of_decide_eq_true hlooked.1, by simpa using hfound.1⟩
    · cases hdue
  · have hwatch : monitor.watch (before ++ after) = (monitor.watch before).watch after :=
      List.foldl_append
    rw [hwatch, watch_of_inactive h]
    exact h

/-- A case that was turned down at once. -/
def turnedDown (source : CaseSource) : Case where
  outcome := .gaveUp (.rejected "odd")
  timing := ⟨.ofSeconds 0, .ofSeconds 0⟩
  draws := []
  source := source
  arguments := []
  notes := []
  features := []
  predicates := []
  crash := none
  features_ordered := Assoc.ordered_nil

/-- The second generated case fires the check, and the one from the database does not count. -/
theorem speaks_once_turnedDown :
    let limits : HealthLimits := { maxRejected := 2 }
    let monitor : HealthMonitor := { limits, suppressed := [.tooSlow] }
    let before := [turnedDown .generated, turnedDown .database]
    let failure : HealthFailure := ⟨.filterTooMuch,
      "too much filtering: only 0 valid cases were generated while 2 were rejected"⟩
    monitor.answer before (turnedDown .generated) = some failure ∧
      failure.check ∉ [HealthCheck.tooSlow] ∧
      monitor.answer (before ++ turnedDown .generated :: before) (turnedDown .generated) =
        none := by
  intro limits monitor before failure
  obtain ⟨-, honce, -, hnamed, -⟩ := speaks_once limits [.tooSlow]
  have hspoken : monitor.answer before (turnedDown .generated) = some failure := by decide +kernel
  exact ⟨hspoken, (hnamed before _ failure hspoken).2, honce before _ failure before _ hspoken⟩

end HealthMonitor

end Falsify
