import Falsify.Proofs.Run.Disposal
import Falsify.Proofs.Run.Recorded

/-!
# Runs do not crash

A body may crash, and that is a failure like any other. The run around it crashes in two cases only.
One is how long a case may take: while deadlines are relaxed this is a quarter of five times the
deadline, and five times a long deadline is not a span of time. The other one is what the body has
crashed with: letting go of that value may run code, and the code may crash.

* `runs_reproduce`: replaying a token respects what the rest of a run respects;
* `runProperty_never_crashes`: under a deadline that can be relaxed no run crashes, as long as what
  its bodies crash with can be let go;
* `run_crashes_on_long_deadline`: under another deadline it may, although its five quarters are a
  span;
* `run_crashes_letting_go`: and it may under any deadline if letting go crashes.
-/

namespace Falsify

namespace RunM

open World

variable {σ : Type} {S : CaseSource → Prop} {R : World σ → World σ → Prop} {E : RunError → Prop}

theorem runs_reproduce (hR : PlayFrame S R) (hs : S .reproduction) (ht : ∀ e, E (.token e))
    (hE : ∀ m, E (.invalidArgument m)) (property : Property) (token : String) :
    Runs R E (reproduce property token : RunM σ RunResult) := by
  unfold reproduce
  split
  · exact runs_throw hR.toFrame (ht _)
  · refine runs_runner_bind fun r => (Ends.runs_told hR (ends_tellPhase _)).bind hR.toFrame fun _ =>
      (Ends.runs hR (idle_setMode _)).bind hR.toFrame fun _ =>
        (runs_execute hR property _ hs _).bind hR.toFrame fun c =>
          (runs_refuseInvalid hR.toFrame hE c).bind hR.toFrame fun _ => ?_
    split
    · exact (runs_counterexample hR _ _ _).bind hR.toFrame fun _ => runs_finish hR _ _ _ _
    · exact runs_finish hR _ _ _ _

/-- Any two worlds are related. -/
theorem unrelated_frame : RunFrame S (fun _ _ : World σ => True) where
  refl _ := trivial
  trans _ _ := trivial
  idle _ := trivial
  ran _ _ := trivial
  broke _ := trivial
  stored _ := trivial
  noted _ := trivial

end RunM

open RunM

/-- A run under a deadline that can be relaxed comes to a result, or refuses its settings, its token
or an argument. It never crashes, whatever the body does and whatever it crashes with, as long as
letting go of that does not crash in its turn. -/
theorem runProperty_never_crashes {σ : Type} [Disposal] (host : Host σ) (property : Property)
    {w : World σ} (hd : w.runner.deadline.Tenable) (hq : property.Quiet) (c : Crash) :
    (runProperty host property w).1 ≠ .error (.crashed c) := by
  rw [runProperty_quiet hq]
  rcases hv : w.runner.settings.validate with e | ⟨⟩
  · rw [runProperty_invalid host property hv]
    nofun
  · obtain ⟨w₁, hb, h₁⟩ := runProperty_begun host property hv
    have hsteady : w₁.Steady w.runner.deadline.deadline :=
      ⟨congrArg _ hb.deadline, hd.congr (congrArg _ hb.deadline), hb.crash⟩
    have hR : RunFrame (fun _ => True) (fun _ _ : World σ => True) := unrelated_frame
    have hE : ∀ m c, RunError.invalidArgument m ≠ .crashed c := by
      rintro _ _ ⟨⟩
    have ht : ∀ e c, RunError.token e ≠ .crashed c := by
      rintro _ _ ⟨⟩
    have hend : ∀ x : RunM σ RunResult,
        Runs (fun _ _ => True) (fun e => ∀ c, e ≠ .crashed c) x → (x w₁).1 ≠ .error (.crashed c) :=
      fun x hx h => ((hx w₁).2 _ hsteady).2 _ h c rfl
    rw [h₁]
    rcases w.runner.settings.reproduce with _ | token
    · exact hend _ (runs_search hR (fun _ => trivial) hE host property)
    · exact hend _ (runs_reproduce hR.toPlayFrame trivial ht hE property token)

/-- What the body crashes with is what the run reports. Code that belongs to that value crashes
after a note, but the body leaves none. -/
theorem runProperty_never_crashes_crashing :
    let _ : Disposal := ⟨fun _ s => if s.notes.isEmpty then none else some (.text "note")⟩
    let property : Property := fun _ => .crash .other
    let w : World Memory := .under {
      deadline := some (.ofSeconds 60), seed := some 1, phases := [.reuse, .generate] }
    w.runner.deadline.Tenable ∧ property.Quiet ∧
      (runProperty .bare property w).1.toOption.map RunResult.outcome =
        some (.failed (.body "test panicked")) ∧
      (runProperty .bare property w).1 ≠ .error (.crashed .other) := by
  intro _ property w
  have hd : w.runner.deadline.Tenable := by decide
  have hq : property.Quiet := fun _ _ _ _ _ => rfl
  exact ⟨hd, hq, by decide +kernel, runProperty_never_crashes .bare property hd hq .other⟩

/-- What a run crashed with, if it did. -/
def crashOf {α : Type} : Except RunError α → Option Crash
  | .error (.crashed c) => some c
  | _ => none

theorem crashOf_eq_some_iff {α : Type} {r : Except RunError α} {c : Crash} :
    crashOf r = some c ↔ r = .error (.crashed c) := by
  rcases r with (_ | _ | _ | c') | a <;> simp [crashOf]

/-- Not every deadline that settings may have can be relaxed. Under `2 ^ 62` seconds any case that
passes crashes the run, although five quarters of that would be a span of time. -/
theorem run_crashes_on_long_deadline :
    ¬ ∀ (settings : Settings) (property : Property) (c : Crash), settings.validate = .ok () →
      (∀ d ∈ settings.deadline, d.nanos / 4 * 5 < Duration.limit) →
      (runProperty .bare property (.under settings)).1 ≠ .error (.crashed c) := by
  intro h
  refine h { deadline := some (.ofSeconds (2 ^ 62)), seed := some 1 } (fun _ => .done (.ok ()))
    durationOverflow rfl (by decide) (crashOf_eq_some_iff.1 ?_)
  decide +kernel

/-- Nor can every value be let go. If code that belongs to it crashes then, the run crashes,
although it has no deadline. -/
theorem run_crashes_letting_go :
    ¬ ∀ (_ : Disposal) (settings : Settings) (property : Property) (c : Crash),
      settings.validate = .ok () → settings.deadline = none →
      (runProperty .bare property (.under settings)).1 ≠ .error (.crashed c) := by
  intro h
  refine h ⟨fun _ _ => some (.text "dropped")⟩ { deadline := none, seed := some 1 }
    (fun _ => .crash .other) (.text "dropped") rfl rfl (crashOf_eq_some_iff.1 ?_)
  decide +kernel

end Falsify
