import Falsify.Proofs.Run.Parts

/-!
# Letting go of what bodies crash with

What a body has crashed with is let go before its case is counted, and code that belongs to it is
run then. As long as none of this code crashes, no part of a run depends on it.

* `Property.Quiet`: nothing that a property crashes with crashes in its turn;
* `runProperty_quiet`: a run of such a property is the run that there is if letting go runs no code,
  so what is proved of the latter holds of the former;
* `execute_crashes`: otherwise the run crashes, whatever its deadline.
-/

namespace Falsify

/-- Letting go of what a call has crashed with never crashes in its turn. -/
def Property.Quiet [Disposal] (property : Property) : Prop :=
  ∀ history source attempts clock interrupted,
    let r := (property history).run (.start source attempts clock interrupted)
    r.1.letGo? history r.2 = none

namespace RunM

open World

variable {σ : Type} [Disposal] {property : Property}

/-- Code that crashes as a value is let go crashes the run: nothing is counted, and the deadline has
no part in it. -/
theorem execute_crashes (property : Property) (forced : Draws) (source : CaseSource) (seed : UInt64)
    (w : World σ) {c : Crash} {s : CaseState}
    (hrun : (property w.executed).run (.start (.replaying forced seed w.runner.settings.maxDraws)
      w.runner.settings.filterAttempts w.clock.read.2 w.runner.interrupted) = (.crashed .other, s))
    (hc : Disposal.crash? w.executed s = some c) :
    execute property forced source seed w =
      (.error (.crashed c), { w.played s with crash := some c }) := by
  rw [execute_letting_go]
  dsimp only
  rw [hrun, outcomeLettingGo, Ending.letGo?, hc]
  rfl

section Quiet

variable (hq : property.Quiet)

include hq

theorem execute_quiet (forced : Draws) (source : CaseSource) (seed : UInt64) :
    execute property forced source seed = @execute σ .quiet property forced source seed := by
  funext w
  rw [execute_letting_go, execute_apply]
  dsimp only
  rw [outcomeLettingGo_of_none (hq _ _ _ _ _)]

/-! ## Phases -/

theorem reuseFrom_quiet (entries : List (EntryKind × Draws)) :
    reuseFrom property entries = @reuseFrom σ .quiet property entries := by
  induction entries with
  | nil => rfl
  | cons entry rest ih =>
    unfold reuseFrom
    rw [execute_quiet hq, ih]

theorem reuse_quiet : reuse property = @reuse σ .quiet property := by
  unfold reuse
  simp only [reuseFrom_quiet hq]

/-- Making new cases: by induction on how many more there may be. -/
theorem generateFrom_quiet (maxExamples maxInvalid : Nat) (seeds : ChaCha8)
    (monitor : HealthMonitor) (valid invalid : Nat) :
    generateFrom property maxExamples maxInvalid seeds monitor valid invalid =
      @generateFrom σ .quiet property maxExamples maxInvalid seeds monitor valid invalid := by
  induction hn : (maxExamples - valid) + (maxInvalid - invalid) using Nat.strongRecOn
    generalizing seeds monitor valid invalid with
  | _ n ih =>
    have hjudge (seeds : ChaCha8) (c : Case) (hv : valid < maxExamples) :
        judge property maxExamples maxInvalid seeds monitor valid invalid c =
          @judge σ .quiet property maxExamples maxInvalid seeds monitor valid invalid c := by
      unfold judge
      rcases monitor.observe c with ⟨_ | failure, monitor⟩
      · refine ite_congr rfl (fun _ => ite_congr rfl (fun _ => rfl) fun _ => ?_)
          fun _ => ite_congr rfl (fun _ => rfl) fun hi => ?_
        · exact ih _ (by omega) _ _ _ _ rfl
        · exact ih _ (by omega) _ _ _ _ rfl
      · rfl
    rw [generateFrom_eq, @generateFrom_eq σ .quiet]
    refine ite_congr rfl (fun hv => ?_) fun _ => rfl
    simp only [execute_quiet hq, hjudge _ _ hv]

theorem generate_quiet (seed : UInt64) :
    generate property seed = @generate σ .quiet property seed := by
  unfold generate
  simp only [generateFrom_quiet hq]

theorem oracle_quiet (origin : Origin) (began : Duration) :
    oracle property origin began = @oracle σ .quiet property origin began := by
  unfold oracle
  simp only [execute_quiet hq]

theorem shrink_quiet (initial : Case) (reason : FailureReason) :
    shrink property initial reason = @shrink σ .quiet property initial reason := by
  unfold shrink
  simp only [oracle_quiet hq]

theorem finalReplay_quiet (initial : Case) (best : Draws) :
    finalReplay property initial best = @finalReplay σ .quiet property initial best := by
  unfold finalReplay
  simp only [execute_quiet hq]

theorem conclude_quiet (initial : Case) (fromDatabase : Bool) (seed : UInt64) :
    conclude property initial fromDatabase seed =
      @conclude σ .quiet property initial fromDatabase seed := by
  unfold conclude
  simp only [shrink_quiet hq, finalReplay_quiet hq]

theorem reproduce_quiet (token : String) :
    reproduce property token = @reproduce σ .quiet property token := by
  unfold reproduce
  simp only [execute_quiet hq]

theorem search_quiet (host : Host σ) :
    search host property = @search σ .quiet host property := by
  unfold search
  simp only [reuse_quiet hq, generate_quiet hq, conclude_quiet hq]

end Quiet

end RunM

/-- A run of a property whose values can be let go is the run that there is if letting go runs no
code. -/
theorem runProperty_quiet {σ : Type} [Disposal] {property : Property} (hq : property.Quiet)
    (host : Host σ) : runProperty host property = @runProperty σ .quiet host property := by
  unfold runProperty
  simp only [RunM.reproduce_quiet hq, RunM.search_quiet hq]

end Falsify
