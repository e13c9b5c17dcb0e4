import Falsify.Proofs.Run.Counterexample

/-!
# Parts of a run by name

Some phases go on in one of several ways after a choice. Each of these is a sequence of
named parts here, in which the choice is a part of its own.

* `reuse_eq`: entries are loaded, and then tried;
* `generateFrom_eq`: a case is made, saved if it is of use, and judged;
* `shrink_eq`, `finalReplay_eq`, `conclude_eq`: what becomes of a failing case.
-/

namespace Falsify

/-- What has been read back of a test, in the order in which it is tried. -/
def LoadedExamples.entries (loaded : LoadedExamples) : List (EntryKind × Draws) :=
  loaded.failing.map (EntryKind.failing, ·) ++ loaded.covering.map (EntryKind.covering, ·)

namespace RunM

variable {σ : Type}

/-! ## Cases from the database -/

/-- Tells how much has been read back. -/
def tellLoaded (loaded : LoadedExamples) : RunM σ Unit := do
  if 0 < loaded.discarded then
    tell .info s!"discarded {loaded.discarded} saved examples that no longer decode"
  let failing := loaded.failing.length
  let covering := loaded.covering.length
  tellPhase s!"reusing {failing} failing and {covering} covering examples"

theorem ends_tellLoaded (loaded : LoadedExamples) :
    Ends World.Told (tellLoaded loaded : RunM σ Unit) := by
  unfold tellLoaded
  split
  · exact (ends_tell _ _).bind World.told_frame fun _ => ends_tellPhase _
  · exact ends_tellPhase _

theorem reuse_eq (property : Property) : reuse property = (do
    let r ← runner
    match r.store with
    | none => return none
    | some backend =>
      match ← stored (Examples.load backend r.key) with
      | .error e =>
        databaseError "loading saved examples" e
        return none
      | .ok loaded =>
        tellLoaded loaded
        setMode .relaxed
        reuseFrom property loaded.entries : RunM σ (Option Case)) := by
  refine bind_congr fun r => ?_
  rcases r.store with _ | backend
  · rfl
  · refine bind_congr fun loaded => ?_
    rcases loaded with e | loaded
    · rfl
    · dsimp only
      unfold tellLoaded
      split <;> simp only [bind_assoc] <;> rfl

/-! ## New cases -/

/-- Saves a case that passed, if it is of use. -/
def keep (c : Case) : RunM σ Unit :=
  if c.outcome = .passed then saveIfCovering c else pure ()

theorem ends_keep (c : Case) : Ends World.Continues (keep c : RunM σ Unit) := by
  unfold keep
  split
  · exact ends_saveIfCovering c
  · exact ends_pure World.continues_frame ()

/-- Goes on after a case that did not fail, unless a check fires or too many were invalid. -/
def judge [Disposal] (property : Property) (maxExamples maxInvalid : Nat) (seeds : ChaCha8)
    (monitor : HealthMonitor) (valid invalid : Nat) (c : Case) : RunM σ GenerationEnd :=
  match monitor.observe c with
  | (some failure, _) => do
    tellUnhealthy failure
    return .unhealthy failure
  | (none, monitor) =>
    if c.outcome = .passed then
      if maxInvalid ≤ invalid then return .gaveUp (.tooMuchFiltering invalid (valid + 1))
      else generateFrom property maxExamples maxInvalid seeds monitor (valid + 1) invalid
    else
      if maxInvalid ≤ invalid + 1 then return .gaveUp (.tooMuchFiltering (invalid + 1) valid)
      else generateFrom property maxExamples maxInvalid seeds monitor valid (invalid + 1)

theorem generateFrom_eq [Disposal] (property : Property) (maxExamples maxInvalid : Nat)
    (seeds : ChaCha8) (monitor : HealthMonitor) (valid invalid : Nat) :
    generateFrom property maxExamples maxInvalid seeds monitor valid invalid =
      if valid < maxExamples then do
        if (← runner).interrupted then return .gaveUp .interrupted
        else
          let c ← execute property [] .generated seeds.next.1
          if c.outcome.isFailure then
            saveFailure c
            return .failed c
          else
            refuseInvalid c
            keep c
            judge property maxExamples maxInvalid seeds.next.2 monitor valid invalid c
      else (return .exhausted : RunM σ GenerationEnd) := by
  rw [generateFrom]
  split
  · refine bind_congr fun r => ite_congr rfl (fun _ => rfl) fun _ => bind_congr fun c =>
      ite_congr rfl (fun _ => rfl) fun _ => bind_congr fun _ => ?_
    unfold keep judge
    rcases monitor.observe c with ⟨_ | failure, monitor'⟩ <;> by_cases hc : c.outcome = .passed <;>
      simp only [hc, if_true, if_false, pure_bind, dite_eq_ite]
  · rfl

/-! ## Simpler failures -/

/-- What is done about a search that has come to its end. -/
def leave (search : Search (World σ)) : RunM σ Draws := do
  set search.world
  match search.world.crash with
  | some c => throw (.crashed c)
  | none =>
    tellSearch search
    return search.current

theorem shrink_eq (property : Property) (initial : Case) (reason : FailureReason) :
    shrink property initial reason = (do
      tellPhase s!"shrinking a failing example of {initial.draws.length} draws"
      setMode .relaxed
      let budget := (← runner).settings.shrinkBudget
      let began ← now
      let w ← get
      leave ((Search.start initial.draws w).run (oracle property reason.origin began) budget) :
        RunM σ Draws) := rfl

theorem leave_of_crash {search : Search (World σ)} {c : Crash} (h : search.world.crash = some c)
    (w : World σ) : leave search w = (.error (.crashed c), search.world) := by
  rw [leave]
  rw [h]
  rfl

theorem leave_of_no_crash {search : Search (World σ)} (h : search.world.crash = none)
    (w : World σ) :
    leave search w = (do
      tellSearch search
      return search.current : RunM σ Draws) search.world := by
  rw [leave]
  rw [h]
  rfl

/-- The simplest failure found from a case, if simpler ones are looked for. -/
def simplify (property : Property) (initial : Case) : RunM σ Draws := do
  match (← runner).settings.hasPhase .shrink, initial.outcome.failure? with
  | true, some reason => shrink property initial reason
  | _, _ => return initial.draws

/-- Replays the first failing case if that is another one than was replayed before. -/
def retry (property : Property) (initial : Case) (best : Draws) (name : String) :
    RunM σ (Option Case) :=
  if best = initial.draws then return none
  else do
    tell .warn s!"{name}: shrunk example did not fail on replay, retrying the original"
    let first ← execute property initial.draws .finalReplay replaySeed
    return if first.outcome.isFailure then some first else none

/-- What is reported of a failure that was not seen again in its simplest form. -/
def settle (initial : Case) (name : String) : Option Case → RunM σ (Outcome × Case)
  | some first => return (first.outcome, first)
  | none => do
    let message := name ++ " failed with \"" ++ initial.outcome.reason ++
      "\" but passed when replayed"
    tell .warn message
    return (.failed (.flaky message), initial)

theorem finalReplay_eq (property : Property) (initial : Case) (best : Draws) :
    finalReplay property initial best = (do
      setMode .configured
      let c ← execute property best .finalReplay replaySeed
      if c.outcome.isFailure then
        withStore "saving the shrunk example" fun b key =>
          Examples.replace b key initial.draws c.draws .failing
        return (c.outcome, c)
      else
        let name := (← runner).name
        settle initial name (← retry property initial best name) : RunM σ (Outcome × Case)) := by
  refine bind_congr fun _ => bind_congr fun c => ite_congr rfl (fun _ => rfl) fun _ =>
    bind_congr fun r => ?_
  unfold retry
  split <;> simp only [bind_assoc, pure_bind] <;> rfl

/-- Reports a case as the counterexample of the run. -/
def report (outcome : Outcome) (c : Case) (origin : Option UInt64) (seed : UInt64) :
    RunM σ RunResult := do
  let e ← counterexample c outcome origin
  finish outcome (some e) none (some seed)

theorem conclude_eq (property : Property) (initial : Case) (fromDatabase : Bool) (seed : UInt64) :
    conclude property initial fromDatabase seed = (do
      let best ← simplify property initial
      let (outcome, c) ← finalReplay property initial best
      report outcome c (if fromDatabase then none else some seed) seed : RunM σ RunResult) := by
  unfold conclude simplify
  rw [bind_assoc]
  refine bind_congr fun r => ?_
  cases fromDatabase <;> rcases r.settings.hasPhase .shrink <;>
    rcases initial.outcome.failure? <;> simp only [pure_bind] <;> rfl

end RunM

end Falsify
