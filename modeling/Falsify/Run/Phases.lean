import Falsify.Run.Execute
import Falsify.Run.Report
import Falsify.Shrink.Passes

/-!
# The phases of a run

A run tries the cases in the database, then makes new ones, then makes a failing one simpler, and
replays the result once more. A token in the settings replaces all that by one replay. Trouble
with the database is told and never ends a run; an invalid argument does.

* `RunM.reuse`, `RunM.generate`, `RunM.shrink`, `RunM.finalReplay`: the phases;
* `runProperty`: a whole run.
-/

namespace Falsify

/-- The seed of fresh draws behind a sequence that is replayed. -/
def replaySeed : UInt64 := 0

/-- How making new cases came to its end. -/
inductive GenerationEnd where
  /-- Enough cases were valid. -/
  | exhausted
  | failed (c : Case)
  | gaveUp (reason : GaveUpReason)
  | unhealthy (failure : HealthFailure)

namespace RunM

variable {σ : Type}

/-- Ends the run if a case had an argument that makes no sense. -/
def refuseInvalid (c : Case) : RunM σ Unit :=
  match c.outcome with
  | .gaveUp (.invalidArgument message) => throw (.invalidArgument message)
  | _ => return ()

/-- Opens the database that the settings name, unless there is one. -/
def openDatabase (host : Host σ) : RunM σ Unit := do
  let r ← runner
  match r.store, r.settings.database with
  | none, some path =>
    match ← stored (host.openStore path) with
    | .ok backend => modifyRunner fun r => { r with store := some backend }
    | .error e => databaseError "opening the example database" e
  | _, _ => return ()

/-- The seed of the run: a fixed one, one made from the property's name, or any. -/
def resolveSeed (host : Host σ) : RunM σ UInt64 := do
  let r ← runner
  match r.settings.seed with
  | some seed => return seed
  | none =>
    if r.settings.derandomize then
      return UInt64.ofNat (ofBigEndian (r.key.fingerprint.toList.take 8))
    else return host.randomSeed

/-! ## Cases from the database -/

/-- Tries entries in turn until one fails. Failing entries that no longer fail become covering
ones. -/
def reuseFrom [Disposal] (property : Property) : List (EntryKind × Draws) → RunM σ (Option Case)
  | [] => return none
  | (kind, draws) :: rest => do
    if (← runner).interrupted then return none
    else
      let c ← execute property draws .database replaySeed
      if c.outcome.isFailure then return some c
      else
        refuseInvalid c
        if kind = .failing then
          withStore "demoting a fixed example" fun b key => Examples.demote b key draws
        reuseFrom property rest

/-- Tries the failing entries of the test, then the covering ones. -/
def reuse [Disposal] (property : Property) : RunM σ (Option Case) := do
  let r ← runner
  match r.store with
  | none => return none
  | some backend =>
    match ← stored (Examples.load backend r.key) with
    | .error e =>
      databaseError "loading saved examples" e
      return none
    | .ok loaded =>
      if 0 < loaded.discarded then
        tell .info s!"discarded {loaded.discarded} saved examples that no longer decode"
      let failing := loaded.failing.length
      let covering := loaded.covering.length
      tellPhase s!"reusing {failing} failing and {covering} covering examples"
      setMode .relaxed
      reuseFrom property
        (loaded.failing.map (EntryKind.failing, ·) ++ loaded.covering.map (EntryKind.covering, ·))

/-! ## New cases -/

/-- Saves a passing case if it shows a feature that no earlier one has shown, up to so many cases.
-/
def saveIfCovering (c : Case) : RunM σ Unit := do
  let r ← runner
  if r.coveringSaved < r.settings.maxCoveringExamples then
    let novel := c.features.any fun feature => !r.seenFeatures.contains feature
    modifyRunner fun r => { r with seenFeatures := r.seenFeatures.insertMany c.features }
    if novel then
      modifyRunner fun r => { r with coveringSaved := r.coveringSaved + 1 }
      withStore "saving a covering example" fun b key => Examples.save b key c.draws .covering

/-- Tells of a health check that fired. -/
def tellUnhealthy (failure : HealthFailure) : RunM σ Unit := do
  tell .warn s!"{(← runner).name}: health check {failure.check.name} failed: {failure.message}"
  observeMessage .alert "Health check failed" failure.message

/-- Saves a failing case as soon as it is found. -/
def saveFailure (c : Case) : RunM σ Unit := do
  tell .info s!"found a failing example: {c.outcome.reason}"
  withStore "saving a failing example" fun b key => Examples.save b key c.draws .failing

/-- Makes new cases until one fails, enough are valid, or too many are not. Each case has a seed
of its own from the stream. -/
def generateFrom [Disposal] (property : Property) (maxExamples maxInvalid : Nat) (seeds : ChaCha8)
    (monitor : HealthMonitor) (valid invalid : Nat) : RunM σ GenerationEnd := do
  if _h : valid < maxExamples then
    if (← runner).interrupted then return .gaveUp .interrupted
    else
      let c ← execute property [] .generated seeds.next.1
      if c.outcome.isFailure then
        saveFailure c
        return .failed c
      else
        refuseInvalid c
        if c.outcome = .passed then saveIfCovering c
        match monitor.observe c with
        | (some failure, _) =>
          tellUnhealthy failure
          return .unhealthy failure
        | (none, monitor) =>
          if c.outcome = .passed then
            if maxInvalid ≤ invalid then return .gaveUp (.tooMuchFiltering invalid (valid + 1))
            else
              generateFrom property maxExamples maxInvalid seeds.next.2 monitor (valid + 1) invalid
          else
            if _h' : maxInvalid ≤ invalid + 1 then
              return .gaveUp (.tooMuchFiltering (invalid + 1) valid)
            else
              generateFrom property maxExamples maxInvalid seeds.next.2 monitor valid (invalid + 1)
  else return .exhausted
termination_by (maxExamples - valid) + (maxInvalid - invalid)

/-- Makes new cases from the seed of the run. -/
def generate [Disposal] (property : Property) (seed : UInt64) : RunM σ GenerationEnd := do
  let settings := (← runner).settings
  tellPhase s!"generating up to {settings.maxExamples} examples"
  setMode .relaxed
  generateFrom property settings.maxExamples settings.maxFilterRetries (ChaCha8.ofSeed seed)
    { limits := settings.healthLimits, suppressed := settings.suppressed } 0 0

/-! ## Simpler failures -/

/-- The trials of a search on a property: a sequence will do if its replay fails in the same way.
Nothing is tried any more after an interrupt or a crash of the run. -/
def oracle [Disposal] (property : Property) (origin : Origin) (began : Duration) :
    Oracle (World σ) where
  trial candidate := fun w =>
    if w.runner.interrupted || w.crash.isSome then (none, w)
    else
      match execute property candidate .shrinking replaySeed w with
      | (.ok c, w) => (if c.outcome.failsAs origin then some c.draws else none, w)
      | (.error _, w) => (none, w)
  elapsed := fun w => (w.clock.read.1 - began, { w with clock := w.clock.read.2 })

/-- The world after a search, with its numbers told and counted. -/
def tellSearch (search : Search (World σ)) : RunM σ Unit := do
  let left := search.current.length
  tell .debug (s!"shrinking finished after {search.attempts} attempts " ++
    s!"({search.improvements} improvements, {left} draws left)")
  modifyRunner fun r =>
    { r with
      statistics :=
        { r.statistics with
          shrinkAttempts := r.statistics.shrinkAttempts + search.attempts
          shrinks := r.statistics.shrinks + search.improvements } }
  if search.exhausted then tell .info s!"shrink budget exhausted after {search.attempts} attempts"

/-- The simplest sequence found that fails in the same way as a case. -/
def shrink [Disposal] (property : Property) (initial : Case) (reason : FailureReason) :
    RunM σ Draws := do
  tellPhase s!"shrinking a failing example of {initial.draws.length} draws"
  setMode .relaxed
  let budget := (← runner).settings.shrinkBudget
  let began ← now
  let start := Search.start initial.draws (← get)
  let search := start.run (oracle property reason.origin began) budget
  set search.world
  match search.world.crash with
  | some c => throw (.crashed c)
  | none =>
    tellSearch search
    return search.current

/-! ## The final replay -/

/-- Replays the simplest case, and the first one if that does not fail. If neither fails, the
failure is flaky. -/
def finalReplay [Disposal] (property : Property) (initial : Case) (best : Draws) :
    RunM σ (Outcome × Case) := do
  setMode .configured
  let c ← execute property best .finalReplay replaySeed
  if c.outcome.isFailure then
    withStore "saving the shrunk example" fun b key =>
      Examples.replace b key initial.draws c.draws .failing
    return (c.outcome, c)
  else
    let name := (← runner).name
    let again ← if best = initial.draws then pure none else do
      tell .warn s!"{name}: shrunk example did not fail on replay, retrying the original"
      let first ← execute property initial.draws .finalReplay replaySeed
      pure (if first.outcome.isFailure then some first else none)
    match again with
    | some first => return (first.outcome, first)
    | none =>
      let reason := initial.outcome.reason
      let message := name ++ " failed with \"" ++ reason ++ "\" but passed when replayed"
      tell .warn message
      return (.failed (.flaky message), initial)

/-- The counterexample that a case makes. -/
def counterexample (c : Case) (outcome : Outcome) (seed : Option UInt64) :
    RunM σ Counterexample := do
  return {
    draws := c.draws
    arguments := c.arguments
    representation := c.representation
    notes := c.notes
    reason := outcome.failure?.getD (.body outcome.reason)
    crash := c.crash
    token := if (← runner).settings.printToken then some (encodeToken c.draws) else none
    seed := seed }

/-- The result of the run, told and handed to the receivers. -/
def finish (outcome : Outcome) (example? : Option Counterexample) (health : Option HealthFailure)
    (seed : Option UInt64) : RunM σ RunResult := do
  let r ← runner
  tellPhase s!"{r.name} {outcome.status}"
  if let some e := example? then tell .info s!"falsifying example: {r.name}{e.representation}"
  observeMessage .info "Statistics" r.statistics.text
  return ⟨r.name, outcome, example?, r.statistics, health, seed⟩

/-! ## Whole runs -/

/-- Replays the sequence of a token under the deadline itself. -/
def reproduce [Disposal] (property : Property) (token : String) : RunM σ RunResult := do
  match decodeToken token with
  | .error e => throw (.token e)
  | .ok draws =>
    tellPhase s!"reproducing {(← runner).name} from token"
    setMode .configured
    let c ← execute property draws .reproduction replaySeed
    refuseInvalid c
    if c.outcome.isFailure then
      finish c.outcome (some (← counterexample c c.outcome none)) none none
    else finish c.outcome none none none

/-- Makes a failing case simpler, replays it, and reports it. -/
def conclude [Disposal] (property : Property) (initial : Case) (fromDatabase : Bool)
    (seed : UInt64) : RunM σ RunResult := do
  let best ← match (← runner).settings.hasPhase .shrink, initial.outcome.failure? with
    | true, some reason => shrink property initial reason
    | _, _ => pure initial.draws
  let (outcome, c) ← finalReplay property initial best
  let e ← counterexample c outcome (if fromDatabase then none else some seed)
  finish outcome (some e) none (some seed)

/-- Tries the cases in the database and then new ones, and concludes from what failed. -/
def search [Disposal] (host : Host σ) (property : Property) : RunM σ RunResult := do
  let seed ← resolveSeed host
  let r ← runner
  tellPhase s!"running {r.name} with seed {seed.toNat}"
  let reused ← if r.settings.hasPhase .reuse then reuse property else pure none
  match reused with
  | some c => conclude property c true seed
  | none =>
    if (← runner).interrupted then finish (.gaveUp .interrupted) none none (some seed)
    else if r.settings.hasPhase .generate then
      match ← generate property seed with
      | .exhausted => finish .passed none none (some seed)
      | .failed c => conclude property c false seed
      | .gaveUp reason => finish (.gaveUp reason) none none (some seed)
      | .unhealthy failure => finish (.gaveUp failure.toReason) none (some failure) (some seed)
    else finish .passed none none (some seed)

end RunM

/-- One run of a property. -/
def runProperty {σ : Type} [Disposal] (host : Host σ) (property : Property) :
    RunM σ RunResult := do
  modify fun w => { w with executed := [], crash := none }
  match (← RunM.runner).settings.validate with
  | .error e => throw (.settings e)
  | .ok () =>
    RunM.modifyRunner fun r => { r with statistics := {}, runStart := timestamp host.startTime }
    RunM.openDatabase host
    match (← RunM.runner).settings.reproduce with
    | some token => RunM.reproduce property token
    | none => RunM.search host property

end Falsify
