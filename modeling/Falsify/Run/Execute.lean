import Falsify.Run.World

/-!
# Executing a body once

One execution replays a sequence and goes on with fresh draws, measures the time, and sums up what
came of it as a case. The case is counted, told and handed to the receivers. Before that, what the
body crashed with is let go, and a crash of that is a crash of the run.

* `outcomeOf`: the outcome of a body's end;
* `Disposal`, `Ending.letGo?`: what comes of letting go of what a body crashed with;
* `RunM.execute`: one execution.
-/

namespace Falsify

/-- The outcome of a draw that failed and was not caught. -/
def GaveUpReason.ofDrawError : DrawError → GaveUpReason
  | .rejected reason => .rejected reason
  | .overrun limit => .overrun limit
  | .invalidArgument reason => .invalidArgument reason

/-- The outcome of a body's end. A body that went well may still have taken too long. -/
def outcomeOf (deadline : Deadline) (execution : Duration) :
    Ending (Except CaseError Unit) → Except Crash Outcome
  | .returned (.ok ()) => do
    match ← deadline.check execution with
    | none => return .passed
    | some reason => return .failed reason
  | .returned (.error (.failed message)) => .ok (.failed (.body message))
  | .returned (.error (.draw e)) => .ok (.gaveUp (.ofDrawError e))
  | .crashed c => .ok (.failed (.body c.message))

/-- What comes of letting go of the values that bodies crash with. Code that belongs to such a value
is run then, and may crash in its turn. The value is the one of the call after some cases, with what
that call has drawn and left behind. -/
class Disposal where
  crash? (history : List Case) (s : CaseState) : Option Crash

/-- Letting go of a value runs no code, unless something else is said. -/
instance (priority := low) Disposal.quiet : Disposal := ⟨fun _ _ => none⟩

/-- The crash of letting go of what a body crashed with. No code belongs to a text. -/
def Ending.letGo? [Disposal] {α : Type} (history : List Case) (s : CaseState) :
    Ending α → Option Crash
  | .crashed .other => Disposal.crash? history s
  | .crashed (.text _) | .returned _ => none

/-- The outcome of a body's end, once what it crashed with has been let go. -/
def outcomeLettingGo [Disposal] (deadline : Deadline) (execution : Duration) (history : List Case)
    (ending : Ending (Except CaseError Unit)) (s : CaseState) : Except Crash Outcome := do
  let outcome ← outcomeOf deadline execution ending
  match ending.letGo? history s with
  | some c => throw c
  | none => return outcome

/-- What a body crashed with, if it did. -/
def Ending.crashMessage? {α : Type} : Ending α → Option String
  | .returned _ => none
  | .crashed c => some c.message

/-- The case of a body that has come to its end. -/
def CaseState.toCase (s : CaseState) (outcome : Outcome) (execution : Duration)
    (source : CaseSource) (crash : Option String) : Case where
  outcome := outcome
  timing := ⟨s.drawTime, execution⟩
  draws := s.source.drawn
  source := source
  arguments := s.arguments.toList
  notes := s.notes.toList
  features := s.features
  predicates := s.source.predicates
  crash := crash
  features_ordered := s.features_ordered

/-- The record of a case. Failures name the call that reproduces them. -/
def Case.toObservation (c : Case) (property : String) (runStart : Float) : Observation :=
  .testCase {
    runStart := runStart
    property := property
    status := c.outcome.status
    statusReason := c.outcome.reason
    representation := c.representation
    arguments := Assoc.ofList (c.arguments.map fun (name, value) => (name, value.toJson))
    howGenerated := c.source.name
    features := c.features
    timing := Assoc.ofList [
      ("generate:data", c.timing.generation.seconds),
      ("execute:test", c.timing.execution.seconds)]
    metadata := {
      traceback := c.crash.or (c.outcome.failure?.map FailureReason.text)
      reproduction :=
        if c.outcome.isFailure then some (".reproduce(\"" ++ encodeToken c.draws ++ "\")") else none
      predicates := c.predicates
      notes := c.notes
      draws := c.draws.length } }

namespace RunM

variable {σ : Type}

/-- Adds a case to the cases of this run and to the statistics. -/
def recordCase (c : Case) : RunM σ Unit :=
  modify fun w => { w with
    executed := c :: w.executed
    runner := { w.runner with statistics := w.runner.statistics.record c } }

/-- Tells of a case. -/
def tellCase (c : Case) : RunM σ Unit := do
  let level := if (← runner).settings.verbosity.tellsCases then .info else .debug
  tell level s!"{c.source.name} case {c.representation}: {c.outcome.status} {c.outcome.reason}"

/-- Plays the body of the next call on a source, between two readings of the clock. Its result
comes with the state that it left and the time that it took. -/
def play (property : Property) (source : Source) :
    RunM σ (Ending (Except CaseError Unit) × CaseState × Duration) := do
  let began ← now
  let w ← get
  let start := CaseState.start source w.runner.settings.filterAttempts w.clock w.runner.interrupted
  let (ending, s) := (property w.executed).run start
  modify fun w =>
    { w with clock := s.clock, runner := { w.runner with interrupted := s.interrupted } }
  let ended ← now
  return (ending, s, ended - began)

/-- Runs the body once on `forced` and then on fresh draws. -/
def execute [Disposal] (property : Property) (forced : Draws) (source : CaseSource)
    (seed : UInt64) : RunM σ Case := do
  let history := (← get).executed
  let maxDraws := (← runner).settings.maxDraws
  let (ending, s, span) ← play property (Source.replaying forced seed maxDraws)
  let execution := span - s.drawTime
  match outcomeLettingGo (← runner).deadline execution history ending s with
  | .error c =>
    modify fun w => { w with crash := some c }
    throw (.crashed c)
  | .ok outcome =>
    let c := s.toCase outcome execution source ending.crashMessage?
    recordCase c
    tellCase c
    let r ← runner
    if !r.sinks.isEmpty then observe (c.toObservation r.name r.runStart)
    return c

end RunM

end Falsify
