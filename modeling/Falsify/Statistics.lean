import Falsify.Outcome

/-!
# Statistics of a run

Counts of cases by outcome, the split of time between drawing and running, and how often each
feature was seen.

* `Statistics.record`: adds a case;
* `Statistics.checked`: refuses times that are too long to be kept;
* `Statistics.text`: the lines at the end of a report.
-/

namespace Falsify

/-- What a run has counted. -/
structure Statistics where
  generationTime : Duration := .zero
  executionTime : Duration := .zero
  cases : Nat := 0
  passed : Nat := 0
  failed : Nat := 0
  gaveUp : Nat := 0
  databaseReplays : Nat := 0
  shrinkAttempts : Nat := 0
  shrinks : Nat := 0
  /-- The features seen, in the order in which they first came up, and how often. -/
  events : List (String × Nat) := []

namespace Statistics

/-- The name under which a feature is counted. -/
def label (name value : String) : String :=
  s!"{name}: {value}"

/-- Counts a label once more; a new one is put at the end. -/
def tally (label : String) : List (String × Nat) → List (String × Nat)
  | [] => [(label, 1)]
  | (l, n) :: rest => if l = label then (l, n + 1) :: rest else (l, n) :: tally label rest

/-- Counts each feature of a case once more, in the order of their names. -/
def tallyAll (features : Assoc String String) (events : List (String × Nat)) :
    List (String × Nat) :=
  features.foldl (fun events (name, value) => tally (label name value) events) events

/-- Adds a case to the counts. The times add up without a bound: those of a run are parts of the
time it takes, and no clock gets as far as the bound. -/
def record (s : Statistics) (c : Case) : Statistics :=
  { s with
    generationTime := s.generationTime + c.timing.generation
    executionTime := s.executionTime + c.timing.execution
    cases := s.cases + 1
    passed := s.passed + if c.outcome = .passed then 1 else 0
    failed := s.failed + if c.outcome.isFailure then 1 else 0
    gaveUp := s.gaveUp + if c.outcome = .passed ∨ c.outcome.isFailure then 0 else 1
    databaseReplays := s.databaseReplays + if c.source = .database then 1 else 0
    events := tallyAll c.features s.events }

/-- What happens when times add up to one that is too long to be kept. -/
def timeOverflow : Crash :=
  .text "overflow when adding durations"

/-- The statistics, if all their times together can be kept. Then so can each of them, and so could
every sum on the way to them. -/
def checked (s : Statistics) : Except Crash Statistics :=
  match s.generationTime.plus? s.executionTime with
  | some _ => .ok s
  | none => .error timeOverflow

/-- The share of the measured time that went into drawing, in percent. -/
def generationPercentage (s : Statistics) : Float :=
  let total := s.generationTime + s.executionTime
  if total = .zero then 0.0 else 100.0 * s.generationTime.seconds / total.seconds

/-- A count as a floating-point number. -/
def toFloat (n : Nat) : Float :=
  (UInt64.ofNat n).toFloat

/-- The line of a feature: its share of the cases. -/
def eventLine (s : Statistics) (event : String × Nat) : String :=
  let percentage := 100.0 * toFloat event.2 / toFloat (max s.cases 1)
  s!"    * {Text.fixedPoint 2 percentage}%, {event.1}\n"

/-- The lines at the end of a report. -/
def text (s : Statistics) : String :=
  s!"  - {s.passed} passing, {s.failed} failing, {s.gaveUp} invalid examples " ++
    s!"({s.databaseReplays} from the database)\n" ++
  s!"  - {Text.fixedPoint 0 s.generationPercentage}% of time spent in data generation " ++
    s!"({Text.fixedPoint 2 s.generationTime.milliseconds}ms generating, " ++
    s!"{Text.fixedPoint 2 s.executionTime.milliseconds}ms executing)\n" ++
  (if s.shrinkAttempts > 0 then
    s!"  - Tried {s.shrinkAttempts} shrinks of which {s.shrinks} were successful\n" else "") ++
  (if s.events.isEmpty then "" else "  - Events:\n" ++ String.join (s.events.map s.eventLine))

/-- The counts and times as JSON. -/
def toJson (s : Statistics) : Json :=
  .obj [
    ("generation_ms", .float s.generationTime.milliseconds),
    ("execution_ms", .float s.executionTime.milliseconds),
    ("generation_percentage", .float s.generationPercentage),
    ("cases", .int s.cases),
    ("passed", .int s.passed),
    ("failed", .int s.failed),
    ("gave_up", .int s.gaveUp),
    ("database_replays", .int s.databaseReplays),
    ("shrink_attempts", .int s.shrinkAttempts),
    ("shrinks", .int s.shrinks)]

/-- A span of time as it is kept: whole seconds and nanoseconds. -/
def durationToJson (d : Duration) : Json :=
  .obj [("secs", .int d.wholeSeconds), ("nanos", .int d.subsecNanos)]

/-- All fields as JSON, nothing derived. -/
def fieldsToJson (s : Statistics) : Json :=
  .obj [
    ("generation_time", durationToJson s.generationTime),
    ("execution_time", durationToJson s.executionTime),
    ("cases", .int s.cases),
    ("passed", .int s.passed),
    ("failed", .int s.failed),
    ("gave_up", .int s.gaveUp),
    ("database_replays", .int s.databaseReplays),
    ("shrink_attempts", .int s.shrinkAttempts),
    ("shrinks", .int s.shrinks),
    ("events", .arr (s.events.map fun (label, count) => .arr [.str label, .int count]))]

end Statistics

end Falsify
