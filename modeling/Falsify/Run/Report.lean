import Falsify.Encoding
import Falsify.Health
import Falsify.Statistics

/-!
# Results of runs

What a run found, and the report that is shown for it.

* `Counterexample`: the case for which a property does not hold, and how to get it back;
* `RunResult.report`: the report.
-/

namespace Falsify

/-- The simplest failing case of a run. -/
structure Counterexample where
  draws : Draws
  arguments : List (String × Value)
  representation : String
  notes : List String
  reason : FailureReason
  crash : Option String
  /-- The token that replays it, unless tokens are not to be shown. -/
  token : Option String
  /-- The seed that finds it again, unless it came from the database. -/
  seed : Option UInt64

structure RunResult where
  property : String
  outcome : Outcome
  counterexample : Option Counterexample
  statistics : Statistics
  healthCheck : Option HealthFailure
  seed : Option UInt64

namespace RunResult

def passed (r : RunResult) : Bool :=
  r.outcome = .passed

/-- Lines of text. -/
def lines (texts : List String) : String :=
  String.join (texts.map (· ++ "\n"))

/-- The lines that show a counterexample. -/
def exampleLines (property : String) (e : Counterexample) : List String :=
  s!"Falsifying example: {property}{e.representation}" :: e.notes

/-- The lines that tell how to get a counterexample back. -/
def hintLines (e : Counterexample) : List String :=
  (e.token.toList.map fun token =>
    s!"You can reproduce this example by setting CONJECTURE_REPRODUCE={token}") ++
  (e.seed.toList.map fun seed =>
    s!"You can find this failure again with CONJECTURE_SEED={seed.toNat}")

/-- The lines above the statistics. -/
def headLines (r : RunResult) : List String :=
  match r.outcome with
  | .passed => [s!"{r.property} passed {r.statistics.passed} examples"]
  | .gaveUp reason => [s!"{r.property} gave up: {reason.text}"]
  | .failed reason =>
    (r.counterexample.toList.flatMap (exampleLines r.property)) ++ [reason.text] ++
      r.counterexample.toList.flatMap hintLines

/-- The report of a run. -/
def report (r : RunResult) : String :=
  lines r.headLines ++ r.statistics.text

end RunResult

end Falsify
