import Falsify.Assoc
import Falsify.Draws
import Falsify.Duration
import Falsify.Source
import Falsify.Text.FixedPoint
import Falsify.Value

/-!
# Outcomes

What came of one execution of a test body, and of a whole run: it passed, it failed, or it was
given up.

* `Outcome`, `FailureReason`, `GaveUpReason`, and the texts that reports show for them;
* `FailureReason.origin`: by which two failures count as the same;
* `Case`: all that an execution leaves behind.
-/

namespace Falsify

/-- The checks of whether a run is worth its time. -/
inductive HealthCheck where
  | filterTooMuch
  | dataTooLarge
  | tooSlow
  deriving DecidableEq

namespace HealthCheck

def name : HealthCheck → String
  | .filterTooMuch => "filter_too_much"
  | .dataTooLarge => "data_too_large"
  | .tooSlow => "too_slow"

/-- All checks, in the order in which they are made. -/
def all : List HealthCheck :=
  [.filterTooMuch, .dataTooLarge, .tooSlow]

end HealthCheck

/-- Where the draws of an execution come from. -/
inductive CaseSource where
  | database
  | generated
  | shrinking
  | finalReplay
  | reproduction
  deriving DecidableEq

def CaseSource.name : CaseSource → String
  | .database => "database"
  | .generated => "generated"
  | .shrinking => "shrinking"
  | .finalReplay => "final_replay"
  | .reproduction => "reproduction"

/-- Why a property does not hold. -/
inductive FailureReason where
  /-- The body said so, or crashed. -/
  | body (message : String)
  /-- The body took longer than it may. -/
  | deadlineExceeded (measured bound : Duration)
  /-- A failure was seen and did not come again. -/
  | flaky (message : String)
  deriving DecidableEq

/-- The kinds of failures. -/
inductive Origin where
  | body
  | deadline
  | flaky
  deriving DecidableEq

def Origin.name : Origin → String
  | .body => "body"
  | .deadline => "deadline"
  | .flaky => "flaky"

namespace FailureReason

/-- Two failures are the same if they are of one kind. Messages do not count, since they often
name the values that failed. -/
def origin : FailureReason → Origin
  | .body _ => .body
  | .deadlineExceeded _ _ => .deadline
  | .flaky _ => .flaky

def text : FailureReason → String
  | .body message => message
  | .deadlineExceeded measured bound =>
    s!"deadline exceeded: test took {Text.fixedPoint 2 measured.milliseconds}ms, " ++
      s!"which exceeds the deadline of {Text.fixedPoint 2 bound.milliseconds}ms"
  | .flaky message => s!"flaky: {message}"

end FailureReason

/-- Why an execution or a run came to no answer. -/
inductive GaveUpReason where
  | rejected (message : String)
  | overrun (limit : Nat)
  | invalidArgument (message : String)
  | tooMuchFiltering (rejected valid : Nat)
  | healthCheck (check : HealthCheck) (message : String)
  | interrupted
  deriving DecidableEq

def GaveUpReason.text : GaveUpReason → String
  | .rejected message => s!"rejected: {message}"
  | .overrun limit => s!"overrun: more than {limit} draws"
  | .invalidArgument message => s!"invalid argument: {message}"
  | .tooMuchFiltering refused valid =>
    s!"too much filtering: {refused} cases were rejected while only {valid} valid cases were found"
  | .healthCheck check message => s!"health check {check.name} failed: {message}"
  | .interrupted => "interrupted"

inductive Outcome where
  | passed
  | failed (reason : FailureReason)
  | gaveUp (reason : GaveUpReason)
  deriving DecidableEq

namespace Outcome

def status : Outcome → String
  | .passed => "passed"
  | .failed _ => "failed"
  | .gaveUp _ => "gave_up"

/-- The reason in words; nothing if there is none to give. -/
def reason : Outcome → String
  | .passed => ""
  | .failed reason => reason.text
  | .gaveUp reason => reason.text

def failure? : Outcome → Option FailureReason
  | .failed reason => some reason
  | _ => none

def isFailure (o : Outcome) : Bool :=
  o.failure?.isSome

/-- A failure of a given kind. -/
def failsAs (o : Outcome) (origin : Origin) : Bool :=
  o.failure?.map FailureReason.origin = some origin

end Outcome

/-- Time spent drawing values and time spent otherwise. -/
structure Timing where
  generation : Duration
  execution : Duration
  deriving DecidableEq

/-- What one execution of a body leaves behind. -/
structure Case where
  outcome : Outcome
  timing : Timing
  draws : Draws
  source : CaseSource
  arguments : List (String × Value)
  notes : List String
  features : Assoc String String
  predicates : Assoc String PredicateCounts
  /-- What the body crashed with. -/
  crash : Option String
  /-- No name is shown twice: a table made of any pairs is in order. -/
  features_ordered : features.Ordered := by exact Assoc.ordered_ofList _

/-- The arguments as reports show them. -/
def Case.representation (c : Case) : String :=
  "(" ++ ", ".intercalate (c.arguments.map fun (name, value) => s!"{name}={value.text}") ++ ")"

end Falsify
