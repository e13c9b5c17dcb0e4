import Falsify.Health
import Falsify.Shrink.Budget
import Falsify.Text.Numeral
import Falsify.Text.Quoted

/-!
# Settings of a run

How many cases, how long, with which seed and database, and what is shown. Settings are fixed when
a run starts.

* `Settings`: the fields, each with its default;
* `Settings.validate`: the settings under which a run makes sense;
* `SettingsError.message`: what is wrong with the others.
-/

namespace Falsify

/-- How much a run tells. -/
inductive Verbosity where
  | quiet
  | normal
  | verbose
  | debug
  deriving DecidableEq

namespace Verbosity

def name : Verbosity → String
  | .quiet => "quiet"
  | .normal => "normal"
  | .verbose => "verbose"
  | .debug => "debug"

/-- From the least to the most. -/
def all : List Verbosity :=
  [.quiet, .normal, .verbose, .debug]

/-- Single cases are told about. -/
def tellsCases : Verbosity → Bool
  | .quiet | .normal => false
  | .verbose | .debug => true

end Verbosity

/-- The parts of a run that can be left out. -/
inductive Phase where
  /-- Cases from the database are tried again. -/
  | reuse
  /-- New cases are made. -/
  | generate
  /-- A failing case is made simpler. -/
  | shrink
  deriving DecidableEq

def Phase.name : Phase → String
  | .reuse => "reuse"
  | .generate => "generate"
  | .shrink => "shrink"

structure Settings where
  /-- Valid cases after which a property counts as passed. -/
  maxExamples : Nat := 100
  /-- How long a single execution may take. -/
  deadline : Option Duration := some (.ofMillis 200)
  suppressed : List HealthCheck := []
  /-- The directory of the database, used if a runner has none of its own. -/
  database : Option String := none
  verbosity : Verbosity := .normal
  phases : List Phase := [.reuse, .generate, .shrink]
  seed : Option UInt64 := none
  /-- The seed is made from the property's name. -/
  derandomize : Bool := false
  maxShrinks : Nat := 500
  shrinkTimeout : Option Duration := some (.ofSeconds 60)
  /-- Invalid cases after which a run is given up. -/
  maxFilterRetries : Nat := 1000
  /-- Candidates that a filter draws within one case. -/
  filterAttempts : Nat := 3
  maxDraws : Nat := defaultMaxDraws
  /-- Generated cases with longer encodings count as too large. -/
  exampleSizeCeiling : Nat := 8 * 1024
  slowThreshold : Duration := .ofSeconds 1
  /-- Reports of failures show a token. -/
  printToken : Bool := true
  /-- Replay this token and nothing else. -/
  reproduce : Option String := none
  maxCoveringExamples : Nat := 50

/-- What is wrong with a single value. -/
inductive ValueFault where
  | numeral (error : Text.NumeralError)
  | notVerbosity
  | notCheck
  | notBoolean
  deriving DecidableEq

def ValueFault.message : ValueFault → String
  | .numeral error => error.message
  | .notVerbosity => "expected quiet, normal, verbose or debug"
  | .notCheck => "unknown health check"
  | .notBoolean => "expected a boolean"

/-- What is wrong with settings as a whole. -/
inductive SettingsFault where
  | noExamples
  | zeroDeadline
  | noDraws
  deriving DecidableEq

def SettingsFault.message : SettingsFault → String
  | .noExamples => "max_examples must be at least 1"
  | .zeroDeadline => "deadline must be positive; use None to disable it"
  | .noDraws => "max_draws must be at least 1"

inductive SettingsError where
  | invalidValue (key value : String) (fault : ValueFault)
  | invalid (fault : SettingsFault)
  deriving DecidableEq

def SettingsError.message : SettingsError → String
  | .invalidValue key value fault =>
    s!"invalid value {Text.quote value} for {key}: {fault.message}"
  | .invalid fault => s!"invalid settings: {fault.message}"

namespace Settings

/-- One more check is not made. Suppressed checks are kept in the order of checks. -/
def suppress (s : Settings) (check : HealthCheck) : Settings :=
  { s with suppressed := HealthCheck.all.filter fun c => c = check || s.suppressed.contains c }

def hasPhase (s : Settings) (phase : Phase) : Bool :=
  s.phases.contains phase

/-- A run needs a case, some time and a draw. -/
def validate (s : Settings) : Except SettingsError Unit :=
  if s.maxExamples = 0 then .error (.invalid .noExamples)
  else if s.deadline = some .zero then .error (.invalid .zeroDeadline)
  else if s.maxDraws = 0 then .error (.invalid .noDraws)
  else .ok ()

/-- The limits of the health checks: two of them can be set. -/
def healthLimits (s : Settings) : HealthLimits :=
  { sizeCeiling := s.exampleSizeCeiling, slowThreshold := s.slowThreshold }

def shrinkBudget (s : Settings) : ShrinkBudget :=
  { maxAttempts := s.maxShrinks, timeout := s.shrinkTimeout }

end Settings

end Falsify
