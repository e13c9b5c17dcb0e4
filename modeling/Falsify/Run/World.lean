import Std.Data.HashSet
import Falsify.Deadline
import Falsify.Observation
import Falsify.Property.Body
import Falsify.Settings
import Falsify.Statistics
import Falsify.Store.Examples

/-!
# Runners and what surrounds them

A runner tries one property under fixed settings. It keeps its database, its receivers of records
and what it has seen of features from run to run; statistics start anew with each run.

* `Runner`, `World`: a runner, and everything that a run reads and changes;
* `RunM`: computations on that, which may abort the run;
* `withStore`, `observe`, `tell`: the runner's ways to its database, its receivers and its log.
-/

namespace Falsify

/-- Why a run gives no result. -/
inductive RunError where
  | settings (error : SettingsError)
  | token (error : TokenError)
  | invalidArgument (message : String)
  /-- The run itself crashed. -/
  | crashed (crash : Crash)

def RunError.message : RunError → String
  | .settings error => error.message
  | .token error => error.message
  | .invalidArgument message => s!"invalid argument: {message}"
  | .crashed crash => crash.message

/-- What a run asks of the machine it runs on. -/
structure Host (σ : Type) where
  /-- Opens the database in a directory. -/
  openStore : String → StoreM σ (Backend σ)
  /-- The seed if nothing fixes it. -/
  randomSeed : UInt64
  /-- When the run starts, in nanoseconds from the epoch. -/
  startTime : Int

/-- A property's runner. -/
structure Runner (σ : Type) where
  name : String
  settings : Settings
  key : Key
  store : Option (Backend σ)
  deadline : Deadline
  sinks : List Sink
  /-- Somebody asked for the run to stop. -/
  interrupted : Bool
  statistics : Statistics
  runStart : Float
  /-- The features of passing cases so far. -/
  seenFeatures : Std.HashSet (String × String)
  /-- How many covering cases have been saved. -/
  coveringSaved : Nat

/-- A new runner of the property called `name`. -/
def Runner.create {σ : Type} (name : String) (settings : Settings) (store : Option (Backend σ))
    (sinks : List Sink) : Runner σ where
  name := name
  settings := settings
  key := Key.ofFunction name []
  store := store
  deadline := Deadline.ofDeadline settings.deadline
  sinks := sinks
  interrupted := false
  statistics := {}
  runStart := 0.0
  seenFeatures := Std.HashSet.emptyWithCapacity
  coveringSaved := 0

/-- All that a run reads and changes. -/
structure World (σ : Type) where
  runner : Runner σ
  storage : Storage σ
  clock : Clock
  /-- The cases of this run, the latest first. -/
  executed : List Case
  /-- A crash of the run itself, after which nothing more is done. -/
  crash : Option Crash

/-- A part of a run. What it changed is kept when it aborts. -/
abbrev RunM (σ : Type) := ExceptT RunError (StateM (World σ))

namespace RunM

variable {σ : Type}

def runner : RunM σ (Runner σ) :=
  return (← get).runner

def modifyRunner (f : Runner σ → Runner σ) : RunM σ Unit :=
  modify fun w => { w with runner := f w.runner }

/-- Adds a line to the log. -/
def tell (level : LogLevel) (text : String) : RunM σ Unit :=
  modify fun w => { w with storage := { w.storage with log := w.storage.log.push ⟨level, text⟩ } }

/-- Tells about the course of the run. Only watchers of details hear of a quiet one. -/
def tellPhase (text : String) : RunM σ Unit := do
  tell (if (← runner).settings.verbosity = .quiet then .debug else .info) text

/-- Reads the clock. -/
def now : RunM σ Duration :=
  modifyGet fun w => (w.clock.read.1, { w with clock := w.clock.read.2 })

/-- Hands a record to every receiver. -/
def observe (o : Observation) : RunM σ Unit :=
  modify fun w =>
    let delivered := w.runner.sinks.map (·.deliver o)
    { w with
      runner := { w.runner with sinks := delivered.map Prod.fst }
      storage := { w.storage with log := w.storage.log ++ (delivered.flatMap Prod.snd).toArray } }

/-- Hands a message to every receiver. Without receivers none is made. -/
def observeMessage (kind : MessageRecord → Observation) (title content : String) : RunM σ Unit := do
  let r ← runner
  if r.sinks.isEmpty then return ()
  else observe (kind ⟨title, content, r.name, r.runStart⟩)

/-- Runs an operation on what is stored, whatever comes of it. -/
def stored {α : Type} (x : StoreM σ α) : RunM σ (Except DatabaseError α) :=
  modifyGet fun w => ((x w.storage).1, { w with storage := (x w.storage).2 })

/-- Tells of a trouble with the database. The run goes on. -/
def databaseError (activity : String) (error : DatabaseError) : RunM σ Unit := do
  tell .warn s!"{(← runner).name}: database error while {activity}: {error.message}"
  observeMessage .error "Database error" s!"{activity}: {error.message}"

/-- Does something with the database, if there is one. Trouble is told, and the run goes on. -/
def withStore (activity : String) (op : Backend σ → Key → StoreM σ Unit) : RunM σ Unit := do
  let r ← runner
  match r.store with
  | none => return ()
  | some backend =>
    match ← stored (op backend r.key) with
    | .ok () => return ()
    | .error e => databaseError activity e

/-- Sets how the deadline is applied. -/
def setMode (mode : DeadlineMode) : RunM σ Unit :=
  modifyRunner fun r => { r with deadline := r.deadline.withMode mode }

end RunM

end Falsify
