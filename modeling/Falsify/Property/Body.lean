import Falsify.Clock
import Falsify.Outcome
import Falsify.Strategy.Generate

/-!
# Test bodies

The body of a test is a tree of steps: it draws values, leaves notes and events, takes its time,
and ends with a result or a crash. What follows a draw depends on the drawn value, or on the
error, which the body may catch. `Body.run` plays a body on a source of draws.

* `Body`: the trees, which form a monad;
* `Body.run`: what an execution makes of the state of a case;
* `Property`: a body for each call in a run.
-/

namespace Falsify

/-- How a body stops early. -/
inductive CaseError where
  /-- No value could be drawn. The case counts as invalid. -/
  | draw (error : DrawError)
  /-- The property does not hold. -/
  | failed (message : String)
  deriving DecidableEq

def CaseError.message : CaseError → String
  | .draw error => error.message
  | .failed message => message

/-- A test body with a result. -/
inductive Body (α : Type) : Type where
  | done (result : α)
  | crash (crash : Crash)
  /-- Draws a value; without a name it is numbered. -/
  | draw (name : Option String) (strategy : Strategy) (next : Except DrawError Value → Body α)
  /-- Asks how many draws there have been. -/
  | drawCount (next : Nat → Body α)
  /-- Leaves a text for the report. -/
  | note (text : String) (next : Body α)
  /-- Marks a feature of the case. -/
  | event (name value : String) (next : Body α)
  | sleep (nanos : Nat) (next : Body α)
  /-- Asks the run to stop after this case. -/
  | interrupt (next : Body α)

namespace Body

/-- One body after another. -/
def andThen {α β : Type} (body : Body α) (f : α → Body β) : Body β :=
  match body with
  | .done a => f a
  | .crash c => .crash c
  | .draw name strategy next => .draw name strategy fun answer => (next answer).andThen f
  | .drawCount next => .drawCount fun n => (next n).andThen f
  | .note text next => .note text (next.andThen f)
  | .event name value next => .event name value (next.andThen f)
  | .sleep nanos next => .sleep nanos (next.andThen f)
  | .interrupt next => .interrupt (next.andThen f)

instance : Monad Body where
  pure := .done
  bind := andThen

end Body

/-- A body that may stop early. -/
abbrev TestM := ExceptT CaseError Body

namespace TestM

/-- Draws a value; reports show it under `name`, or under a number. -/
def draw (strategy : Strategy) (name : Option String) : TestM Value :=
  ExceptT.mk (.draw name strategy fun
    | .ok value => .done (.ok value)
    | .error e => .done (.error (.draw e)))

def drawInteger (least most : Int64) : TestM Int64 := do
  match (← draw (.integers least most) none).asInteger? with
  | some n => return n
  | none => throw (.draw (.invalidArgument "integers produced a non-integer"))

def drawBoolean : TestM Bool := do
  match (← draw .booleans none).asBoolean? with
  | some b => return b
  | none => throw (.draw (.invalidArgument "booleans produced a non-boolean"))

def drawCount : TestM Nat :=
  ExceptT.lift (.drawCount .done)

/-- Turns the case down. -/
def reject : TestM Unit :=
  throw (.draw (.rejected "assumption failed"))

/-- Turns the case down unless the condition holds. -/
def assume (condition : Bool) : TestM Unit :=
  if condition then return () else reject

def note (text : String) : TestM Unit :=
  ExceptT.lift (.note text (.done ()))

def event (name value : String) : TestM Unit :=
  ExceptT.lift (.event name value (.done ()))

def sleep (nanos : Nat) : TestM Unit :=
  ExceptT.lift (.sleep nanos (.done ()))

def interrupt : TestM Unit :=
  ExceptT.lift (.interrupt (.done ()))

def crash {α : Type} (c : Crash) : TestM α :=
  ExceptT.mk (.crash c)

end TestM

/-- A property: the body of each call in a run. What a call does may depend on the cases that
earlier calls made, the latest first. -/
abbrev Property := List Case → Body (Except CaseError Unit)

/-- A property of the values of one strategy. -/
def Property.given (strategy : Strategy) (body : List Case → Value → TestM Unit) : Property :=
  fun history => do
    (do body history (← TestM.draw strategy (some "value")) : TestM Unit)

/-- A case in the middle of its execution. -/
structure CaseState where
  source : Source
  /-- Candidates that a filter may draw. -/
  attempts : Nat
  drawTime : Duration
  arguments : Array (String × Value)
  notes : Array String
  features : Assoc String String
  clock : Clock
  interrupted : Bool
  features_ordered : features.Ordered

namespace CaseState

/-- The start of a case. -/
def start (source : Source) (attempts : Nat) (clock : Clock) (interrupted : Bool) : CaseState where
  source := source
  attempts := attempts
  drawTime := .zero
  arguments := #[]
  notes := #[]
  features := []
  clock := clock
  interrupted := interrupted
  features_ordered := Assoc.ordered_nil

/-- Generates a value. What filters and maps sleep passes on the clock. -/
def generate (s : CaseState) (strategy : Strategy) : Except Stop Value × CaseState :=
  let (result, source) := strategy.generate s.attempts s.source
  (result, { s with source := { source with asleep := 0 }, clock := s.clock.sleep source.asleep })

/-- The name of the next argument that has none of its own. -/
def numbered (s : CaseState) : String :=
  s!"draw_{s.arguments.size + 1}"

/-- Marks a feature. -/
def mark (s : CaseState) (name value : String) : CaseState :=
  { s with
    features := Assoc.insert name value s.features
    features_ordered := s.features_ordered.insert name value }

/-- Adds a value under its name. -/
def argue (s : CaseState) (name : Option String) (value : Value) : CaseState :=
  { s with arguments := s.arguments.push (name.getD s.numbered, value) }

/-- Draws a value and adds the time that it took, unless a crash cut it short. -/
def draw (s : CaseState) (strategy : Strategy) : Except Stop Value × CaseState :=
  let (began, clock) := s.clock.read
  match { s with clock := clock }.generate strategy with
  | (.error (.crashed c), s) => (.error (.crashed c), s)
  | (result, s) =>
    let (ended, clock) := s.clock.read
    (result, { s with clock := clock, drawTime := s.drawTime + (ended - began) })

end CaseState

/-- How a body ended. -/
inductive Ending (α : Type) where
  | returned (result : α)
  | crashed (crash : Crash)

/-- Plays a body on the state of a case. -/
def Body.run {α : Type} (body : Body α) (s : CaseState) : Ending α × CaseState :=
  match body with
  | .done a => (.returned a, s)
  | .crash c => (.crashed c, s)
  | .draw name strategy next =>
    match s.draw strategy with
    | (.error (.crashed c), s) => (.crashed c, s)
    | (.error (.failed e), s) => (next (.error e)).run s
    | (.ok value, s) => (next (.ok value)).run (s.argue name value)
  | .drawCount next => (next s.source.drawCount).run s
  | .note text next => next.run { s with notes := s.notes.push text }
  | .event name value next => next.run (s.mark name value)
  | .sleep nanos next => next.run { s with clock := s.clock.sleep nanos }
  | .interrupt next => next.run { s with interrupted := true }

end Falsify
