import Falsify.Property.Body
import Falsify.Script.Plan

/-!
# Test bodies in scripts

A script's test body is a list of statements, run in order until one of them stops it. Variables
that it sets keep their values, also after an error that it catches.

* `Statement`: the statements;
* `Statement.run`: what a statement does;
* `property`, `propertyOf`: the property of a script.
-/

namespace Falsify.Script

inductive Statement where
  | draw (var : String) (name : Option String) (plan : Plan)
  | drawInteger (var : String) (least most : Expr)
  | drawBoolean (var : String)
  | drawCount (var : String)
  | assume (condition : Expr)
  | reject
  | note (text : Message)
  | event (name value : Message)
  | assign (var : String) (e : Expr)
  | branch (condition : Expr) (yes no : List Statement)
  | repeated (times : Expr) (body : List Statement)
  | forEach (var : String) (items : Expr) (body : List Statement)
  /-- Runs the handler if the body stops with an error. -/
  | attempt (body handler : List Statement)
  | fail (text : Message)
  | failIf (condition : Expr) (text : Message)
  | rejected (reason : Message)
  | overrun (limit : Expr)
  | invalid (reason : Message)
  | crash (text : Message)
  | crashWith (crash : Crash)
  | interrupt
  | sleep (millis : Expr)

instance : Inhabited Statement := ⟨.reject⟩

/-- A body at work: an error keeps the variables. -/
abbrev ScriptM := ExceptT CaseError (StateT Bindings Body)

namespace ScriptM

/-- Runs a body that knows no variables. -/
def lift {α : Type} (body : TestM α) : ScriptM α :=
  ExceptT.mk fun env => do
    let result ← ExceptT.run body
    return (result, env)

/-- Evaluates with the variables of the body. Sleep and crashes are the body's own. -/
def eval {α : Type} (x : Bindings → EvalM α) : ScriptM α := do
  let reaction := (x (← get)).react
  if 0 < reaction.asleep then lift (TestM.sleep reaction.asleep)
  match reaction.result with
  | .ok a => return a
  | .error c => lift (TestM.crash c)

def evalBool (e : Expr) : ScriptM Bool := do
  return (← eval e.eval).asBool

/-- Sets a variable. -/
def assign (var : String) (d : Datum) : ScriptM Unit :=
  modify fun env => (var, d) :: env.eraseP (·.1 == var)

end ScriptM

open ScriptM

mutual

/-- What a statement does. -/
def Statement.run : Statement → ScriptM Unit
  | .draw var name plan => do
    let strategy ← eval fun env => plan.build env
    assign var (.ofValue (← lift (TestM.draw strategy name)))
  | .drawInteger var least most => do
    let l ← eval fun env => evalInt64 env least
    let m ← eval fun env => evalInt64 env most
    assign var (.int (← lift (TestM.drawInteger l m)).toInt)
  | .drawBoolean var => do
    assign var (.bool (← lift TestM.drawBoolean))
  | .drawCount var => do
    assign var (.int (← lift TestM.drawCount))
  | .assume condition => do
    lift (TestM.assume (← evalBool condition))
  | .reject => lift TestM.reject
  | .note text => do
    lift (TestM.note (← eval text.eval))
  | .event name value => do
    let n ← eval name.eval
    let v ← eval value.eval
    lift (TestM.event n v)
  | .assign var e => do
    assign var (← eval e.eval)
  | .branch condition yes no => do
    if ← evalBool condition then runAll yes else runAll no
  | .repeated times body => do
    let n := (← eval times.eval).asInt.toNat
    (List.range n).forM fun _ => runAll body
  | .forEach var items body => do
    let list := (← eval items.eval).items
    list.forM fun item => do
      assign var item
      runAll body
  | .attempt body handler => tryCatch (runAll body) fun _ => runAll handler
  | .fail text => do
    throw (.failed (← eval text.eval))
  | .failIf condition text => do
    if ← evalBool condition then throw (.failed (← eval text.eval))
  | .rejected reason => do
    throw (.draw (.rejected (← eval reason.eval)))
  | .overrun limit => do
    throw (.draw (.overrun (← eval fun env => evalUInt64 env limit).toNat))
  | .invalid reason => do
    throw (.draw (.invalidArgument (← eval reason.eval)))
  | .crash text => do
    lift (TestM.crash (.text (← eval text.eval)))
  | .crashWith c => lift (TestM.crash c)
  | .interrupt => lift TestM.interrupt
  | .sleep millis => do
    let n := (← eval millis.eval).asInt.toNat
    lift (TestM.sleep (n * 10 ^ 6))

def runAll : List Statement → ScriptM Unit
  | [] => return ()
  | statement :: rest => do
    statement.run
    runAll rest

end

/-- A list of statements as a body, with some variables set. -/
def bodyOf (statements : List Statement) (env : Bindings) : TestM Unit :=
  ExceptT.mk do return (← (runAll statements).run.run env).1

/-- The variable that counts the calls of a body. -/
def callsVariable (calls : Nat) : String × Datum :=
  ("calls", .int calls)

/-- The property of a script. -/
def property (statements : List Statement) : Property := fun history =>
  bodyOf statements [callsVariable (history.length + 1)]

/-- How many of some cases got as far as their value, so that the body of a property of values was
called. -/
def callsWithValue (cases : List Case) : Nat :=
  (cases.filter fun c => !c.arguments.isEmpty).length

/-- The property of a script about the values of one strategy, which it sees as `value`. -/
def propertyOf (strategy : Strategy) (statements : List Statement) : Property :=
  Property.given strategy fun history value =>
    bodyOf statements [("value", .ofValue value), callsVariable (callsWithValue history + 1)]

end Falsify.Script
