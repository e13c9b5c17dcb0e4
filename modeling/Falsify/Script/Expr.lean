import Falsify.Script.Datum
import Falsify.Strategy

/-!
# Expressions

The code in filters, maps and test bodies of scripts. Expressions have no effects but two: they
may sleep and they may crash.

* `Expr`: the expressions, and `Message`: texts with expressions in them;
* `Expr.eval`: the datum that an expression stands for;
* `Expr.react`: an expression as code of a caller.
-/

namespace Falsify.Script

/-- Operations on two numbers. -/
inductive Arithmetic where
  | add
  | subtract
  | multiply
  | divide
  | remainder

/-- The operation of a sign. -/
def Arithmetic.ofSign? : String → Option Arithmetic
  | "+" => some .add
  | "-" => some .subtract
  | "*" => some .multiply
  | "/" => some .divide
  | "%" => some .remainder
  | _ => none

/-- The result of an operation. Division rounds so that the remainder is not negative; by zero it
gives zero, and so does the remainder. -/
def Arithmetic.apply : Arithmetic → Int → Int → Int
  | .add, a, b => a + b
  | .subtract, a, b => a - b
  | .multiply, a, b => a * b
  | .divide, a, b => if b = 0 then 0 else a / b
  | .remainder, a, b => if b = 0 then 0 else a % b

/-- Comparisons of two numbers. -/
inductive Comparison where
  | less
  | lessOrEqual
  | greater
  | greaterOrEqual

/-- The comparison of a sign. -/
def Comparison.ofSign? : String → Option Comparison
  | "<" => some .less
  | "<=" => some .lessOrEqual
  | ">" => some .greater
  | ">=" => some .greaterOrEqual
  | _ => none

def Comparison.holds : Comparison → Int → Int → Bool
  | .less, a, b => a < b
  | .lessOrEqual, a, b => a ≤ b
  | .greater, a, b => a > b
  | .greaterOrEqual, a, b => a ≥ b

/-- Operations on the items of one list. -/
inductive Aggregate where
  | length
  | sum
  | largest
  | smallest
  | twice
  | sorted

/-- The operation of a name. -/
def Aggregate.ofName? : String → Option Aggregate
  | "len" => some .length
  | "sum" => some .sum
  | "max" => some .largest
  | "min" => some .smallest
  | "dup" => some .twice
  | "sort" => some .sorted
  | _ => none

def Aggregate.apply (a : Aggregate) (d : Datum) : Datum :=
  match a with
  | .length => .int d.items.length
  | .sum => .int (d.items.map Datum.asInt).sum
  | .largest => .int (Datum.largest d.items)
  | .smallest => .int (Datum.smallest d.items)
  | .twice => .bool (Datum.hasTwice d.items)
  | .sorted => .list (Datum.sortItems d.items)

/-- What is done with an expression for each item of a list. -/
inductive Quantifier where
  | any
  | all
  | map
  | keep

/-- The quantifier of a name. -/
def Quantifier.ofName? : String → Option Quantifier
  | "any" => some .any
  | "all" => some .all
  | "map" => some .map
  | "keep" => some .keep
  | _ => none

mutual

inductive Expr where
  | literal (d : Datum)
  | variable (name : String)
  | arithmetic (op : Arithmetic) (a b : Expr)
  | comparison (op : Comparison) (a b : Expr)
  | equal (a b : Expr)
  | different (a b : Expr)
  | and (a b : Expr)
  | or (a b : Expr)
  | not (a : Expr)
  | choice (condition yes no : Expr)
  | aggregate (op : Aggregate) (a : Expr)
  | itemAt (items index : Expr)
  | forEach (q : Quantifier) (items : Expr) (name : String) (body : Expr)
  | list (items : List Expr)
  | tuple (items : List Expr)
  | crash (message : Message)
  | sleep (millis : Expr) (body : Expr)

inductive Message where
  | text (text : String)
  | joined (parts : List Message)
  /-- The text of an expression's value. -/
  | shown (e : Expr)

end

instance : Inhabited Expr := ⟨.literal (.int 0)⟩

instance : Inhabited Message := ⟨.text ""⟩

/-- Variables with their values, the latest first. -/
abbrev Bindings := List (String × Datum)

/-- The value of a variable, and zero if there is none of that name. -/
def Bindings.value (env : Bindings) (name : String) : Datum :=
  (env.lookup name).getD (.int 0)

/-- Evaluation: it counts the nanoseconds slept, and may crash. -/
abbrev EvalM := ExceptT Crash (StateM Nat)

/-- Sleeps for so many milliseconds. -/
def EvalM.sleep (millis : Int) : EvalM Unit :=
  modify fun nanos => nanos + millis.toNat * 10 ^ 6

/-- The items for which a test holds. -/
def keepItems (test : Datum → EvalM Bool) : List Datum → EvalM (List Datum)
  | [] => return []
  | item :: rest => do
    if ← test item then return item :: (← keepItems test rest) else keepItems test rest

/-- What a quantifier makes of the items of a list. -/
def Quantifier.apply (q : Quantifier) (items : List Datum) (body : Datum → EvalM Datum) :
    EvalM Datum := do
  let test (item : Datum) : EvalM Bool := return (← body item).asBool
  match q with
  | .any => return .bool (← items.anyM test)
  | .all => return .bool (← items.allM test)
  | .map => return .list (← items.mapM body)
  | .keep => return .list (← keepItems test items)

mutual

/-- The value of an expression. -/
def Expr.eval (env : Bindings) : Expr → EvalM Datum
  | .literal d => return d
  | .variable name => return env.value name
  | .arithmetic op a b => do
    let x ← a.eval env
    let y ← b.eval env
    return .int (op.apply x.asInt y.asInt)
  | .comparison op a b => do
    let x ← a.eval env
    let y ← b.eval env
    return .bool (op.holds x.asInt y.asInt)
  | .equal a b => do
    let x ← a.eval env
    let y ← b.eval env
    return .bool (x == y)
  | .different a b => do
    let x ← a.eval env
    let y ← b.eval env
    return .bool (x != y)
  | .and a b => do
    if (← a.eval env).asBool then return .bool (← b.eval env).asBool else return .bool false
  | .or a b => do
    if (← a.eval env).asBool then return .bool true else return .bool (← b.eval env).asBool
  | .not a => do
    return .bool !(← a.eval env).asBool
  | .choice condition yes no => do
    if (← condition.eval env).asBool then yes.eval env else no.eval env
  | .aggregate op a => do
    return op.apply (← a.eval env)
  | .itemAt items index => do
    let list ← items.eval env
    let i ← index.eval env
    return Datum.itemAt list.items i.asInt
  | .forEach q items name body => do
    let list ← items.eval env
    q.apply list.items fun item => body.eval ((name, item) :: env)
  | .list items => do
    return .list (← evalAll env items)
  | .tuple items => do
    return .tuple (← evalAll env items)
  | .crash message => do
    throw (.text (← message.eval env))
  | .sleep millis body => do
    EvalM.sleep (← millis.eval env).asInt
    body.eval env

def evalAll (env : Bindings) : List Expr → EvalM (List Datum)
  | [] => return []
  | e :: rest => do
    let d ← e.eval env
    return d :: (← evalAll env rest)

/-- The text of a message. -/
def Message.eval (env : Bindings) : Message → EvalM String
  | .text text => return text
  | .joined parts => evalJoined env parts
  | .shown e => do
    return (← e.eval env).toValue.text

def evalJoined (env : Bindings) : List Message → EvalM String
  | [] => return ""
  | part :: rest => do
    let text ← part.eval env
    return text ++ (← evalJoined env rest)

end

/-- An evaluation as code of a caller. -/
def EvalM.react {α : Type} (x : EvalM α) : Reaction α :=
  let (result, asleep) := x 0
  ⟨asleep, result⟩

end Falsify.Script
