import Falsify.Script.Statement
import Falsify.Text.Json

/-!
# Reading scripts

Scripts are kept as JSON. An operation is an array that begins with its name; a string is a
variable in an expression and a text in a message.

* `Expr.ofJson?`, `Message.ofJson?`, `Plan.ofJson?`, `Statement.ofJson?`: what a JSON value stands
  for, if it is the written form of anything.
-/

namespace Falsify.Script

/-- An operation with its operands. -/
def Expr.ofOperation? (op : String) (operands : List Expr) : Option Expr :=
  match op, operands with
  | "list", items => some (.list items)
  | "tuple", items => some (.tuple items)
  | "==", [a, b] => some (.equal a b)
  | "!=", [a, b] => some (.different a b)
  | "and", [a, b] => some (.and a b)
  | "or", [a, b] => some (.or a b)
  | "not", [a] => some (.not a)
  | "if", [condition, yes, no] => some (.choice condition yes no)
  | "at", [items, index] => some (.itemAt items index)
  | "sleep", [millis, body] => some (.sleep millis body)
  | _, [a] => (Aggregate.ofName? op).map fun op => .aggregate op a
  | _, [a, b] =>
    match Arithmetic.ofSign? op with
    | some op => some (.arithmetic op a b)
    | none => (Comparison.ofSign? op).map fun op => .comparison op a b
  | _, _ => none

mutual

/-- The expression that a JSON value stands for. -/
def Expr.ofJson? : Json → Option Expr
  | .int n => some (.literal (.int n))
  | .bool b => some (.literal (.bool b))
  | .str name => some (.variable name)
  | .arr [.str "panic", message] => (Message.ofJson? message).map .crash
  | .arr [.str op, items, .str name, body] => do
    let list ← Expr.ofJson? items
    let body ← Expr.ofJson? body
    match Quantifier.ofName? op with
    | some q => return .forEach q list name body
    | none => Expr.ofOperation? op [list, .variable name, body]
  | .arr (.str op :: operands) => do Expr.ofOperation? op (← exprsOfJson? operands)
  | _ => none

def exprsOfJson? : List Json → Option (List Expr)
  | [] => some []
  | j :: rest => do return (← Expr.ofJson? j) :: (← exprsOfJson? rest)

/-- The message that a JSON value stands for. -/
def Message.ofJson? : Json → Option Message
  | .str text => some (.text text)
  | .arr parts => (messagesOfJson? parts).map .joined
  | .obj [("e", e)] => (Expr.ofJson? e).map .shown
  | _ => none

def messagesOfJson? : List Json → Option (List Message)
  | [] => some []
  | j :: rest => do return (← Message.ofJson? j) :: (← messagesOfJson? rest)

end

mutual

/-- The plan that a JSON value stands for. -/
def Plan.ofJson? : Json → Option Plan
  | .arr (.str kind :: parts) =>
    match kind, parts with
    | "int", [least, most] => do return .integers (← Expr.ofJson? least) (← Expr.ofJson? most)
    | "any_int", [] => some .anyInteger
    | "bool", [] => some .booleans
    | "just", [e] => (Expr.ofJson? e).map .just
    | "list", [elements] => (Plan.ofJson? elements).map .lists
    | "sized", [inner, least, most] => do
      return .sized (← Plan.ofJson? inner) (← Expr.ofJson? least) (← Expr.ofJson? most)
    | "list_avg", [elements, least, most, average] => do
      return .listsAround (← Plan.ofJson? elements) (← Expr.ofJson? least) (← Expr.ofJson? most)
        (← average.toFloat?)
    | "tuple", parts => (plansOfJson? parts).map .tuple
    | "one_of", options => (plansOfJson? options).map .oneOf
    | "freq", options => (weightedOfJson? options).map .frequencies
    | "filter", [inner, .str name, .str parameter, body] => do
      return .filter (← Plan.ofJson? inner) name parameter (← Expr.ofJson? body)
    | "map", [inner, .str name, .str parameter, body] => do
      return .map (← Plan.ofJson? inner) name parameter (← Expr.ofJson? body)
    | _, _ => none
  | _ => none

def plansOfJson? : List Json → Option (List Plan)
  | [] => some []
  | j :: rest => do return (← Plan.ofJson? j) :: (← plansOfJson? rest)

def weightedOfJson? : List Json → Option (List (Float32 × Plan))
  | [] => some []
  | .arr [weight, j] :: rest => do
    return ((← weight.toFloat?).toFloat32, ← Plan.ofJson? j) :: (← weightedOfJson? rest)
  | _ => none

end

mutual

/-- The statement that a JSON value stands for. -/
def Statement.ofJson? : Json → Option Statement
  | .arr (.str kind :: parts) =>
    match kind, parts with
    | "draw", [.str var, plan] => (Plan.ofJson? plan).map (.draw var none)
    | "draw_named", [.str var, .str name, plan] => (Plan.ofJson? plan).map (.draw var (some name))
    | "draw_int", [.str var, least, most] => do
      return .drawInteger var (← Expr.ofJson? least) (← Expr.ofJson? most)
    | "draw_bool", [.str var] => some (.drawBoolean var)
    | "draw_count", [.str var] => some (.drawCount var)
    | "assume", [condition] => (Expr.ofJson? condition).map .assume
    | "reject", [] => some .reject
    | "note", [text] => (Message.ofJson? text).map .note
    | "event", [name, value] => do return .event (← Message.ofJson? name) (← Message.ofJson? value)
    | "let", [.str var, e] => (Expr.ofJson? e).map (.assign var)
    | "if", [condition, .arr yes] => do
      return .branch (← Expr.ofJson? condition) (← statementsOfJson? yes) []
    | "if", [condition, .arr yes, .null] => do
      return .branch (← Expr.ofJson? condition) (← statementsOfJson? yes) []
    | "if", [condition, .arr yes, .arr no] => do
      return .branch (← Expr.ofJson? condition) (← statementsOfJson? yes) (← statementsOfJson? no)
    | "repeat", [times, .arr body] => do
      return .repeated (← Expr.ofJson? times) (← statementsOfJson? body)
    | "for", [.str var, items, .arr body] => do
      return .forEach var (← Expr.ofJson? items) (← statementsOfJson? body)
    | "try", [.arr body, .arr handler] => do
      return .attempt (← statementsOfJson? body) (← statementsOfJson? handler)
    | "fail", [text] => (Message.ofJson? text).map .fail
    | "fail_if", [condition, text] => do
      return .failIf (← Expr.ofJson? condition) (← Message.ofJson? text)
    | "rejected", [reason] => (Message.ofJson? reason).map .rejected
    | "overrun", [limit] => (Expr.ofJson? limit).map .overrun
    | "invalid", [reason] => (Message.ofJson? reason).map .invalid
    | "panic", [text] => (Message.ofJson? text).map .crash
    | "panic_static", [] => some (.crashWith (.text "static text"))
    | "panic_other", [] => some (.crashWith .other)
    | "interrupt", [] => some .interrupt
    | "sleep", [millis] => (Expr.ofJson? millis).map .sleep
    | _, _ => none
  | _ => none

/-- The statements that a list of JSON values stands for. -/
def statementsOfJson? : List Json → Option (List Statement)
  | [] => some []
  | j :: rest => do return (← Statement.ofJson? j) :: (← statementsOfJson? rest)

end

end Falsify.Script
