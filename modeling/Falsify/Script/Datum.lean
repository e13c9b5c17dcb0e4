import Falsify.Value

/-!
# Data of scripts

The values that scripts compute with: whole numbers without bound, truth values, lists and tuples.
Where an operation wants another kind, a datum is read as one.

* `Datum`: the values;
* `Datum.toValue`, `Datum.ofValue`: to generated values and back.
-/

namespace Falsify.Script

/-- A value in a script. -/
inductive Datum where
  | int (n : Int)
  | bool (b : Bool)
  | list (items : List Datum)
  | tuple (items : List Datum)
  deriving BEq, Inhabited

namespace Datum

/-- As a number: truth counts one, and a list counts its items. -/
def asInt : Datum → Int
  | .int n => n
  | .bool b => if b then 1 else 0
  | .list items => items.length
  | .tuple items => items.length

/-- As a truth value: all numbers but zero are true. -/
def asBool : Datum → Bool
  | .bool b => b
  | d => d.asInt ≠ 0

/-- As a list of items: what has no items is empty. -/
def items : Datum → List Datum
  | .list items => items
  | .tuple items => items
  | _ => []

mutual

/-- As a generated value; numbers are cut to 64 bits. -/
def toValue : Datum → Value
  | .int n => .integer (Int64.ofInt n)
  | .bool b => .boolean b
  | .list items => .list (toValues items)
  | .tuple items => .tuple (toValues items)

def toValues : List Datum → List Value
  | [] => []
  | item :: rest => toValue item :: toValues rest

end

mutual

/-- A generated value in a script. -/
def ofValue : Value → Datum
  | .integer n => .int n.toInt
  | .boolean b => .bool b
  | .list items => .list (ofValues items)
  | .tuple items => .tuple (ofValues items)

def ofValues : List Value → List Datum
  | [] => []
  | item :: rest => ofValue item :: ofValues rest

end

/-- The largest number of a list, and zero of an empty one. -/
def largest (items : List Datum) : Int :=
  ((items.map asInt).max?).getD 0

/-- The smallest number of a list, and zero of an empty one. -/
def smallest (items : List Datum) : Int :=
  ((items.map asInt).min?).getD 0

/-- Some datum occurs twice. -/
def hasTwice : List Datum → Bool
  | [] => false
  | item :: rest => rest.any (· == item) || hasTwice rest

/-- The items in the order of their numbers; equal ones keep their order. -/
def sortItems (items : List Datum) : List Datum :=
  items.mergeSort fun a b => a.asInt ≤ b.asInt

/-- The item at a position, and zero where there is none. -/
def itemAt (items : List Datum) (i : Int) : Datum :=
  if 0 ≤ i then items.getD i.toNat (.int 0) else .int 0

end Datum

end Falsify.Script
