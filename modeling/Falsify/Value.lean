import Falsify.Text.Json

/-!
# Generated values

The values that strategies generate: integers of 64 bits, booleans, and lists and tuples of values.

* `Value.text`: how reports show a value;
* `Value.toJson`: how records carry it.
-/

namespace Falsify

inductive Value where
  | integer (n : Int64)
  | boolean (b : Bool)
  | list (items : List Value)
  | tuple (items : List Value)
  deriving Inhabited

namespace Value

def asInteger? : Value → Option Int64
  | .integer n => some n
  | _ => none

def asBoolean? : Value → Option Bool
  | .boolean b => some b
  | _ => none

/-- The elements of a list or a tuple. -/
def elements? : Value → Option (List Value)
  | .list items => some items
  | .tuple items => some items
  | _ => none

/-- Texts with a comma and a blank between neighbours. -/
def commaSpaced : List (List Char) → List Char
  | [] => []
  | [text] => text
  | text :: rest => text ++ ',' :: ' ' :: commaSpaced rest

mutual

/-- The characters of a value's text. A tuple of one element has a comma behind it. -/
def chars : Value → List Char
  | .integer n => (toString n.toInt).toList
  | .boolean b => (if b then "true" else "false").toList
  | .list items => '[' :: commaSpaced (itemChars items) ++ [']']
  | .tuple [item] => '(' :: chars item ++ [',', ')']
  | .tuple items => '(' :: commaSpaced (itemChars items) ++ [')']

def itemChars : List Value → List (List Char)
  | [] => []
  | item :: rest => chars item :: itemChars rest

end

/-- The text of a value. -/
def text (v : Value) : String :=
  String.ofList v.chars

mutual

/-- The value as JSON: lists and tuples both become arrays. -/
def toJson : Value → Json
  | .integer n => .int n.toInt
  | .boolean b => .bool b
  | .list items => .arr (itemsToJson items)
  | .tuple items => .arr (itemsToJson items)

def itemsToJson : List Value → List Json
  | [] => []
  | item :: rest => toJson item :: itemsToJson rest

end

end Value

end Falsify
