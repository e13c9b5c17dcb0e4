import Falsify.Source
import Falsify.Value

/-!
# Strategies

A strategy describes the shape of a value: it is a finite tree of integers, booleans, fixed
values, lists, tuples, choices, filters and maps. Filters and maps hold code of the caller, which
may take time and may crash.

* `Strategy`: the trees;
* `Reaction`: what the caller's code does with a value;
* `Strategy.sized`: a list strategy with other bounds.
-/

namespace Falsify

/-- What a piece of the caller's code does: it sleeps for some nanoseconds, and then gives a
result or crashes. -/
structure Reaction (α : Type) where
  asleep : Nat
  result : Except Crash α

/-- A named test of values. -/
structure Predicate where
  name : String
  test : Value → Reaction Bool

/-- A named map of values. -/
structure Transform where
  name : String
  apply : Value → Reaction Value

def Predicate.description (p : Predicate) : String :=
  s!"Predicate({p.name})"

def Transform.description (t : Transform) : String :=
  s!"Transform({t.name})"

/-- The shape of a value. -/
inductive Strategy where
  /-- The integers from `least` to `most`. -/
  | integers (least most : Int64)
  /-- Integers of any size, most of them small. -/
  | anyInteger
  | booleans
  /-- One value. -/
  | just (value : Value)
  /-- Lists of `least` to `most` elements, `average` of them on average. -/
  | lists (elements : Strategy) (least most : UInt64) (average : Float)
  | tuple (parts : List Strategy)
  /-- The values of any of the options, all of them equally likely. -/
  | oneOf (options : List Strategy)
  /-- The values of any of the options, chosen by weight. -/
  | frequencies (options : List (Float32 × Strategy))
  /-- The values that the predicate accepts. -/
  | filter (inner : Strategy) (predicate : Predicate)
  | map (inner : Strategy) (transform : Transform)

namespace Strategy

/-- The most elements of a list unless it is sized. -/
def defaultMost : UInt64 := 100

/-- The average number of elements of a list unless it is sized. -/
def defaultAverage : Float := 5.0

/-- Lists of elements. -/
def listsOf (elements : Strategy) : Strategy :=
  .lists elements 0 defaultMost defaultAverage

/-- The greater of two numbers; what is no number gives way. -/
def greater (x y : Float) : Float :=
  if x.isNaN || x < y then y else x

/-- The lesser of two numbers; what is no number gives way. -/
def lesser (x y : Float) : Float :=
  if x.isNaN || y < x then y else x

/-- A list strategy gets other bounds, and its average is moved between them. Other strategies
stay as they are. -/
def sized (least most : UInt64) : Strategy → Strategy
  | .lists elements _ _ average =>
    .lists elements least most (lesser (greater average least.toFloat) most.toFloat)
  | other => other

end Strategy

end Falsify
