import Falsify.Random.BitLength
import Falsify.Strategy

/-!
# Generating values

A strategy's value is made of draws alone, so the record of the draws rebuilds it. Lower draws give
simpler values: integers nearer to zero, `false`, shorter lists, earlier options.

* `Strategy.generate`: one value;
* `Strategy.retry`: a filter draws its inner value again so many times.
-/

namespace Falsify

/-- Runs a piece of the caller's code: its sleep is added up, and its crash ends generation. -/
def react {α : Type} (reaction : Reaction α) : DrawM α := fun s =>
  let s := { s with asleep := s.asleep + reaction.asleep }
  match reaction.result with
  | .ok a => (.ok a, s)
  | .error crash => (.error (.crashed crash), s)

/-- Counts one answer of a filter. -/
def countPredicate (name : String) (satisfied : Bool) : DrawM Unit := fun s =>
  (.ok (), s.recordPredicate name satisfied)

/-- Ends generation with an error of the given kind. -/
def refuse {α : Type} (error : DrawError) : DrawM α :=
  throw (.failed error)

namespace Strategy

/-- Draws candidates until the predicate accepts one, `attempts` times at most. -/
def retry (candidate : DrawM Value) (predicate : Predicate) : (attempts : Nat) → DrawM Value
  | 0 => refuse (.rejected s!"filter {predicate.name} exhausted")
  | attempts + 1 => do
    let value ← candidate
    let satisfied ← react (predicate.test value)
    countPredicate predicate.name satisfied
    if satisfied then return value else retry candidate predicate attempts

mutual

/-- One value of a strategy. A filter may turn down `attempts` candidates, and gets one at least. -/
def generate (attempts : Nat) : Strategy → DrawM Value
  | .integers least most => return .integer (← integerBetween least most)
  | .anyInteger => return .integer (← integerOfLengths bitLengths)
  | .booleans => return .boolean ((← Source.bits 1) == 1)
  | .just value => return value
  | .lists elements least most average => do
    if least > most then
      refuse (.invalidArgument s!"list min_size {least.toNat} exceeds max_size {most.toNat}")
    else
      let growth := Growth.start least.toNat most.toNat average
      return .list (← growth.repeatWhile (generate attempts elements))
  | .tuple parts => return .tuple (← generateAll attempts parts)
  | .oneOf options => do
    if options.isEmpty then refuse (.invalidArgument "one_of needs at least one strategy")
    else
      let i ← uniform (UInt64.ofNat (options.length - 1))
      generateAt attempts options i.toNat
  | .frequencies options =>
    match AliasTable.ofWeights? (options.map Prod.fst) with
    | none => refuse (.invalidArgument "frequencies needs a strategy with positive weight")
    | some table => do
      let i ← table.sample
      generateWeightedAt attempts options i
  | .filter inner predicate => retry (generate attempts inner) predicate (max attempts 1)
  | .map inner transform => do react (transform.apply (← generate attempts inner))

/-- One value of each strategy, in order. -/
def generateAll (attempts : Nat) : List Strategy → DrawM (List Value)
  | [] => return []
  | part :: rest => do
    let value ← generate attempts part
    return value :: (← generateAll attempts rest)

/-- One value of the strategy at a position. -/
def generateAt (attempts : Nat) : List Strategy → Nat → DrawM Value
  | [], _ => refuse (.invalidArgument "no such option")
  | option :: _, 0 => generate attempts option
  | _ :: rest, i + 1 => generateAt attempts rest i

/-- One value of the weighted strategy at a position. -/
def generateWeightedAt (attempts : Nat) : List (Float32 × Strategy) → Nat → DrawM Value
  | [], _ => refuse (.invalidArgument "no such option")
  | (_, option) :: _, 0 => generate attempts option
  | _ :: rest, i + 1 => generateWeightedAt attempts rest i

end

end Strategy

end Falsify
