import Falsify.Script.Expr

/-!
# Strategies in scripts

A plan describes a strategy. Its bounds are expressions, which are evaluated when the strategy is
built, and so are the variables that its filters and maps see, apart from their own.

* `Plan`: the descriptions;
* `Plan.build`: the strategy of a plan.
-/

namespace Falsify.Script

inductive Plan where
  | integers (least most : Expr)
  | anyInteger
  | booleans
  | just (e : Expr)
  | lists (elements : Plan)
  | sized (inner : Plan) (least most : Expr)
  | listsAround (elements : Plan) (least most : Expr) (average : Float)
  | tuple (parts : List Plan)
  | oneOf (options : List Plan)
  | frequencies (options : List (Float32 × Plan))
  | filter (inner : Plan) (name parameter : String) (body : Expr)
  | map (inner : Plan) (name parameter : String) (body : Expr)

instance : Inhabited Plan := ⟨.booleans⟩

/-- A bound of a range of integers, cut to 64 bits. -/
def evalInt64 (env : Bindings) (e : Expr) : EvalM Int64 := do
  return Int64.ofInt (← e.eval env).asInt

/-- A number of elements, cut to 64 bits. -/
def evalUInt64 (env : Bindings) (e : Expr) : EvalM UInt64 := do
  return UInt64.ofNat ((← e.eval env).asInt % 2 ^ 64).toNat

/-- A filter: an expression of one variable, under a name. -/
def predicateOf (env : Bindings) (name parameter : String) (body : Expr) : Predicate where
  name := name
  test value := EvalM.react do
    return (← body.eval ((parameter, Datum.ofValue value) :: env)).asBool

/-- A map: an expression of one variable, under a name. -/
def transformOf (env : Bindings) (name parameter : String) (body : Expr) : Transform where
  name := name
  apply value := EvalM.react do
    return (← body.eval ((parameter, Datum.ofValue value) :: env)).toValue

mutual

/-- The strategy of a plan. -/
def Plan.build (env : Bindings) : Plan → EvalM Strategy
  | .integers least most => do
    return .integers (← evalInt64 env least) (← evalInt64 env most)
  | .anyInteger => return .anyInteger
  | .booleans => return .booleans
  | .just e => do
    return .just (← e.eval env).toValue
  | .lists elements => do
    return .listsOf (← elements.build env)
  | .sized inner least most => do
    let strategy ← inner.build env
    return strategy.sized (← evalUInt64 env least) (← evalUInt64 env most)
  | .listsAround elements least most average => do
    let strategy ← elements.build env
    return .lists strategy (← evalUInt64 env least) (← evalUInt64 env most) average
  | .tuple parts => do
    return .tuple (← buildAll env parts)
  | .oneOf options => do
    return .oneOf (← buildAll env options)
  | .frequencies options => do
    return .frequencies (← buildWeighted env options)
  | .filter inner name parameter body => do
    return .filter (← inner.build env) (predicateOf env name parameter body)
  | .map inner name parameter body => do
    return .map (← inner.build env) (transformOf env name parameter body)

def buildAll (env : Bindings) : List Plan → EvalM (List Strategy)
  | [] => return []
  | plan :: rest => do
    let strategy ← plan.build env
    return strategy :: (← buildAll env rest)

def buildWeighted (env : Bindings) : List (Float32 × Plan) → EvalM (List (Float32 × Strategy))
  | [] => return []
  | (weight, plan) :: rest => do
    let strategy ← plan.build env
    return (weight, strategy) :: (← buildWeighted env rest)

end

end Falsify.Script
