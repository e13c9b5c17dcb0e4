import Falsify.Random.Coin
import Falsify.Random.Uniform

/-!
# Weighted choices

A table of aliases turns a choice among `n` weighted alternatives into a uniform choice among `n`
slots and one coin: a slot names two alternatives, `primary` and `alternate`, and the chance of
the second. Slots are ordered so that lower draws choose lower alternatives.

* `AliasTable.ofWeights?`: the table of a list of weights, if one of them is positive;
* `AliasTable.sample`: the choice.
-/

namespace Falsify

/-- Two alternatives of a choice, and the chance of the second. -/
structure AliasSlot where
  primary : Nat
  alternate : Nat
  useAlternate : Float32

namespace AliasSlot

/-- A slot for one alternative alone. -/
def single (i : Nat) : AliasSlot :=
  ⟨i, i, 0.0⟩

/-- The lower alternative comes first. -/
def oriented (slot : AliasSlot) : AliasSlot :=
  if slot.alternate < slot.primary then
    ⟨slot.alternate, slot.primary, 1.0 - slot.useAlternate⟩
  else slot

/-- The chance of the second alternative as a coin takes it: the same number in the wider format. -/
def chance (slot : AliasSlot) : Float :=
  match slot.useAlternate.toModel.unpack with
  | .finite sign mantissa exponent _ =>
    .ofModel (.pack (.round .binary64 sign mantissa exponent))
  | other => .ofModel (.pack other)

/-- The order of slots in a table. -/
def le (a b : AliasSlot) : Bool :=
  a.primary < b.primary || (a.primary == b.primary && a.alternate ≤ b.alternate)

end AliasSlot

/-- A table with one slot for each alternative. -/
structure AliasTable where
  slots : List AliasSlot

namespace AliasTable

/-- The least difference from one that counts: the distance from one to the next number above it. -/
def tolerance : Float32 := 1.1920929e-7

/-- The weights that count, added up from the front. -/
def totalWeight (weights : List Float32) : Float32 :=
  (weights.filter (· > 0.0)).foldl (· + ·) 0.0

/-- A weight's share of the slots. Weights that are not positive have none. -/
def share (weights : List Float32) (weight : Float32) : Float32 :=
  let count := (UInt64.ofNat weights.length).toFloat32
  count * (if weight > 0.0 then weight else 0.0) / totalWeight weights

/-- Puts an alternative into an increasing list of them. -/
def enqueue (i : Nat) : List Nat → List Nat
  | [] => [i]
  | j :: rest => if i ≤ j then i :: j :: rest else j :: enqueue i rest

theorem length_enqueue (i : Nat) (queue : List Nat) :
    (enqueue i queue).length = queue.length + 1 := by
  induction queue with
  | nil => rfl
  | cons j rest ih =>
    unfold enqueue
    split <;> simp [ih]

/-- The making of a table: the shares not given away yet, the alternatives with less and with more
than one slot's worth, both in increasing order, and the slots made. -/
structure Draft where
  shares : Array Float32
  small : List Nat
  large : List Nat
  slots : List AliasSlot

namespace Draft

def shareOf (d : Draft) (i : Nat) : Float32 :=
  d.shares.getD i 0.0

/-- Files an alternative by its share. -/
def place (d : Draft) (i : Nat) : Draft :=
  if (d.shareOf i - 1.0).abs < tolerance then { d with slots := d.slots ++ [.single i] }
  else if d.shareOf i > 1.0 then { d with large := enqueue i d.large }
  else { d with small := enqueue i d.small }

/-- The first draft: every alternative with its share. -/
def ofWeights (weights : List Float32) : Draft :=
  let start : Draft := ⟨(weights.map (share weights)).toArray, [], [], []⟩
  (List.range weights.length).foldl place start

/-- A slot for `low`, filled up from `high`, whose share is lowered by what it gave. -/
def pair (d : Draft) (low high : Nat) : Draft :=
  let left := (d.shareOf high + d.shareOf low) - 1.0
  { d with
    shares := d.shares.setIfInBounds high left
    slots := d.slots ++ [⟨low, high, 1.0 - d.shareOf low⟩] }

/-- Pairs the first small alternative with the first large one as long as there are both. What
remains then gets slots of its own. -/
def finish (d : Draft) : List AliasSlot :=
  match hs : d.small, hl : d.large with
  | low :: small, high :: large =>
    let d' := { d.pair low high with small := small, large := large }
    if d'.shareOf high < (1.0 : Float32) then finish { d' with small := enqueue high small }
    else if d'.shareOf high > (1.0 : Float32) then finish { d' with large := enqueue high large }
    else finish { d' with slots := d'.slots ++ [.single high] }
  | small, large => d.slots ++ small.map .single ++ large.map .single
termination_by d.small.length + d.large.length
decreasing_by all_goals (simp only [hs, hl, length_enqueue, List.length_cons]; omega)

end Draft

/-- The table of a list of weights, if some weight counts. -/
def ofWeights? (weights : List Float32) : Option AliasTable :=
  if weights.isEmpty || totalWeight weights ≤ 0.0 then none
  else some ⟨((Draft.ofWeights weights).finish.map AliasSlot.oriented).mergeSort AliasSlot.le⟩

/-- Chooses a slot, then one of its alternatives. -/
def sample (table : AliasTable) : DrawM Nat := do
  let i ← uniform (UInt64.ofNat (table.slots.length - 1))
  match table.slots[i.toNat]? with
  | none => return 0
  | some slot =>
    if ← coin slot.chance then return slot.alternate
    else return slot.primary

end AliasTable

end Falsify
