import Falsify.Source

/-!
# Bounded integers

A bounded integer takes exactly as many bits as its bound needs, and probes above the bound are
turned down. A range of integers is coded so that low words stand for the integers of least
magnitude: a range on one side of zero counts from its end next to zero, and one that reaches
across goes 0, -1, 1, -2, 2 and so on.

* `uniform`: an integer up to a bound;
* `integerBetween`: an integer of a range;
* `zigzag`: the code of a range across zero.
-/

namespace Falsify

/-- The width that holds a word and no more. -/
def widthOf (word : UInt64) : UInt8 :=
  UInt8.ofNat (bitLength word.toNat)

/-- An integer from zero to `most`, all of them equally likely. A bound of zero is written. -/
def uniform (most : UInt64) : DrawM UInt64 :=
  if most = 0 then do
    Source.write 0
    return 0
  else
    Source.drawUntil (widthOf most) fun probe => if probe ≤ most then some probe else none

/-- The integer that a code across zero stands for: odd codes are negative. -/
def zigzag (code : UInt64) : Int :=
  if code % 2 = 1 then -Int.ofNat ((code.toNat + 1) / 2) else Int.ofNat (code.toNat / 2)

/-- The highest code across zero that a range can need. -/
def zigzagLimit (least most : Int64) : UInt64 :=
  let reach := max least.toInt.natAbs most.toInt.natAbs
  UInt64.ofNat (min (2 * reach) (2 ^ 64 - 1))

/-- An integer from `least` to `most`. -/
def integerBetween (least most : Int64) : DrawM Int64 :=
  if least > most then
    throw (.failed (.invalidArgument s!"empty integer range {least.toInt}..={most.toInt}"))
  else if 0 ≤ least then do
    let offset ← uniform (UInt64.ofNat (most.toInt - least.toInt).toNat)
    return Int64.ofInt (least.toInt + offset.toNat)
  else if most ≤ 0 then do
    let offset ← uniform (UInt64.ofNat (most.toInt - least.toInt).toNat)
    return Int64.ofInt (most.toInt - offset.toNat)
  else
    let limit := zigzagLimit least most
    Source.drawUntil (widthOf limit) fun code =>
      let value := zigzag code
      if code ≤ limit ∧ least.toInt ≤ value ∧ value ≤ most.toInt then some (Int64.ofInt value)
      else none

end Falsify
