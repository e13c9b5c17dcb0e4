import Falsify.Random.Alias

/-!
# Integers of any size

An integer without bounds has its number of bits chosen first, by weights that favour few bits,
then its magnitude, and its sign last.

* `integerOfLengths`: the integer;
* `bitLengths`: the choice of the number of bits.
-/

namespace Falsify

/-- The weights of the bit lengths from one to 63: bytes count half as much from one to the next,
and from the fifth on a tenth of one. -/
def bitLengthWeights : List Float32 :=
  List.replicate 8 4.0 ++ List.replicate 8 2.0 ++ List.replicate 8 1.0 ++ List.replicate 8 0.5
    ++ List.replicate 31 0.1

/-- The choice of a bit length; index zero stands for one bit. -/
def bitLengths : AliasTable :=
  (AliasTable.ofWeights? bitLengthWeights).getD ⟨[.single 0]⟩

/-- An integer whose bit length is chosen by a table. -/
def integerOfLengths (lengths : AliasTable) : DrawM Int64 := do
  let i ← lengths.sample
  let magnitude ← Source.bits (UInt8.ofNat (i + 1))
  let sign ← Source.bits 1
  let n := Int64.ofInt magnitude.toNat
  return if sign > 0 then -n else n

end Falsify
