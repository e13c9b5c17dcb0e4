import Falsify.Proofs.Random.Alias
import Falsify.Proofs.Source.Outcome

/-!
# Choices with checks

The choices once more, with a check in front of every sum, difference and conversion that a machine
word might not hold and of every access by position. A check that fails is a crash. What fits
whatever its arguments are has no check: the width of a bound, say, or the difference of a word from
the greatest one. No check fails (`integerBetweenChecked_eq`, `sampleChecked_eq`,
`integerOfLengthsChecked_eq`), whatever is drawn: what follows a draw is compared on the values that
the draw can give.

* `require`: the check;
* `ensures_integerBetween`, `ensures_sample`, `ensures_integerOfLengths`: what the choices give.
-/

namespace Falsify

open DrawM

/-- The crash of an operation whose result does not fit. -/
def overflow : Crash := .text "arithmetic overflow"

/-- The crash of an access behind the end of a list. -/
def outOfRange : Crash := .text "index out of range"

/-- Crashes unless the condition holds. -/
def require (condition : Prop) [Decidable condition] (crash : Crash) : DrawM Unit :=
  if condition then pure () else throw (.crashed crash)

theorem require_bind {α : Type} {condition : Prop} [Decidable condition] {crash : Crash}
    (h : condition) (f : Unit → DrawM α) : require condition crash >>= f = f () := by
  rw [require, if_pos h]
  rfl

/-- The number fits a signed word. -/
def FitsInteger (n : Int) : Prop :=
  -2 ^ 63 ≤ n ∧ n < 2 ^ 63

instance (n : Int) : Decidable (FitsInteger n) :=
  inferInstanceAs (Decidable (_ ∧ _))

/-- The number fits an unsigned word. -/
def FitsWord (n : Int) : Prop :=
  0 ≤ n ∧ n < 2 ^ 64

instance (n : Int) : Decidable (FitsWord n) :=
  inferInstanceAs (Decidable (_ ∧ _))

theorem FitsInteger.toInt_ofInt {n : Int} (h : FitsInteger n) : (Int64.ofInt n).toInt = n :=
  Int64.toInt_ofInt_of_le h.1 h.2

theorem FitsInteger.of_between {least most : Int64} {n : Int} (h₁ : least.toInt ≤ n)
    (h₂ : n ≤ most.toInt) : FitsInteger n := by
  have := least.le_toInt
  have := most.toInt_lt
  exact ⟨by omega, by omega⟩

/-! ## Integers of a range -/

/-- An integer from `least` to `most`, with checks. -/
def integerBetweenChecked (least most : Int64) : DrawM Int64 :=
  if least > most then
    throw (.failed (.invalidArgument s!"empty integer range {least.toInt}..={most.toInt}"))
  else if 0 ≤ least then do
    require (FitsInteger (most.toInt - least.toInt)) overflow
    let offset ← uniform (UInt64.ofNat (most.toInt - least.toInt).toNat)
    require (FitsInteger offset.toNat) overflow
    require (FitsInteger (least.toInt + offset.toNat)) overflow
    return Int64.ofInt (least.toInt + offset.toNat)
  else if most ≤ 0 then do
    require (FitsWord (most.toInt - least.toInt)) overflow
    let offset ← uniform (UInt64.ofNat (most.toInt - least.toInt).toNat)
    require (FitsInteger (most.toInt - offset.toNat)) overflow
    return Int64.ofInt (most.toInt - offset.toNat)
  else do
    let limit := zigzagLimit least most
    let code ← Source.drawUntil (widthOf limit) fun code =>
      if code ≤ limit ∧ least.toInt ≤ zigzag code ∧ zigzag code ≤ most.toInt then some code
      else none
    require (FitsInteger (zigzag code)) overflow
    return Int64.ofInt (zigzag code)

/-- The offsets of a range are not longer than the range. -/
theorem offset_le {least most : Int64} (h : ¬ least > most) {offset : UInt64}
    (ho : offset ≤ UInt64.ofNat (most.toInt - least.toInt).toNat) :
    (offset.toNat : Int) ≤ most.toInt - least.toInt := by
  have hle : least.toInt ≤ most.toInt := Int64.le_iff_toInt_le.1 (Int64.not_lt.1 h)
  have := Nat.le_trans (UInt64.le_iff_toNat_le.1 ho) (Nat.mod_le _ _)
  omega

/-- Words may be turned into something else once they are accepted. -/
theorem Source.drawUntil_map {α β : Type} (width : UInt8) (accept : UInt64 → Option α) (f : α → β) :
    Source.drawUntil width (fun v => (accept v).map f) =
      (Source.drawUntil width accept >>= fun a => pure (f a) : DrawM β) := by
  funext s
  induction hn : s.maxDraws - s.record.size using Nat.strongRecOn generalizing s with
  | _ n ih =>
    rw [Source.drawUntil_eq_bind, Source.drawUntil_eq_bind width accept, bind_assoc]
    rcases hv : (Source.bits width s).1 with e | v
    · rw [bind_of_error hv, bind_of_error hv]
    · rw [bind_of_ok hv, bind_of_ok hv]
      rcases ha : accept v with _ | a
      · have hs : Source.bits width s = (.ok v, (Source.bits width s).2) := Prod.ext hv rfl
        obtain ⟨hb, hd, hr⟩ := Source.bits_ok hs
        exact ih _ (by omega) _ rfl
      · rfl

/-- The last case of `integerBetween`, with the accepted code turned into an integer afterwards. -/
theorem drawUntil_zigzag (least most : Int64) (limit : UInt64) :
    (Source.drawUntil (widthOf limit) fun code =>
        let value := zigzag code
        if code ≤ limit ∧ least.toInt ≤ value ∧ value ≤ most.toInt then some (Int64.ofInt value)
        else none) =
      (Source.drawUntil (widthOf limit) fun code =>
        if code ≤ limit ∧ least.toInt ≤ zigzag code ∧ zigzag code ≤ most.toInt then some code
        else none) >>= fun code => (pure (Int64.ofInt (zigzag code)) : DrawM Int64) := by
  rw [← Source.drawUntil_map]
  congr 1
  funext code
  by_cases h : code ≤ limit ∧ least.toInt ≤ zigzag code ∧ zigzag code ≤ most.toInt
  · exact (if_pos h).trans (by rw [if_pos h]; rfl)
  · exact (if_neg h).trans (by rw [if_neg h]; rfl)

theorem ensures_zigzag (least most : Int64) (limit : UInt64) :
    Ensures (Source.drawUntil (widthOf limit) fun code =>
        if code ≤ limit ∧ least.toInt ≤ zigzag code ∧ zigzag code ≤ most.toInt then some code
        else none)
      (fun code => least.toInt ≤ zigzag code ∧ zigzag code ≤ most.toInt) Stop.Overrun := by
  refine (ensures_drawUntil _ _).gives ?_
  rintro code ⟨v, hv⟩
  split at hv
  · rename_i h
    cases hv
    exact h.2
  · cases hv

theorem between_ofInt {least most : Int64} {n : Int} (h₁ : least.toInt ≤ n)
    (h₂ : n ≤ most.toInt) : least ≤ Int64.ofInt n ∧ Int64.ofInt n ≤ most := by
  have hn := (FitsInteger.of_between h₁ h₂).toInt_ofInt
  rw [Int64.le_iff_toInt_le, Int64.le_iff_toInt_le, hn]
  exact ⟨h₁, h₂⟩

theorem ensures_integerBetween {least most : Int64} (h : ¬ least > most) :
    Ensures (integerBetween least most) (fun n => least ≤ n ∧ n ≤ most) Stop.Overrun := by
  unfold integerBetween
  rw [if_neg h]
  split
  · refine (ensures_uniform _).bind fun offset ho => .pure ?_
    have := offset_le h ho
    exact between_ofInt (by omega) (by omega)
  · split
    · refine (ensures_uniform _).bind fun offset ho => .pure ?_
      have := offset_le h ho
      exact between_ofInt (by omega) (by omega)
    · rw [drawUntil_zigzag]
      exact (ensures_zigzag _ _ _).bind fun code hc => .pure (between_ofInt hc.1 hc.2)

theorem integerBetweenChecked_eq (least most : Int64) :
    integerBetweenChecked least most = integerBetween least most := by
  unfold integerBetweenChecked integerBetween
  split
  · rfl
  rename_i h
  have hle : least.toInt ≤ most.toInt := Int64.le_iff_toInt_le.1 (Int64.not_lt.1 h)
  have hlow := least.le_toInt
  have hhigh := most.toInt_lt
  split
  · rename_i hpos
    have hpos : 0 ≤ least.toInt := Int64.le_iff_toInt_le.1 hpos
    rw [require_bind ⟨by omega, by omega⟩]
    refine bind_congr (ensures_uniform _) fun offset ho => ?_
    have := offset_le h ho
    rw [require_bind ⟨by omega, by omega⟩, require_bind ⟨by omega, by omega⟩]
  · split
    · rw [require_bind ⟨by omega, by omega⟩]
      refine bind_congr (ensures_uniform _) fun offset ho => ?_
      have := offset_le h ho
      rw [require_bind ⟨by omega, by omega⟩]
    · rw [drawUntil_zigzag]
      refine bind_congr (ensures_zigzag _ _ _) fun code hc => ?_
      rw [require_bind (FitsInteger.of_between hc.1 hc.2)]

/-! ## Weighted choices -/

namespace AliasTable

namespace Draft

/-- Every share that the pairing looks up is there. -/
def pairsInRange (d : Draft) : Bool :=
  match _hs : d.small, _hl : d.large with
  | low :: small, high :: large =>
    decide (low < d.shares.size) && decide (high < d.shares.size) &&
      pairsInRange ((d.paired low high small large).refile high)
  | _, _ => true
termination_by d.small.length + d.large.length
decreasing_by exact length_round _hs _hl

theorem Within.pairsInRange {n : Nat} {d : Draft} (h : d.Within n) : d.pairsInRange = true := by
  induction d using round_induction with
  | step d low high small large hs hl ih =>
    rw [Draft.pairsInRange]
    split
    · rename_i hs' hl'
      have hlow := h.head_small hs'
      have hhigh := h.head_large hl'
      cases hs.symm.trans hs'
      cases hl.symm.trans hl'
      simp [h.shares, hlow, hhigh, ih ((h.paired hs hl).refile hhigh)]
    · rfl
  | rest d hempty =>
    rw [Draft.pairsInRange]
    split
    · rename_i hs hl
      simp [hs, hl] at hempty
    · rfl

end Draft

/-- The table of a list of weights, with checks. -/
def ofWeightsChecked (weights : List Float32) : DrawM (Option AliasTable) := do
  require ((Draft.ofWeights weights).pairsInRange = true) outOfRange
  return ofWeights? weights

theorem ofWeightsChecked_eq (weights : List Float32) :
    ofWeightsChecked weights = pure (ofWeights? weights) :=
  require_bind (Draft.ofWeights_within weights).1.pairsInRange _

/-- A choice, with checks. -/
def sampleChecked (table : AliasTable) : DrawM Nat := do
  require (0 < table.slots.length) overflow
  let i ← uniform (UInt64.ofNat (table.slots.length - 1))
  require (i.toNat < table.slots.length) outOfRange
  match table.slots[i.toNat]? with
  | none => return 0
  | some slot =>
    if ← coin slot.chance then return slot.alternate
    else return slot.primary

/-- Positions that are drawn for a list are positions of the list. -/
theorem position_lt {length : Nat} (h : 0 < length) {i : UInt64}
    (hi : i ≤ UInt64.ofNat (length - 1)) : i.toNat < length := by
  have := Nat.le_trans (UInt64.le_iff_toNat_le.1 hi) (Nat.mod_le _ _)
  omega

variable {table : AliasTable} {n : Nat}

theorem sampleChecked_eq (h : table.Among n) : table.sampleChecked = table.sample := by
  unfold sampleChecked sample
  rw [require_bind h.nonempty]
  exact bind_congr (ensures_uniform _) fun i hi => require_bind (position_lt h.nonempty hi) _

theorem ensures_sample (h : table.Among n) : Ensures table.sample (· < n) Stop.Overrun := by
  refine (ensures_uniform _).bind fun i hi => ?_
  have hi' := position_lt h.nonempty hi
  rw [List.getElem?_eq_getElem hi']
  have hslot := h.below _ (List.getElem_mem hi')
  refine (ensures_coin _).bind fun second _ => ?_
  cases second with
  | false => exact .pure hslot.1
  | true => exact .pure hslot.2

end AliasTable

/-! ## Integers of any size -/

/-- An integer whose bit length is chosen by a table, with checks. -/
def integerOfLengthsChecked (lengths : AliasTable) : DrawM Int64 := do
  let i ← lengths.sampleChecked
  require (i + 1 < 2 ^ 8) overflow
  let magnitude ← Source.bits (UInt8.ofNat (i + 1))
  require (FitsInteger magnitude.toNat) overflow
  let sign ← Source.bits 1
  let n := Int64.ofInt magnitude.toNat
  require (sign > 0 → FitsInteger (-n.toInt)) overflow
  return if sign > 0 then -n else n

theorem bitLengths_among : bitLengths.Among 63 := by
  unfold bitLengths
  rcases h : AliasTable.ofWeights? bitLengthWeights with _ | table
  · exact ⟨by decide, by simp [AliasSlot.single, AliasSlot.Below]⟩
  · exact (AliasTable.among_of_ofWeights? h).2

variable {lengths : AliasTable}

/-- A magnitude of 63 bits at most fits, and so does its negative. -/
theorem fits_of_bits {i : Nat} (hi : i < 63) {magnitude : UInt64}
    (hm : magnitude.toNat < 2 ^ (UInt8.ofNat (i + 1)).toNat) : magnitude.toNat < 2 ^ 63 := by
  have hwidth : (UInt8.ofNat (i + 1)).toNat = i + 1 := Nat.mod_eq_of_lt (by omega)
  rw [hwidth] at hm
  exact Nat.lt_of_lt_of_le hm (Nat.pow_le_pow_right (by decide) (by omega))

theorem integerOfLengthsChecked_eq (h : lengths.Among 63) :
    integerOfLengthsChecked lengths = integerOfLengths lengths := by
  unfold integerOfLengthsChecked integerOfLengths
  rw [AliasTable.sampleChecked_eq h]
  refine bind_congr (AliasTable.ensures_sample h) fun i hi => ?_
  rw [require_bind (by omega)]
  refine bind_congr (ensures_bits _) fun magnitude hm => ?_
  have hfits : FitsInteger magnitude.toNat := ⟨by omega, by have := fits_of_bits hi hm; omega⟩
  rw [require_bind hfits]
  refine bind_congr (ensures_bits 1) fun sign _ => ?_
  rw [require_bind fun _ => ?_]
  rw [hfits.toInt_ofInt]
  have := hfits.2
  exact ⟨by omega, by omega⟩

theorem ensures_integerOfLengths (h : lengths.Among 63) :
    Ensures (integerOfLengths lengths) (· ≠ Int64.minValue) Stop.Overrun := by
  refine (AliasTable.ensures_sample h).bind fun i hi =>
    (ensures_bits _).bind fun magnitude hm => (ensures_bits 1).bind fun sign _ => .pure ?_
  have hlt := fits_of_bits hi hm
  have hn : (Int64.ofInt magnitude.toNat).toInt = magnitude.toNat :=
    FitsInteger.toInt_ofInt ⟨by omega, by omega⟩
  have hneg : (-Int64.ofInt magnitude.toNat).toInt = -magnitude.toNat := by
    rw [Int64.neg_ofInt]
    exact FitsInteger.toInt_ofInt ⟨by omega, by omega⟩
  intro hmin
  have hmin := congrArg Int64.toInt hmin
  rw [Int64.toInt_minValue] at hmin
  split at hmin
  · omega
  · omega

end Falsify
