import Falsify.Proofs.Random.Checked
import Falsify.Proofs.Source.Zeros

/-!
# The code of a range

An integer of a range with more than one member is drawn in probes of one width, until a probe
stands for an integer of the range. Each integer of the range has one probe, and the probes are in
the order of magnitude: the lowest one stands for the integer next to zero.

* `integerBetween_eq_drawUntil`: the three ways to code a range, as one loop over probes;
* `probed_injective`, `exists_probed_eq`, `natAbs_probed_le`, `probed_zero`: the code;
* `eq_some_of_drawUntil`: what is given after a single draw is what that draw stands for;
* `integerBetween_codes`: the theorem.
-/

namespace Falsify

open DrawM

/-! ## Probes -/

/-- The greatest probe that can stand for an integer of the range. -/
def probeLimit (least most : Int64) : UInt64 :=
  if least < 0 ∧ 0 < most then zigzagLimit least most
  else UInt64.ofNat (most.toInt - least.toInt).toNat

/-- The width of the probes for a range. -/
def probeWidth (least most : Int64) : UInt8 :=
  widthOf (probeLimit least most)

/-- What a probe stands for, in the range or not: its distance from the end of the range that is
next to zero, or its code across zero. -/
def probed (least most : Int64) (probe : UInt64) : Int :=
  if 0 ≤ least then least.toInt + probe.toNat
  else if most ≤ 0 then most.toInt - probe.toNat
  else zigzag probe

/-- The integer of the range that a probe stands for, if it does. -/
def decoded (least most : Int64) (probe : UInt64) : Option Int64 :=
  if least.toInt ≤ probed least most probe ∧ probed least most probe ≤ most.toInt then
    some (Int64.ofInt (probed least most probe))
  else none

theorem zigzag_eq (code : UInt64) : zigzag code =
    if code.toNat % 2 = 1 then -(((code.toNat + 1) / 2 : Nat) : Int)
    else ((code.toNat / 2 : Nat) : Int) := by
  have hodd : code % 2 = 1 ↔ code.toNat % 2 = 1 := by
    rw [← UInt64.toNat_inj, UInt64.toNat_mod]
    rfl
  unfold zigzag
  simp only [hodd, Int.ofNat_eq_natCast]

/-- Codes across zero are in the order of magnitude, the negative integer before the positive one.
-/
theorem natAbs_zigzag (code : UInt64) : (zigzag code).natAbs = (code.toNat + 1) / 2 := by
  rw [zigzag_eq]
  split <;> omega

variable {least most : Int64}

theorem probed_injective (least most : Int64) : Function.Injective (probed least most) := by
  intro a b h
  apply UInt64.toNat_inj.1
  unfold probed at h
  split at h
  · omega
  · split at h
    · omega
    · rw [zigzag_eq, zigzag_eq] at h
      split at h <;> split at h <;> omega

theorem natAbs_probed_le {a b : UInt64} (h : a ≤ b) :
    (probed least most a).natAbs ≤ (probed least most b).natAbs := by
  have hab : a.toNat ≤ b.toNat := UInt64.le_iff_toNat_le.1 h
  unfold probed
  split
  · rename_i hleast
    have : 0 ≤ least.toInt := Int64.le_iff_toInt_le.1 hleast
    omega
  · split
    · rename_i hmost
      have : most.toInt ≤ 0 := Int64.le_iff_toInt_le.1 hmost
      omega
    · rw [natAbs_zigzag, natAbs_zigzag]
      omega

theorem probed_zero (least most : Int64) :
    probed least most 0 = (nearestZero least most).toInt := by
  unfold probed nearestZero
  split
  · exact Int.add_zero _
  · split
    · exact Int.sub_zero _
    · rfl

/-- Each integer of the range has a probe. -/
theorem exists_probed_eq {n : Int64} (h₁ : least ≤ n) (h₂ : n ≤ most) :
    ∃ probe, probed least most probe = n.toInt := by
  have hlower := Int64.le_iff_toInt_le.1 h₁
  have hupper := Int64.le_iff_toInt_le.1 h₂
  have hleast := least.le_toInt
  have hmost := most.toInt_lt
  have hoffset (k : Int) (h : 0 ≤ k) (h' : k < 2 ^ 64) : (UInt64.ofNat k.toNat).toNat = k := by
    rw [UInt64.toNat_ofNat_of_lt' (by omega : k.toNat < 2 ^ 64)]
    omega
  unfold probed
  split
  · refine ⟨UInt64.ofNat (n.toInt - least.toInt).toNat, ?_⟩
    rw [hoffset _ (by omega) (by omega)]
    omega
  · split
    · refine ⟨UInt64.ofNat (most.toInt - n.toInt).toNat, ?_⟩
      rw [hoffset _ (by omega) (by omega)]
      omega
    · exact ⟨zigzagCode n, zigzag_zigzagCode n⟩

theorem decoded_eq_some_iff {probe : UInt64} {n : Int64} : decoded least most probe = some n ↔
    (least ≤ n ∧ n ≤ most) ∧ probed least most probe = n.toInt := by
  unfold decoded
  split
  · rename_i h
    have hfits := (FitsInteger.of_between h.1 h.2).toInt_ofInt
    rw [Option.some.injEq]
    constructor
    · rintro rfl
      exact ⟨between_ofInt h.1 h.2, hfits.symm⟩
    · rintro ⟨-, he⟩
      rw [he, Int64.ofInt_toInt]
  · rename_i h
    refine ⟨nofun, fun ⟨⟨h₁, h₂⟩, he⟩ => absurd ?_ h⟩
    rw [he]
    exact ⟨Int64.le_iff_toInt_le.1 h₁, Int64.le_iff_toInt_le.1 h₂⟩

/-! ## The loop -/

/-- A number up to a bound other than zero that is turned into something else. -/
theorem uniform_map {α : Type} {limit : UInt64} (h : limit ≠ 0) (f : UInt64 → α) :
    (uniform limit >>= fun v => pure (f v) : DrawM α) =
      Source.drawUntil (widthOf limit) fun v => if v ≤ limit then some (f v) else none := by
  rw [uniform, if_neg h, ← Source.drawUntil_map]
  congr 1
  funext v
  split <;> rfl

/-- The span of a range fits a word. -/
theorem toNat_span (h : least < most) :
    ((UInt64.ofNat (most.toInt - least.toInt).toNat).toNat : Int) = most.toInt - least.toInt ∧
      UInt64.ofNat (most.toInt - least.toInt).toNat ≠ 0 := by
  have hlt := Int64.lt_iff_toInt_lt.1 h
  have hleast := least.le_toInt
  have hmost := most.toInt_lt
  have hspan : (UInt64.ofNat (most.toInt - least.toInt).toNat).toNat =
      (most.toInt - least.toInt).toNat := Nat.mod_eq_of_lt (by omega)
  refine ⟨by omega, fun h0 => ?_⟩
  rw [h0, UInt64.toNat_zero] at hspan
  omega

/-- A range is drawn in probes, until one stands for an integer of it. The bound that probes across
zero have besides does not turn down any that does. -/
theorem integerBetween_eq_drawUntil (h : least < most) : integerBetween least most =
    Source.drawUntil (probeWidth least most) (decoded least most) := by
  obtain ⟨hspan, hne⟩ := toNat_span h
  unfold integerBetween probeWidth probeLimit
  rw [if_neg (Int64.not_lt.2 (Int64.le_of_lt h))]
  split
  · rename_i hleast
    rw [uniform_map hne, if_neg fun hn => Int64.not_le.2 hn.1 hleast]
    congr 1
    funext probe
    have hiff : probe ≤ UInt64.ofNat (most.toInt - least.toInt).toNat ↔
        least.toInt ≤ least.toInt + probe.toNat ∧ least.toInt + probe.toNat ≤ most.toInt := by
      rw [UInt64.le_iff_toNat_le]
      omega
    simp only [decoded, probed, if_pos hleast, hiff]
  · rename_i hleast
    split
    · rename_i hmost
      rw [uniform_map hne, if_neg fun hn => Int64.not_le.2 hn.2 hmost]
      congr 1
      funext probe
      have hiff : probe ≤ UInt64.ofNat (most.toInt - least.toInt).toNat ↔
          least.toInt ≤ most.toInt - probe.toNat ∧ most.toInt - probe.toNat ≤ most.toInt := by
        rw [UInt64.le_iff_toNat_le]
        omega
      simp only [decoded, probed, if_neg hleast, if_pos hmost, hiff]
    · rename_i hmost
      rw [if_pos ⟨Int64.not_le.1 hleast, Int64.not_le.1 hmost⟩]
      refine congrArg (Source.drawUntil (widthOf _)) (funext fun probe => ?_)
      have hlimit (hin : least.toInt ≤ zigzag probe ∧ zigzag probe ≤ most.toInt) :
          probe ≤ zigzagLimit least most := by
        have hz := zigzag_zigzagCode (Int64.ofInt (zigzag probe))
        have hfits := (FitsInteger.of_between hin.1 hin.2).toInt_ofInt
        rw [hfits] at hz
        have hcode : zigzagCode (Int64.ofInt (zigzag probe)) = probe := by
          apply probed_injective least most
          simpa only [probed, if_neg hleast, if_neg hmost] using hz
        rw [← hcode]
        exact zigzagCode_le (by rw [hfits]; exact hin.1) (by rw [hfits]; exact hin.2)
      simp only [decoded, probed, if_neg hleast, if_neg hmost, and_iff_right_of_imp hlimit]

/-! ## Single draws -/

section Single

variable {α : Type} {width : UInt8} {accept : UInt64 → Option α} {s t : Source} {a : α}

/-- Something is drawn before anything is given. -/
theorem size_lt_of_drawUntil (h : Source.drawUntil width accept s = (.ok a, t)) :
    s.record.size < t.record.size := by
  induction hn : s.maxDraws - s.record.size using Nat.strongRecOn generalizing s with
  | _ n ih =>
    rw [Source.drawUntil] at h
    split at h
    · cases h
    · rename_i v s' hv
      obtain ⟨hb, hd, hr⟩ := Source.bits_ok hv
      split at h
      · cases h
        omega
      · have := ih _ (by omega) h rfl
        omega

/-- What is given after a single draw is what that draw stands for. -/
theorem eq_some_of_drawUntil {d : Draw} (h : Source.drawUntil width accept s = (.ok a, t))
    (hd : t.drawn = s.drawn ++ [d]) : accept d.value = some a := by
  rw [Source.drawUntil_eq_bind] at h
  by_cases hb : s.maxDraws ≤ s.record.size
  · rw [bind_of_error (congrArg Prod.fst (Source.bits_of_full width hb))] at h
    cases h
  · have hv := congrArg Prod.fst (Source.bits_of_room width hb)
    have hs := congrArg Prod.snd (Source.bits_of_room width hb)
    rw [bind_of_ok hv, hs] at h
    rcases ha : accept (Draw.fit width s.nextWord.1).value with _ | a' <;> rw [ha] at h
    · -- The first draw was turned down, so there are two of them on record at least.
      have hlt := size_lt_of_drawUntil h
      have hsize := congrArg List.length hd
      simp only [Source.drawn, Array.length_toList, List.length_append, List.length_singleton]
        at hsize
      rw [Array.size_push] at hlt
      omega
    · cases h
      have hdrawn : s.drawn ++ [Draw.fit width s.nextWord.1] = s.drawn ++ [d] := by
        rw [← hd, Source.drawn, Source.drawn, Array.toList_push]
      rw [← List.singleton_inj.1 (List.append_cancel_left hdrawn)]
      exact ha

end Single

/-! ## The code -/

/-- From the source `s` the integer of the range is `n`, after a single draw, which has the value
`probe` on record. -/
def AtOnce (least most : Int64) (probe : UInt64) (n : Int64) (s : Source) : Prop :=
  ∃ t, integerBetween least most s = (.ok n, t) ∧
    t.drawn = s.drawn ++ [⟨probeWidth least most, probe⟩]

theorem AtOnce.decoded_eq {probe : UInt64} {n : Int64} {s : Source} (h : least < most)
    (hs : AtOnce least most probe n s) : decoded least most probe = some n := by
  obtain ⟨t, ht, hd⟩ := hs
  rw [integerBetween_eq_drawUntil h] at ht
  exact eq_some_of_drawUntil ht hd

/-- A probe that stands for an integer fits its width. -/
theorem wellFormed_probe (h : least < most) {probe : UInt64} {n : Int64}
    (hp : decoded least most probe = some n) :
    Draw.WellFormed ⟨probeWidth least most, probe⟩ := by
  obtain ⟨⟨h₁, h₂⟩, he⟩ := decoded_eq_some_iff.1 hp
  have hlower := Int64.le_iff_toInt_le.1 h₁
  have hupper := Int64.le_iff_toInt_le.1 h₂
  obtain ⟨hspan, -⟩ := toNat_span h
  suffices hlimit : probe ≤ probeLimit least most from wellFormed_widthOf hlimit
  unfold probeLimit
  unfold probed at he
  split
  · rename_i hacross
    rw [if_neg (Int64.not_le.2 hacross.1), if_neg (Int64.not_le.2 hacross.2)] at he
    have hcode : zigzagCode n = probe := by
      apply probed_injective least most
      simp only [probed, if_neg (Int64.not_le.2 hacross.1), if_neg (Int64.not_le.2 hacross.2),
        zigzag_zigzagCode, he]
    exact hcode ▸ zigzagCode_le hlower hupper
  · rename_i hacross
    rw [UInt64.le_iff_toNat_le]
    split at he
    · omega
    · rename_i hleast
      rw [if_pos (Int64.not_lt.1 fun hmost => hacross ⟨Int64.not_le.1 hleast, hmost⟩)] at he
      omega

/-- A source that answers with a probe gives what the probe stands for at once. -/
theorem atOnce_replaying (h : least < most) {probe : UInt64} {n : Int64}
    (hp : decoded least most probe = some n) (width : UInt8) (rest : Draws) (seed : UInt64)
    {maxDraws : Nat} (hroom : 0 < maxDraws) :
    AtOnce least most probe n (.replaying (⟨width, probe⟩ :: rest) seed maxDraws) := by
  let s : Source := .replaying (⟨width, probe⟩ :: rest) seed maxDraws
  have hfit : Draw.fit (probeWidth least most) s.nextWord.1 = ⟨probeWidth least most, probe⟩ :=
    (wellFormed_probe h hp).fit_eq
  have hbits := Source.bits_of_room (s := s) (probeWidth least most) (Nat.not_le.2 hroom)
  rw [hfit] at hbits
  refine ⟨(Source.bits (probeWidth least most) s).2, ?_, ?_⟩
  · rw [integerBetween_eq_drawUntil h, Source.drawUntil_eq_bind,
      bind_of_ok (congrArg Prod.fst hbits), hp]
    rfl
  · rw [hbits, Source.drawn, Array.toList_push]
    rfl

/-- The integers of a range are coded by probes, one for each and in the order of magnitude. -/
structure CodedByMagnitude (least most : Int64) : Prop where
  /-- No sum, difference or conversion on the way overflows. -/
  checked : integerBetweenChecked least most = integerBetween least most
  /-- Whatever is drawn, what is given is in the range. -/
  inRange : ∀ s n t, integerBetween least most s = (.ok n, t) → least ≤ n ∧ n ≤ most
  /-- Each integer of the range has a probe that fits the width which is drawn. A source that
  replays it as its first draw gives the integer after this draw, and no other probe does. -/
  unique : ∀ n, least ≤ n → n ≤ most → ∃ probe : UInt64,
    probe.toNat < 2 ^ (probeWidth least most).toNat ∧
    (∀ width rest seed maxDraws, 0 < maxDraws →
      AtOnce least most probe n (.replaying (⟨width, probe⟩ :: rest) seed maxDraws)) ∧
    ∀ s probe', AtOnce least most probe' n s → probe' = probe
  /-- The probe zero stands for an integer of the range that is nearest to zero. -/
  lowest : ∃ n, (least ≤ n ∧ n ≤ most) ∧
    (∀ m, least ≤ m → m ≤ most → n.toInt.natAbs ≤ m.toInt.natAbs) ∧
    ∀ width rest seed maxDraws, 0 < maxDraws →
      AtOnce least most 0 n (.replaying (⟨width, 0⟩ :: rest) seed maxDraws)
  /-- The integer of a lower probe is no farther from zero than that of a higher one. -/
  ordered : ∀ s₁ s₂ probe₁ probe₂ n₁ n₂, AtOnce least most probe₁ n₁ s₁ →
    AtOnce least most probe₂ n₂ s₂ → probe₁ ≤ probe₂ → n₁.toInt.natAbs ≤ n₂.toInt.natAbs

/-- Every range with more than one member is coded by magnitude. -/
theorem integerBetween_codes (h : least < most) : CodedByMagnitude least most := by
  have hle := Int64.le_of_lt h
  refine ⟨integerBetweenChecked_eq least most, fun s n t hs => ?_, fun n h₁ h₂ => ?_, ?_,
    fun s₁ s₂ probe₁ probe₂ n₁ n₂ hn₁ hn₂ hp => ?_⟩
  · have hin := (ensures_integerBetween (Int64.not_lt.2 hle)).outcome s
    rwa [hs] at hin
  · obtain ⟨probe, he⟩ := exists_probed_eq h₁ h₂
    have hp := decoded_eq_some_iff.2 ⟨⟨h₁, h₂⟩, he⟩
    refine ⟨probe, (wellFormed_probe h hp).2, atOnce_replaying h hp, fun s probe' hs => ?_⟩
    exact probed_injective least most ((decoded_eq_some_iff.1 (hs.decoded_eq h)).2.trans he.symm)
  · obtain ⟨hin, hnearest⟩ := nearestZero_least hle
    exact ⟨_, hin, hnearest,
      atOnce_replaying h (decoded_eq_some_iff.2 ⟨hin, probed_zero least most⟩)⟩
  · rw [← (decoded_eq_some_iff.1 (hn₁.decoded_eq h)).2,
      ← (decoded_eq_some_iff.1 (hn₂.decoded_eq h)).2]
    exact natAbs_probed_le hp

/-- The integers of all signed words, where twice the reach does not fit a word. -/
theorem integerBetween_codes_words :
    Int64.minValue < Int64.maxValue ∧ CodedByMagnitude Int64.minValue Int64.maxValue :=
  ⟨by decide, integerBetween_codes (by decide)⟩

end Falsify
