import Falsify.Proofs.Source.Decisions
import Falsify.Random.BitLength

/-!
# Sources of zeros

The lowest sequence of draws has the value zero in each of them. From a source whose forced draws
are all zero and last as long as its budget (`Source.Zeros`), a computation has one value, or it
runs out of the budget (`DrawM.Settles`). Written draws take up a forced one like any other, so the
source stays one of zeros.

* `Settles.bind`: one computation after another;
* `settles_bits`, `settles_drawUntil`, `settles_coin`: zero is drawn, taken if it is accepted, and
  turns no coin up;
* `settles_uniform`, `settles_integerBetween`, `settles_integerOfLengths`: the integer next to zero
  (`nearestZero`);
* `settles_repeatWhile`: as few elements as there may be.
-/

namespace Falsify

open DrawM

namespace Source

/-- All forced draws are zero, and there are as many as there may be draws. -/
structure Zeros (s : Source) : Prop where
  zero : ∀ d ∈ s.forced, d.value = 0
  lasts : s.maxDraws ≤ s.forced.size

variable {s : Source}

theorem zeros_replaying {zeros : Draws} (hz : ∀ d ∈ zeros, d.value = 0) (seed : UInt64)
    {maxDraws : Nat} (h : maxDraws ≤ zeros.length) : (replaying zeros seed maxDraws).Zeros :=
  ⟨fun d hd => hz d (by simpa [replaying] using hd), by simpa [replaying] using h⟩

theorem Zeros.nextWord (h : s.Zeros) (hb : ¬ s.maxDraws ≤ s.record.size) :
    s.nextWord = (0, s.stream) := by
  have hlt : s.record.size < s.forced.size := Nat.lt_of_lt_of_le (Nat.lt_of_not_le hb) h.lasts
  simp only [Source.nextWord, Array.getElem?_eq_getElem hlt, h.zero _ (Array.getElem_mem hlt)]

end Source

theorem Draw.fit_zero (width : UInt8) : (Draw.fit width 0).value = 0 :=
  UInt64.zero_and

namespace DrawM

variable {α β : Type} {x : DrawM α} {f : α → DrawM β} {a : α} {b : β}

/-- From every source of zeros, the computation gives the value and leaves such a source of the same
budget, or the budget is used up. -/
def Settles (x : DrawM α) (a : α) : Prop :=
  ∀ s : Source, s.Zeros →
    (∃ t, x s = (.ok a, t) ∧ t.Zeros ∧ t.maxDraws = s.maxDraws) ∨
      (x s).1 = .error (.failed (.overrun s.maxDraws))

theorem Settles.pure (a : α) : Settles (pure a) a := fun s hs =>
  .inl ⟨s, rfl, hs, rfl⟩

theorem Settles.bind (hx : Settles x a) (hf : Settles (f a) b) : Settles (x >>= f) b := by
  intro s hs
  rcases hx s hs with ⟨t, ht, hzeros, hbudget⟩ | he
  · rw [bind_of_ok (congrArg Prod.fst ht), ht, ← hbudget]
    exact hf t hzeros
  · exact .inr (congrArg Prod.fst (bind_of_error he))

theorem Settles.map {g : α → β} (hx : Settles x a) (hg : g a = b) :
    Settles (x >>= fun a => Pure.pure (g a)) b :=
  hx.bind (hg ▸ .pure (g a))

end DrawM

/-! ## Choices -/

theorem settles_bits (width : UInt8) : Settles (Source.bits width) 0 := by
  intro s hs
  by_cases hb : s.maxDraws ≤ s.record.size
  · exact .inr (congrArg Prod.fst (Source.bits_of_full width hb))
  · have hvalue : (Draw.fit width s.nextWord.1).value = 0 := by rw [hs.nextWord hb, Draw.fit_zero]
    exact .inl ⟨_, (Source.bits_of_room width hb).trans (Prod.ext (congrArg Except.ok hvalue) rfl),
      ⟨hs.zero, hs.lasts⟩, rfl⟩

theorem settles_write (value : UInt64) : Settles (Source.write value) () := by
  intro s hs
  by_cases hb : s.maxDraws ≤ s.record.size
  · exact .inr (congrArg Prod.fst (Source.write_of_full value hb))
  · exact .inl ⟨_, Source.write_of_room value hb, ⟨hs.zero, hs.lasts⟩, rfl⟩

theorem settles_drawUntil {α : Type} {accept : UInt64 → Option α} {a : α} (width : UInt8)
    (h : accept 0 = some a) : Settles (Source.drawUntil width accept) a := by
  rw [Source.drawUntil_eq_bind]
  refine (settles_bits width).bind ?_
  rw [h]
  exact .pure a

theorem settles_uniform (most : UInt64) : Settles (uniform most) 0 := by
  unfold uniform
  split
  · exact (settles_write 0).map rfl
  · exact settles_drawUntil _ (if_pos UInt64.zero_le)

/-- The integer of a range whose magnitude is least. -/
def nearestZero (least most : Int64) : Int64 :=
  if 0 ≤ least then least else if most ≤ 0 then most else 0

/-- It is in the range, and no integer of the range is nearer to zero. -/
theorem nearestZero_least {least most : Int64} (h : least ≤ most) :
    (least ≤ nearestZero least most ∧ nearestZero least most ≤ most) ∧
      ∀ n, least ≤ n → n ≤ most →
        (nearestZero least most).toInt.natAbs ≤ n.toInt.natAbs := by
  unfold nearestZero
  split
  · rename_i hleast
    refine ⟨⟨Int64.le_refl _, h⟩, fun n h₁ _ => ?_⟩
    have := Int64.le_iff_toInt_le.1 h₁
    have : 0 ≤ least.toInt := Int64.le_iff_toInt_le.1 hleast
    omega
  · split
    · rename_i hmost
      refine ⟨⟨h, Int64.le_refl _⟩, fun n _ h₂ => ?_⟩
      have := Int64.le_iff_toInt_le.1 h₂
      have : most.toInt ≤ 0 := Int64.le_iff_toInt_le.1 hmost
      omega
    · rename_i hleast hmost
      have hlower := Int64.le_of_lt (Int64.not_le.1 hleast)
      exact ⟨⟨hlower, Int64.le_of_lt (Int64.not_le.1 hmost)⟩, fun _ _ _ => Nat.zero_le _⟩

theorem settles_integerBetween {least most : Int64} (h : least ≤ most) :
    Settles (integerBetween least most) (nearestZero least most) := by
  unfold integerBetween nearestZero
  rw [if_neg (Int64.not_lt.2 h)]
  split
  · exact (settles_uniform _).map (by simp)
  · split
    · exact (settles_uniform _).map (by simp)
    · rename_i hleast hmost
      have hlower := Int64.le_iff_toInt_le.1 (Int64.le_of_lt (Int64.not_le.1 hleast))
      have hupper := Int64.le_iff_toInt_le.1 (Int64.le_of_lt (Int64.not_le.1 hmost))
      exact settles_drawUntil _ (if_pos ⟨UInt64.zero_le, hlower, hupper⟩)

/-- A coin that is not certain to come up true comes up false. -/
theorem settles_coin {p : Float} (h : ¬ p ≥ 1.0) : Settles (coin p) false := by
  unfold coin
  split
  · exact (settles_write 0).map rfl
  · exact (settles_bits 64).map (shows_zero p)

theorem settles_coin_any (p : Float) : ∃ b, Settles (coin p) b := by
  by_cases h : p ≥ 1.0
  · unfold coin
    split
    · exact ⟨false, (settles_write 0).map rfl⟩
    · exact ⟨true, (settles_write 1).map rfl⟩
  · exact ⟨false, settles_coin h⟩

/-- The alternative is one of the first slot, or the table has no slot. -/
theorem AliasTable.settles_sample (table : AliasTable) : ∃ i, Settles table.sample i := by
  refine Exists.imp (fun i hi => (settles_uniform _).bind hi) ?_
  split
  · exact ⟨0, .pure 0⟩
  · rename_i slot _
    obtain ⟨b, hb⟩ := settles_coin_any slot.chance
    cases b with
    | false => exact ⟨_, hb.bind (.pure slot.primary)⟩
    | true => exact ⟨_, hb.bind (.pure slot.alternate)⟩

/-- Whatever length is chosen, the magnitude is zero. -/
theorem settles_integerOfLengths (lengths : AliasTable) : Settles (integerOfLengths lengths) 0 := by
  obtain ⟨i, hi⟩ := lengths.settles_sample
  exact hi.bind ((settles_bits _).bind ((settles_bits 1).map rfl))

/-! ## Growth -/

theorem settles_step {g : Growth} (hp : g.least < g.most → ¬ g.goOn ≥ 1.0)
    (hle : g.least ≤ g.most) : Settles g.step (decide (g.count < g.least)) := by
  unfold Growth.step
  split
  · rename_i hfixed
    rw [hfixed]
    exact .pure _
  · split
    · rename_i hbelow
      rw [decide_eq_true hbelow]
      exact (settles_write 1).map rfl
    · rename_i hbelow
      rw [decide_eq_false hbelow]
      split
      · exact (settles_write 0).map rfl
      · exact settles_coin (hp (by omega))

/-- A collection gets as many elements as it needs. -/
theorem settles_repeatWhile {α : Type} {element : DrawM α} {a : α} {g : Growth} {n : Nat}
    (hp : g.least < g.most → ¬ g.goOn ≥ 1.0) (hle : g.least ≤ g.most) (hn : g.count + n = g.least)
    (ha : 0 < n → Settles element a) : Settles (g.repeatWhile element) (List.replicate n a) := by
  induction n generalizing g with
  | zero =>
    rw [Growth.repeatWhile_eq_bind]
    refine (settles_step hp hle).bind ?_
    rw [decide_eq_false (by omega)]
    exact .pure []
  | succ n ih =>
    have hmore : g.more.count + n = g.more.least := by
      simp only [Growth.more]
      omega
    have hrest := ih (g := g.more) hp hle hmore fun _ => ha (Nat.succ_pos n)
    rw [Growth.repeatWhile_eq_bind]
    refine (settles_step hp hle).bind ?_
    rw [decide_eq_true (by omega)]
    exact (ha (Nat.succ_pos n)).bind (hrest.map List.replicate_succ.symm)

end Falsify
