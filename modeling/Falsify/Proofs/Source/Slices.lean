import Falsify.Proofs.Source.Outcome
import Falsify.Proofs.Source.Reading

/-!
# Slices of a record

What a computation draws between two positions of the record is its slice. If a computation does
nothing but draw, its value depends on its slice alone: at any other position, and with any budget
that has room for it, the slice gives the same value and is recorded again (`rereads_of_keeps`). The
two runs are compared by a simulation (`Simulation.shifted`).

* `DrawM.Rereads`: computations whose values can be read again from what they recorded;
* `DrawM.Takes`: a value read from a code that is used up, whatever is recorded for it.
-/

namespace Falsify

open DrawM

namespace Source

variable {s t : Source} {code : Draws}

/-- What is not recorded does not count. -/
theorem Advances.congr {t' : Source} (h : s.Advances code t) (hr : t'.record = t.record)
    (hf : t'.forced = t.forced) (hm : t'.maxDraws = t.maxDraws) : s.Advances code t' :=
  ⟨(congrArg Array.toList hr).trans h.drawn, hf.trans h.forced, hm.trans h.maxDraws⟩

/-- What is recorded after the start of an advance is its code. -/
theorem Advances.drawn_drop (h : s.Advances code t) : t.drawn.drop s.record.size = code := by
  rw [h.drawn]
  exact List.drop_left' Array.length_toList

end Source

/-! ## The same draws at another position -/

namespace Simulation

/-- The first run has come from `start` and the second from `start'`, and they have recorded the
same draws on their ways, the first one within its budget. It is to end within `final`. -/
def shifted (start start' : Source) (final : Draws) : Simulation where
  rel s s' := ∃ code, start.Advances code s ∧ start'.Advances code s' ∧
    (code = [] ∨ s.record.size ≤ s.maxDraws)
  within s := s.drawn <+: final
  exempt e := e.Overrun

variable {start' s s' : Source} {slice : Draws}

/-- What the first run draws next is what is offered to the second one. -/
theorem offers_of_shifted {start : Source} (ho : start'.Offers slice) {code : Draws} {d : Draw}
    (hs : start.Advances code s) (hs' : start'.Advances code s')
    (hw : (s.record.push d).toList <+: start.drawn ++ slice) : ∃ rest, s'.Offers (d :: rest) := by
  rw [Array.toList_push, ← Source.drawn, hs.drawn, List.append_assoc,
    List.prefix_append_right_inj] at hw
  obtain ⟨rest, hrest⟩ := hw
  rw [List.append_assoc, List.singleton_append] at hrest
  exact ⟨rest, (hrest ▸ ho).right hs'⟩

theorem room_of_push (h : ¬ s.maxDraws ≤ s.record.size) (d : Draw) :
    (s.record.push d).size ≤ s.maxDraws := by
  rw [Array.size_push]
  omega

/-- Single draws keep this relation, because the draw that is offered was cut already. -/
theorem shifted_lawful (start : Source) (ho : start'.Offers slice) :
    (shifted start start' (start.drawn ++ slice)).Lawful where
  bits width s := by
    by_cases hb : s.maxDraws ≤ s.record.size
    · refine ⟨by rw [Source.bits_of_full width hb]; exact id, fun s' _ _ => ?_⟩
      rw [Source.bits_of_full width hb]
      exact .inl ⟨_, rfl, _, rfl⟩
    · refine ⟨by rw [Source.bits_of_room width hb]; exact Source.prefix_of_push, ?_⟩
      rintro s' ⟨code, hs, hs', -⟩ hw
      rw [Source.bits_of_room width hb] at hw ⊢
      obtain ⟨rest, hrest⟩ := offers_of_shifted ho hs hs' hw
      rw [Source.bits_of_room width hrest.has_room, hrest.nextWord, Draw.fit_value_fit]
      exact .inr ⟨rfl, _, hs.trans (.push s _ _), hs'.trans (.push s' _ _),
        .inr (room_of_push hb _)⟩
  write value s := by
    by_cases hb : s.maxDraws ≤ s.record.size
    · refine ⟨by rw [Source.write_of_full value hb]; exact id, fun s' _ _ => ?_⟩
      rw [Source.write_of_full value hb]
      exact .inl ⟨_, rfl, _, rfl⟩
    · refine ⟨by rw [Source.write_of_room value hb]; exact Source.prefix_of_push, ?_⟩
      rintro s' ⟨code, hs, hs', -⟩ hw
      rw [Source.write_of_room value hb] at hw ⊢
      obtain ⟨rest, hrest⟩ := offers_of_shifted ho hs hs' hw
      rw [Source.write_of_room value hrest.has_room]
      exact .inr ⟨rfl, _, hs.trans (.push s s.stream _), hs'.trans (.push s' s'.stream _),
        .inr (room_of_push hb _)⟩
  count name satisfied s := by
    refine ⟨id, ?_⟩
    rintro s' ⟨code, hs, hs', hroom⟩ -
    exact .inr ⟨rfl, code, hs.congr rfl rfl rfl, hs'.congr rfl rfl rfl, hroom⟩
  sleep nanos s := by
    refine ⟨id, ?_⟩
    rintro s' ⟨code, hs, hs', hroom⟩ -
    exact .inr ⟨rfl, code, hs.congr rfl rfl rfl, hs'.congr rfl rfl rfl, hroom⟩

end Simulation

namespace DrawM

variable {α β : Type} {x : DrawM α} {f : α → DrawM β} {code code' : Draws} {a : α} {b : β}

/-- Whenever the computation gives a value, it has kept to the budget, and what it recorded is a
code of the value. -/
def Rereads (x : DrawM α) : Prop :=
  ∀ ⦃s t : Source⦄ ⦃a : α⦄, x s = (.ok a, t) → ∃ slice, s.Advances slice t ∧
    (slice = [] ∨ t.record.size ≤ t.maxDraws) ∧ Reads x slice a

/-- A computation that keeps every relation that the single draws keep depends on its slice
alone. -/
theorem rereads_of_keeps (h : ∀ m : Simulation, m.Lawful → m.Keeps x) : Rereads x := by
  intro s t a hx
  have hgrown : s.drawn <+: t.drawn := by
    have ho : (Source.replaying t.drawn 0 t.drawn.length).Offers t.drawn :=
      Source.offers_replaying 0 (Nat.le_refl _)
    refine (h _ (Simulation.shifted_lawful (.fresh 0 0) ho) s).back ?_
    rw [hx]
    exact List.prefix_refl _
  obtain ⟨slice, hslice⟩ := hgrown
  have hfollow (s' : Source) (ho : s'.Offers slice) : s.Advances slice t ∧
      (slice = [] ∨ t.record.size ≤ t.maxDraws) ∧
        ∃ t', x s' = (.ok a, t') ∧ s'.Advances slice t' := by
    have hfollow := (h _ (Simulation.shifted_lawful s ho) s).follow s'
      ⟨[], .nil rfl rfl rfl, .nil rfl rfl rfl, .inl rfl⟩
    rw [hx, hslice] at hfollow
    rcases hfollow (List.prefix_refl _) with ⟨e, he, -⟩ | ⟨hv, code, hc, hc', hroom⟩
    · cases he
    · obtain rfl : code = slice := List.append_cancel_left (hc.drawn.symm.trans hslice.symm)
      exact ⟨hc, hroom, (x s').2, Prod.ext hv rfl, hc'⟩
  obtain ⟨hadvance, hroom, -⟩ := hfollow (.replaying slice 0 slice.length)
    (Source.offers_replaying 0 (Nat.le_refl _))
  exact ⟨slice, hadvance, hroom, fun s' ho => (hfollow s' ho).2.2⟩

/-- Whenever the code comes next, the computation gives the value and records as many draws as the
code has. -/
def Takes (x : DrawM α) (code : Draws) (a : α) : Prop :=
  ∀ s : Source, s.Offers code →
    ∃ t recorded, x s = (.ok a, t) ∧ s.Advances recorded t ∧ recorded.length = code.length

theorem Reads.takes (h : Reads x code a) : Takes x code a := fun s ho =>
  let ⟨t, hx, ha⟩ := h s ho
  ⟨t, code, hx, ha, rfl⟩

theorem Takes.bind (hx : Takes x code a) (hf : Takes (f a) code' b) :
    Takes (x >>= f) (code ++ code') b := by
  intro s ho
  obtain ⟨t, recorded, ht, ha, hl⟩ := hx s ho.left
  obtain ⟨u, recorded', hu, ha', hl'⟩ := hf t (ho.right_of_length ha hl)
  refine ⟨u, recorded ++ recorded', ?_, ha.trans ha', by simp [hl, hl']⟩
  rw [bind_of_ok (congrArg Prod.fst ht), congrArg Prod.snd ht]
  exact hu

theorem Takes.map {g : α → β} (hx : Takes x code a) (hg : g a = b) :
    Takes (x >>= fun a => Pure.pure (g a)) code b := by
  have h : Takes (x >>= fun a => Pure.pure (g a)) (code ++ []) (g a) :=
    hx.bind (Reads.pure (g a)).takes
  rwa [List.append_nil, hg] at h

end DrawM

/-- Whatever comes next, a written draw takes its place. -/
theorem takes_write (value : UInt64) (d : Draw) : Takes (Source.write value) [d] () := fun s ho =>
  ⟨_, [Source.written value], Source.write_of_room value ho.has_room, .push s s.stream _, rfl⟩

/-- Whole words are not cut. -/
theorem Draw.fit_word (value : UInt64) : Draw.fit 64 value = ⟨64, value⟩ :=
  have hwf : Draw.WellFormed ⟨64, value⟩ := ⟨UInt8.le_refl 64, value.toNat_lt⟩
  hwf.fit_eq

theorem takes_bits (d : Draw) : Takes (Source.bits 64) [d] d.value := fun s ho => by
  refine ⟨_, [Draw.fit 64 d.value], ?_, .push s s.stream _, rfl⟩
  rw [Source.bits_of_room 64 ho.has_room, ho.nextWord, Draw.fit_word]

end Falsify
