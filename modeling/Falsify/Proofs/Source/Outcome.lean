import Falsify.Proofs.Source.Simulation

/-!
# What computations end with

A computation that draws may start from any source: a forced draw can be any word, of any
width, and what comes after the forced draws as well. `DrawM.Ensures` says what holds of the
value it then gives, and of the reason if it stops:

* `Ensures.bind`: one computation after another;
* `DrawM.bind_congr`: what follows a computation only matters on the values it can give;
* `ensures_drawUntil`, `ensures_repeatWhile`: the two loops, by induction on the budget
  and on the room that is left for elements;
* `ensures_bits`, `ensures_uniform`, `ensures_coin`: the choices, which stop only when
  the budget is used up.
-/

namespace Falsify

namespace DrawM

variable {α β : Type}

/-- Run from any source, a computation gives a value that satisfies `post`, or stops for a reason
that satisfies `stop`. -/
structure Ensures (x : DrawM α) (post : α → Prop) (stop : Stop → Prop) : Prop where
  outcome : ∀ s,
    match (x s).1 with
    | .ok a => post a
    | .error e => stop e

variable {x : DrawM α} {f g : α → DrawM β} {post post' : α → Prop} {stop stop' : Stop → Prop}

theorem Ensures.pure {a : α} (h : post a) : Ensures (pure a) post stop := ⟨fun _ => h⟩

theorem Ensures.throw {e : Stop} (h : stop e) : Ensures (throw e) post stop := ⟨fun _ => h⟩

theorem Ensures.mono (h : Ensures x post stop) (hp : ∀ a, post a → post' a)
    (hs : ∀ e, stop e → stop' e) : Ensures x post' stop' := by
  refine ⟨fun s => ?_⟩
  have h := h.outcome s
  rcases hr : (x s).1 with e | a <;> rw [hr] at h
  · exact hs e h
  · exact hp a h

theorem Ensures.gives (h : Ensures x post stop) (hp : ∀ a, post a → post' a) :
    Ensures x post' stop :=
  h.mono hp fun _ => id

theorem Ensures.stops (h : Ensures x post stop) (hs : ∀ e, stop e → stop' e) :
    Ensures x post stop' :=
  h.mono (fun _ => id) hs

theorem Ensures.bind {post₂ : β → Prop} (hx : Ensures x post stop)
    (hf : ∀ a, post a → Ensures (f a) post₂ stop) : Ensures (x >>= f) post₂ stop := by
  refine ⟨fun s => ?_⟩
  have h := hx.outcome s
  rcases hs : (x s).1 with e | a <;> rw [hs] at h
  · rw [bind_of_error hs]
    exact h
  · rw [bind_of_ok hs]
    exact (hf a h).outcome _

/-- What follows a computation may be replaced by what agrees with it on the values that the
computation can give. -/
theorem bind_congr (hx : Ensures x post stop) (h : ∀ a, post a → f a = g a) :
    x >>= f = x >>= g := by
  funext s
  have hs := hx.outcome s
  rcases hr : (x s).1 with e | a <;> rw [hr] at hs
  · rw [bind_of_error hr, bind_of_error hr]
  · rw [bind_of_ok hr, bind_of_ok hr, h a hs]

end DrawM

open DrawM

variable {α β : Type} {stop : Stop → Prop}

theorem ensures_bits (width : UInt8) :
    Ensures (Source.bits width) (fun v => v.toNat < 2 ^ width.toNat) Stop.Overrun := by
  refine ⟨fun s => ?_⟩
  by_cases hb : s.maxDraws ≤ s.record.size
  · rw [Source.bits_of_full width hb]
    exact ⟨_, rfl⟩
  · rw [Source.bits_of_room width hb]
    obtain ⟨-, hv⟩ := Draw.fit_wellFormed width s.nextWord.1
    refine Nat.lt_of_lt_of_le hv (Nat.pow_le_pow_right (by decide) ?_)
    unfold Draw.fit
    split
    · exact Nat.le_refl _
    · rename_i hw
      exact Nat.le_of_lt (Nat.lt_of_not_le fun h => hw (UInt8.le_iff_toNat_le.2 h))

theorem ensures_write (value : UInt64) :
    Ensures (Source.write value) (fun _ => True) Stop.Overrun := by
  refine ⟨fun s => ?_⟩
  by_cases hb : s.maxDraws ≤ s.record.size
  · rw [Source.write_of_full value hb]
    exact ⟨_, rfl⟩
  · rw [Source.write_of_room value hb]
    trivial

/-- What is drawn until it is accepted was accepted: by induction on the budget. -/
theorem ensures_drawUntil (width : UInt8) (accept : UInt64 → Option α) :
    Ensures (Source.drawUntil width accept) (fun a => ∃ v, accept v = some a) Stop.Overrun := by
  refine ⟨fun s => ?_⟩
  induction hn : s.maxDraws - s.record.size using Nat.strongRecOn generalizing s with
  | _ n ih =>
    have hbits := (ensures_bits width).outcome s
    rw [Source.drawUntil_eq_bind]
    rcases hv : (Source.bits width s).1 with e | v <;> rw [hv] at hbits
    · rw [bind_of_error hv]
      exact hbits
    · rw [bind_of_ok hv]
      rcases ha : accept v with _ | a
      · have hs : Source.bits width s = (.ok v, (Source.bits width s).2) := Prod.ext hv rfl
        obtain ⟨hb, hd, hr⟩ := Source.bits_ok hs
        exact ih _ (by omega) _ rfl
      · exact ⟨v, ha⟩

theorem ensures_uniform (most : UInt64) : Ensures (uniform most) (· ≤ most) Stop.Overrun := by
  unfold uniform
  split
  · exact (ensures_write 0).bind fun _ _ => .pure (UInt64.zero_le)
  · refine (ensures_drawUntil _ _).gives ?_
    rintro a ⟨v, hv⟩
    split at hv
    · cases hv
      assumption
    · cases hv

theorem ensures_coin (p : Float) : Ensures (coin p) (fun _ => True) Stop.Overrun := by
  unfold coin
  split
  · exact (ensures_write 0).bind fun _ _ => .pure trivial
  · split
    · exact (ensures_write 1).bind fun _ _ => .pure trivial
    · exact (ensures_bits 64).bind fun _ _ => .pure trivial

/-! ## Growth -/

/-- A collection goes on only below its upper bound, and ends only at its lower one or above. -/
theorem ensures_step (g : Growth) (hg : g.least ≤ g.most) :
    Ensures g.step (fun more => if more then g.count < g.most else g.least ≤ g.count)
      Stop.Overrun := by
  unfold Growth.step
  split
  · refine .pure ?_
    by_cases h : g.count < g.most <;> simp [h]
    omega
  · split
    · exact (ensures_write 1).bind fun _ _ => .pure (by simp; omega)
    · split
      · exact (ensures_write 0).bind fun _ _ => .pure (by simp; omega)
      · refine (ensures_coin _).gives fun more _ => ?_
        cases more <;> simp <;> omega

/-- A list has an allowed length and elements as they come: by induction on the room that is left
for them. -/
theorem ensures_repeatWhile {element : DrawM α} {post : α → Prop} (he : Ensures element post stop)
    (hs : ∀ e, Stop.Overrun e → stop e) (g : Growth) (hg : g.least ≤ g.most)
    (hc : g.count ≤ g.most) :
    Ensures (g.repeatWhile element)
      (fun items => g.least ≤ g.count + items.length ∧ g.count + items.length ≤ g.most ∧
        ∀ a ∈ items, post a) stop := by
  induction hn : g.room using Nat.strongRecOn generalizing g with
  | _ n ih =>
    rw [Growth.repeatWhile_eq_bind]
    refine ((ensures_step g hg).stops hs).bind fun more hmore => ?_
    cases more with
    | false => exact .pure ⟨by simpa using hmore, by simpa using hc, by simp⟩
    | true =>
      have hlt : g.count < g.most := by simpa using hmore
      have hroom : g.more.room < n := by
        rw [← hn]
        simp only [Growth.room, Growth.more]
        omega
      refine he.bind fun a ha => (ih _ hroom g.more hg hlt rfl).bind fun rest hrest => .pure ?_
      obtain ⟨h₁, h₂, h₃⟩ := hrest
      simp only [Growth.more] at h₁ h₂
      refine ⟨by simp only [List.length_cons]; omega, by simp only [List.length_cons]; omega, ?_⟩
      simpa using ⟨ha, h₃⟩

end Falsify
