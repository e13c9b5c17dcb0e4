import Falsify.Proofs.Source.Slices

/-!
# Decisions of a growth

A collection whose size is not fixed decides on each element by one draw, and on the end by one more
(`oneDraw_step`). What a draw decides depends on how far the collection has come: below its lower
bound and at its upper one the draw is written, and in between its word turns up a coin.

* `Growth.Decides`: what a recorded draw tells of the decision;
* `takes_step`: a draw that tells so much makes the decision again;
* `Growth.Decides.earlier`: also one element earlier.
-/

namespace Falsify

open DrawM

/-! ## Single draws -/

namespace DrawM

variable {α β : Type} {x : DrawM α}

/-- Whenever the computation gives a value, it has made one draw, within the budget, to which the
value stands as it should. -/
def OneDraw (x : DrawM α) (post : Draw → α → Prop) : Prop :=
  ∀ ⦃s t : Source⦄ ⦃a : α⦄, x s = (.ok a, t) →
    s.record.size < s.maxDraws ∧ ∃ d, post d a ∧ s.Advances [d] t

theorem OneDraw.map {post : Draw → α → Prop} {post' : Draw → β → Prop} {g : α → β}
    (hx : OneDraw x post) (hg : ∀ d a, post d a → post' d (g a)) :
    OneDraw (x >>= fun a => pure (g a)) post' := by
  intro s t b h
  rcases hs : x s with ⟨e | a, s'⟩
  · rw [bind_of_error (congrArg Prod.fst hs)] at h
    cases h
  · rw [bind_of_ok (congrArg Prod.fst hs), hs] at h
    cases h
    obtain ⟨hroom, d, hd, ha⟩ := hx hs
    exact ⟨hroom, d, hg d a hd, ha⟩

end DrawM

theorem oneDraw_bits (width : UInt8) : OneDraw (Source.bits width) fun d v => v = d.value := by
  intro s t v h
  by_cases hb : s.maxDraws ≤ s.record.size
  · rw [Source.bits_of_full width hb] at h
    cases h
  · rw [Source.bits_of_room width hb] at h
    cases h
    exact ⟨Nat.lt_of_not_le hb, _, rfl, .push s _ _⟩

theorem oneDraw_write (value : UInt64) :
    OneDraw (Source.write value) fun d _ => d = Source.written value := by
  intro s t _ h
  by_cases hb : s.maxDraws ≤ s.record.size
  · rw [Source.write_of_full value hb] at h
    cases h
  · rw [Source.write_of_room value hb] at h
    cases h
    exact ⟨Nat.lt_of_not_le hb, _, rfl, .push s s.stream _⟩

/-! ## Coins -/

section Floats

open Float.Model (UnpackedFloat)

/-- Comparing in the other order gives the other answer, and no answer if one is no number. -/
theorem compare_swap (x y : UnpackedFloat) : y.compare x = (x.compare y).map Ordering.swap := by
  -- Of two finite numbers of one sign, exponents are compared first, then mantissas.
  have hfinite (e e' : Int) (m m' : Nat) :
      (compare e' e).then (compare m' m) = ((compare e e').then (compare m m')).swap := by
    rw [Ordering.swap_then, Int.compare_swap, Nat.compare_swap]
  rcases x with s | _ | s | ⟨s, m, e, hm⟩ <;> rcases y with s' | _ | s' | ⟨s', m', e', hm'⟩ <;>
    (try cases s) <;> (try cases s') <;> try rfl
  case finite.finite.negative.negative =>
    exact congrArg (fun order => some order.swap) (hfinite e e' m m')
  case finite.finite.positive.positive => exact congrArg some (hfinite e e' m m')

theorem not_le_of_lt {x y : Float} (h : x < y) : ¬ y ≤ x := by
  intro hle
  have h : x.toModel.unpack.lt y.toModel.unpack := of_decide_eq_true h
  have hle : y.toModel.unpack.le x.toModel.unpack := of_decide_eq_true hle
  rw [UnpackedFloat.lt, beq_iff_eq] at h
  rw [UnpackedFloat.le, compare_swap, h] at hle
  cases hle

/-- Nothing is at most what is no number. -/
theorem not_le_of_isNaN {x y : Float} (h : y.isNaN = true) : ¬ x ≤ y := by
  intro hle
  have h : y.toModel.unpack.isNaN = true := h
  have hle : x.toModel.unpack.le y.toModel.unpack := of_decide_eq_true hle
  rcases hy : y.toModel.unpack with _ | _ | _ | _ <;> rw [hy] at h
  case notANumber =>
    rw [UnpackedFloat.le, compare_swap, hy] at hle
    cases hle
  all_goals cases h

end Floats

/-- A coin of this probability is drawn, and not written. -/
structure Uncertain (p : Float) : Prop where
  positive : ¬ p ≤ 0.0
  proper : ¬ p ≥ 1.0

theorem Uncertain.of_between {p : Float} (h₀ : 0.0 < p) (h₁ : p < 1.0) : Uncertain p :=
  ⟨not_le_of_lt h₀, not_le_of_lt h₁⟩

/-- The word turns a coin of this probability up true. -/
def shows (p : Float) (word : UInt64) : Bool :=
  word > 0xFFFFFFFFFFFFFFFF - coinThreshold p

theorem shows_zero (p : Float) : shows p 0 = false :=
  decide_eq_false (UInt64.not_lt.2 UInt64.zero_le)

theorem coin_of_uncertain {p : Float} (h : Uncertain p) :
    coin p = Source.bits 64 >>= fun probe => (pure (shows p probe) : DrawM Bool) := by
  rw [coin, if_neg h.positive, if_neg h.proper]
  rfl

theorem oneDraw_coin (p : Float) :
    OneDraw (coin p) fun d b => Uncertain p → shows p d.value = b := by
  unfold coin
  split
  · exact (oneDraw_write 0).map fun _ _ _ hp => absurd ‹_› hp.positive
  · split
    · exact (oneDraw_write 1).map fun _ _ _ hp => absurd ‹_› hp.proper
    · exact (oneDraw_bits 64).map fun d v hv _ => by rw [hv]; rfl

/-! ## Decisions -/

namespace Growth

variable {g : Growth} {d : Draw} {more : Bool}

/-- The draw was recorded for this decision, or might have been as far as the decision goes. -/
structure Decides (g : Growth) (d : Draw) (more : Bool) : Prop where
  upper : more = true → g.count < g.most
  lower : more = false → g.least ≤ g.count
  shown : Uncertain g.goOn → g.least ≤ g.count → shows g.goOn d.value = more

/-- What decides on an element decides as well on the one before it, unless that one is needed. -/
theorem Decides.earlier (h : g.more.Decides d more) (hl : more = false → g.least ≤ g.count) :
    g.Decides d more where
  upper hm := Nat.lt_of_succ_lt (h.upper hm)
  lower := hl
  shown hp hc := h.shown hp (Nat.le_succ_of_le hc)

theorem oneDraw_step (hg : g.least < g.most) : OneDraw g.step g.Decides := by
  unfold step
  split
  · omega
  · split
    · exact (oneDraw_write 1).map fun _ _ _ => ⟨by omega, nofun, by omega⟩
    · split
      · refine (oneDraw_write 0).map fun d _ hd => ⟨nofun, by omega, fun _ _ => ?_⟩
        rw [hd]
        exact shows_zero _
      · intro s t b h
        obtain ⟨hroom, d, hd, ha⟩ := oneDraw_coin _ h
        exact ⟨hroom, d, ⟨by omega, by omega, fun hp _ => hd hp⟩, ha⟩

theorem takes_step (hg : g.least < g.most) (hp : Uncertain g.goOn) (hd : g.Decides d more) :
    Takes g.step [d] more := by
  unfold step
  split
  · omega
  · split
    · cases more with
      | false => have := hd.lower rfl; omega
      | true => exact (takes_write 1 d).map rfl
    · split
      · cases more with
        | false => exact (takes_write 0 d).map rfl
        | true => have := hd.upper rfl; omega
      · rw [coin_of_uncertain hp]
        exact (takes_bits d).map (hd.shown hp (by omega))

/-! ## Runs -/

variable {α : Type} {element : DrawM α} {s t : Source}

theorem repeatWhile_stop (hs : g.step s = (.ok false, t)) :
    g.repeatWhile element s = (.ok [], t) := by
  rw [repeatWhile_eq_bind, bind_of_ok (congrArg Prod.fst hs), hs]
  rfl

theorem repeatWhile_turn {s₁ s₂ : Source} {a : α} {rest : List α}
    (hs : g.step s = (.ok true, s₁)) (ha : element s₁ = (.ok a, s₂))
    (hr : g.more.repeatWhile element s₂ = (.ok rest, t)) :
    g.repeatWhile element s = (.ok (a :: rest), t) := by
  rw [repeatWhile_eq_bind, bind_of_ok (congrArg Prod.fst hs), hs]
  dsimp only
  rw [bind_of_ok (congrArg Prod.fst ha), ha, bind_of_ok (congrArg Prod.fst hr), hr]
  rfl

/-- A growth that comes to an end has stopped at once or made a turn: a decision to go on, and an
element. -/
theorem repeatWhile_eq_ok {items : List α} (h : g.repeatWhile element s = (.ok items, t)) :
    items = [] ∧ g.step s = (.ok false, t) ∨
      ∃ s₁ a s₂ rest, items = a :: rest ∧ g.step s = (.ok true, s₁) ∧ element s₁ = (.ok a, s₂) ∧
        g.more.repeatWhile element s₂ = (.ok rest, t) := by
  rw [repeatWhile_eq_bind, bind_apply] at h
  rcases hs : g.step s with ⟨e | more, s₁⟩ <;> rw [hs] at h
  · cases h
  · cases more with
    | false =>
      cases h
      exact .inl ⟨rfl, rfl⟩
    | true =>
      simp only [bind_apply] at h
      rcases he : element s₁ with ⟨e | a, s₂⟩ <;> rw [he] at h
      · cases h
      · simp only at h
        rcases hr : g.more.repeatWhile element s₂ with ⟨e | rest, s₃⟩ <;> rw [hr] at h
        · cases h
        · cases h
          exact .inr ⟨s₁, a, s₂, rest, rfl, rfl, he, hr⟩

end Growth

end Falsify
