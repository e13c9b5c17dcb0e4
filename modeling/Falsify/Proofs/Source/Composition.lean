import Falsify.Random.BitLength

/-!
# Computations composed of draws

All that is drawn goes through `Source.bits` and `Source.write`, and every loop and choice is
composed of these two. So a property of runs that single draws have, and that the parts of a
computation hand on to the whole, is a property of all of them (`DrawM.Composable`):

* `DrawM.bind_of_ok`, `DrawM.bind_of_error`: one computation after another;
* `Source.drawUntil_eq_bind`, `Growth.repeatWhile_eq_bind`: the two loops, unrolled once;
* `Composable.drawUntil`, `Composable.repeatWhile`: the loops, by induction on the budget and on
  the room that is left for elements;
* `Composable.uniform`, `Composable.coin`, `Composable.integerBetween`, `Composable.sample`: the
  choices.
-/

namespace Falsify

/-- The budget was used up. -/
def Stop.Overrun (e : Stop) : Prop :=
  ∃ limit, e = .failed (.overrun limit)

namespace DrawM

variable {α β : Type} {x : DrawM α} {f : α → DrawM β} {s : Source}

theorem bind_of_ok {a : α} (h : (x s).1 = .ok a) : (x >>= f) s = f a (x s).2 := by
  rw [bind_apply]
  rcases hx : x s with ⟨_ | _, s'⟩ <;> rw [hx] at h <;> cases h
  rfl

theorem bind_of_error {e : Stop} (h : (x s).1 = .error e) : (x >>= f) s = (.error e, (x s).2) := by
  rw [bind_apply]
  rcases hx : x s with ⟨_ | _, s'⟩ <;> rw [hx] at h <;> cases h
  rfl

end DrawM

/-! ## Elementary steps -/

/-- Cutting a word to a width once is enough. -/
theorem Draw.fit_value_fit (width : UInt8) (value : UInt64) :
    Draw.fit width (Draw.fit width value).value = Draw.fit width value := by
  simp [Draw.fit, UInt64.and_assoc]

namespace Source

variable {s : Source}

theorem bits_of_full (width : UInt8) (h : s.maxDraws ≤ s.record.size) :
    bits width s = (.error (.failed (.overrun s.maxDraws)), s) :=
  if_pos h

theorem bits_of_room (width : UInt8) (h : ¬ s.maxDraws ≤ s.record.size) :
    bits width s = (.ok (Draw.fit width s.nextWord.1).value,
      { s with stream := s.nextWord.2, record := s.record.push (Draw.fit width s.nextWord.1) }) :=
  if_neg h

theorem write_of_full (value : UInt64) (h : s.maxDraws ≤ s.record.size) :
    write value s = (.error (.failed (.overrun s.maxDraws)), s) :=
  if_pos h

/-- The draw that is recorded for a written value. -/
def written (value : UInt64) : Draw :=
  Draw.fit (UInt8.ofNat (max 1 (bitLength value.toNat))) value

theorem write_of_room (value : UInt64) (h : ¬ s.maxDraws ≤ s.record.size) :
    write value s = (.ok (), { s with record := s.record.push (written value) }) :=
  if_neg h

/-- A record with a draw more is within what it was within before. -/
theorem prefix_of_push {d : Draw} {final : Draws}
    (h : (s.record.push d).toList <+: final) : s.drawn <+: final := by
  rw [Array.toList_push] at h
  exact (List.prefix_append _ _).trans h

end Source

/-! ## Loops unrolled once -/

theorem Source.drawUntil_eq_bind {α : Type} (width : UInt8) (accept : UInt64 → Option α) :
    Source.drawUntil width accept = (Source.bits width >>= fun v =>
      match accept v with
      | some a => pure a
      | none => Source.drawUntil width accept : DrawM α) := by
  funext s
  rw [Source.drawUntil, DrawM.bind_apply]
  rcases h : Source.bits width s with ⟨_ | v, s'⟩
  · rfl
  · rcases ha : accept v with _ | a <;> simp only [ha]
    rfl

theorem Growth.repeatWhile_eq_bind {α : Type} (element : DrawM α) (g : Growth) :
    g.repeatWhile element = (g.step >>= fun
      | false => pure []
      | true => element >>= fun a => g.more.repeatWhile element >>= fun rest => pure (a :: rest)
      : DrawM (List α)) := by
  funext s
  rw [Growth.repeatWhile, DrawM.bind_apply]
  rcases h : g.step s with ⟨_ | more, s'⟩
  · rfl
  · cases more with
    | false => rfl
    | true =>
      simp only [DrawM.bind_apply]
      rcases element s' with ⟨_ | a, s'⟩
      · rfl
      · simp only
        rcases repeatWhile element g.more s' with ⟨_ | _, _⟩ <;> rfl

namespace DrawM

/-- A property of runs, each a computation and the source it starts from, that the elementary steps
have, and that a computation has if its first part has it and what follows has it where the first
part ends. Only draws overrun a budget, so nothing is asked of a computation that says it did
without drawing. -/
structure Composable (P : ∀ {α : Type}, DrawM α → Source → Prop) : Prop where
  pure {α : Type} (a : α) (s : Source) : P (pure a) s
  throw {α : Type} (e : Stop) (he : ¬ e.Overrun) (s : Source) : P (throw e : DrawM α) s
  bits (width : UInt8) (s : Source) : P (Source.bits width) s
  write (value : UInt64) (s : Source) : P (Source.write value) s
  count (name : String) (satisfied : Bool) (s : Source) :
    P (fun s => (.ok (), s.recordPredicate name satisfied)) s
  sleep (nanos : Nat) (s : Source) : P (fun s => (.ok (), { s with asleep := s.asleep + nanos })) s
  bind {α β : Type} {x : DrawM α} {f : α → DrawM β} {s : Source} (hx : P x s)
    (hf : ∀ a, (x s).1 = .ok a → P (f a) (x s).2) : P (x >>= f) s

namespace Composable

variable {P : ∀ {α : Type}, DrawM α → Source → Prop} {α β : Type}

theorem map (h : Composable P) {x : DrawM α} {g : α → β} {s : Source} (hx : P x s) :
    P (x >>= fun a => Pure.pure (g a)) s :=
  h.bind hx fun _ _ => h.pure _ _

/-! ## Loops -/

/-- Drawing until a word is accepted: by induction on the budget. -/
theorem drawUntil (h : Composable P) (width : UInt8) (accept : UInt64 → Option α) (s : Source) :
    P (Source.drawUntil width accept) s := by
  induction hn : s.maxDraws - s.record.size using Nat.strongRecOn generalizing s with
  | _ n ih =>
    rw [Source.drawUntil_eq_bind]
    refine h.bind (h.bits width s) fun v hv => ?_
    split
    · exact h.pure _ _
    · have hs : Source.bits width s = (.ok v, (Source.bits width s).2) := Prod.ext hv rfl
      obtain ⟨hb, hd, hr⟩ := Source.bits_ok hs
      exact ih _ (by omega) _ rfl

theorem coin (h : Composable P) (p : Float) (s : Source) : P (coin p) s := by
  unfold Falsify.coin
  split
  · exact h.map (h.write 0 s)
  · split
    · exact h.map (h.write 1 s)
    · exact h.map (h.bits 64 s)

theorem step (h : Composable P) (g : Growth) (s : Source) : P g.step s := by
  unfold Growth.step
  split
  · exact h.pure _ _
  · split
    · exact h.map (h.write 1 s)
    · split
      · exact h.map (h.write 0 s)
      · exact h.coin _ s

/-- A list, if its elements have the property: by induction on the room that is left for them. -/
theorem repeatWhile (h : Composable P) {element : DrawM α} (he : ∀ s, P element s) (g : Growth)
    (s : Source) : P (g.repeatWhile element) s := by
  induction hn : g.room using Nat.strongRecOn generalizing g s with
  | _ n ih =>
    rw [Growth.repeatWhile_eq_bind]
    refine h.bind (h.step g s) fun goOn hg => ?_
    cases goOn with
    | false => exact h.pure _ _
    | true =>
      have := Growth.step_true_count_lt (Prod.ext hg rfl)
      refine h.bind (he _) fun a _ => h.map (ih _ ?_ g.more _ rfl)
      simp only [← hn, Growth.room, Growth.more]
      omega

/-! ## Choices -/

theorem uniform (h : Composable P) (most : UInt64) (s : Source) : P (uniform most) s := by
  unfold Falsify.uniform
  split
  · exact h.map (h.write 0 s)
  · exact h.drawUntil _ _ s

theorem integerBetween (h : Composable P) (least most : Int64) (s : Source) :
    P (integerBetween least most) s := by
  unfold Falsify.integerBetween
  split
  · exact h.throw _ (by rintro ⟨_, ⟨⟩⟩) s
  · split
    · exact h.map (h.uniform _ s)
    · split
      · exact h.map (h.uniform _ s)
      · exact h.drawUntil _ _ s

theorem sample (h : Composable P) (table : AliasTable) (s : Source) : P table.sample s := by
  unfold AliasTable.sample
  refine h.bind (h.uniform _ s) fun i _ => ?_
  split
  · exact h.pure _ _
  · refine h.bind (h.coin _ _) fun second _ => ?_
    split <;> exact h.pure _ _

theorem integerOfLengths (h : Composable P) (lengths : AliasTable) (s : Source) :
    P (integerOfLengths lengths) s :=
  h.bind (h.sample lengths s) fun _ _ => h.bind (h.bits _ _) fun _ _ => h.map (h.bits 1 _)

end Composable

end DrawM

end Falsify
