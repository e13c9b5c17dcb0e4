import Falsify.Proofs.Strategy.Composition
import Falsify.Property.Body

/-!
# Replay is exact

A case that is run on the draws that another case recorded is that case again. The
two runs are compared by a simulation (`replaying`) that knows the record with which the
first run will end: the second source answers the values of that record by position,
so it hands out the same words as long as the first run stays within it.

* `replaying_lawful`: single draws keep this relation, because cutting a word to a
  width twice is the same as cutting it once;
* `Body.run_follows`: so do whole bodies, by induction on the tree of their steps;
* `Body.run_replaying`: the law.
-/

namespace Falsify

namespace Simulation

/-- The second run draws from what the first one recorded in the end, and both have come equally
far. -/
def replaying (final : Draws) : Simulation where
  rel s t := t.record = s.record ∧ t.maxDraws = s.maxDraws ∧ t.predicates = s.predicates ∧
    t.asleep = s.asleep ∧ final.values <+: Draws.values t.forced.toList
  within s := s.drawn <+: final
  exempt _ := False

/-- The next forced draw of a source that answers a record has the value that comes next in it. -/
theorem forced_of_prefix {record final forced : Draws} {d : Draw} (hr : record ++ [d] <+: final)
    (hf : final.values <+: forced.values) :
    ∃ e, forced[record.length]? = some e ∧ e.value = d.value := by
  have h := List.prefix_iff_getElem?.1 ((hr.map Draw.value).trans hf) record.length (by simp)
  simpa [Draws.values] using h

theorem replaying_lawful (final : Draws) : (replaying final).Lawful where
  bits width s := by
    by_cases hb : s.maxDraws ≤ s.record.size
    · refine ⟨by rw [Source.bits_of_full width hb]; exact id, ?_⟩
      rintro t ⟨hr, hm, hp, ha, hf⟩ -
      rw [Source.bits_of_full width hb, Source.bits_of_full width (by rwa [hr, hm]), hm]
      exact .inr ⟨rfl, hr, hm, hp, ha, hf⟩
    · refine ⟨by rw [Source.bits_of_room width hb]; exact Source.prefix_of_push, ?_⟩
      rintro t ⟨hr, hm, hp, ha, hf⟩ hw
      rw [Source.bits_of_room width hb] at hw ⊢
      rw [Source.bits_of_room width (by rwa [hr, hm])]
      -- The second run is still answered by position, with a value that was cut already.
      obtain ⟨e, he, hv⟩ := forced_of_prefix (by simpa [replaying, Source.drawn] using hw) hf
      have hn : t.nextWord.1 = (Draw.fit width s.nextWord.1).value := by
        rw [← hv, Source.nextWord, hr]
        rw [Array.length_toList, Array.getElem?_toList] at he
        rw [he]
      rw [hn, Draw.fit_value_fit, hr]
      exact .inr ⟨rfl, rfl, hm, hp, ha, hf⟩
  write value s := by
    by_cases hb : s.maxDraws ≤ s.record.size
    · refine ⟨by rw [Source.write_of_full value hb]; exact id, ?_⟩
      rintro t ⟨hr, hm, hp, ha, hf⟩ -
      rw [Source.write_of_full value hb, Source.write_of_full value (by rwa [hr, hm]), hm]
      exact .inr ⟨rfl, hr, hm, hp, ha, hf⟩
    · refine ⟨by rw [Source.write_of_room value hb]; exact Source.prefix_of_push, ?_⟩
      rintro t ⟨hr, hm, hp, ha, hf⟩ -
      rw [Source.write_of_room value hb, Source.write_of_room value (by rwa [hr, hm])]
      exact .inr ⟨rfl, by rw [hr], hm, hp, ha, hf⟩
  count name satisfied s := by
    refine ⟨id, ?_⟩
    rintro t ⟨hr, hm, hp, ha, hf⟩ -
    exact .inr ⟨rfl, hr, hm, by simp only [Source.recordPredicate, hp], ha, hf⟩
  sleep nanos s := by
    refine ⟨id, ?_⟩
    rintro t ⟨hr, hm, hp, ha, hf⟩ -
    exact .inr ⟨rfl, hr, hm, hp, by simp only [ha], hf⟩

end Simulation

/-! ## Bodies -/

namespace CaseState

/-- Two cases have come equally far, and the second one draws from what the first one recorded in
the end. -/
structure Follows (final : Draws) (s t : CaseState) : Prop where
  source : (Simulation.replaying final).rel s.source t.source
  attempts : t.attempts = s.attempts
  arguments : t.arguments = s.arguments
  notes : t.notes = s.notes
  features : t.features = s.features

variable {final : Draws} {s t : CaseState}

/-- A case draws with the time taken out. -/
theorem draw_eq (s : CaseState) (strategy : Strategy) :
    (s.draw strategy).1 = (strategy.generate s.attempts s.source).1 ∧
      (s.draw strategy).2.source =
        { (strategy.generate s.attempts s.source).2 with asleep := 0 } ∧
      (s.draw strategy).2.attempts = s.attempts ∧
      (s.draw strategy).2.arguments = s.arguments ∧
      (s.draw strategy).2.notes = s.notes ∧
      (s.draw strategy).2.features = s.features ∧
      (s.draw strategy).2.interrupted = s.interrupted := by
  rcases hc : s.clock.read with ⟨_, _⟩
  rcases hg : strategy.generate s.attempts s.source with ⟨(_ | _) | _, _⟩ <;>
    simp [draw, generate, hc, hg]

theorem within_of_draw (strategy : Strategy)
    (h : (s.draw strategy).2.source.drawn <+: final) : s.source.drawn <+: final := by
  rw [(draw_eq s strategy).2.1] at h
  exact (Simulation.keeps_generate (Simulation.replaying_lawful final) s.attempts strategy _).back h

theorem Follows.draw (h : s.Follows final t) (strategy : Strategy)
    (hw : (s.draw strategy).2.source.drawn <+: final) :
    (t.draw strategy).1 = (s.draw strategy).1 ∧
      (s.draw strategy).2.Follows final (t.draw strategy).2 := by
  obtain ⟨hs, hs₁, hs₂, hs₃, hs₄, hs₅, -⟩ := draw_eq s strategy
  obtain ⟨ht, ht₁, ht₂, ht₃, ht₄, ht₅, -⟩ := draw_eq t strategy
  have hk := Simulation.keeps_generate (Simulation.replaying_lawful final) s.attempts strategy
  rw [hs₁] at hw
  rcases (hk s.source).follow _ h.source hw with ⟨_, _, hf⟩ | ⟨he, hr, hm, hp, -, hf⟩
  · exact hf.elim
  · rw [← h.attempts] at he hr hm hp hf
    refine ⟨by rw [hs, ht, he, h.attempts], ?_, ht₂.trans (h.attempts.trans hs₂.symm),
      ht₃.trans (h.arguments.trans hs₃.symm), ht₄.trans (h.notes.trans hs₄.symm),
      ht₅.trans (h.features.trans hs₅.symm)⟩
    rw [hs₁, ht₁, ← h.attempts]
    exact ⟨hr, hm, hp, rfl, hf⟩

/-- Whatever the first of two cases draws from, and whatever the time. -/
theorem follows_start (front replayed : Draws) (seed seed' : UInt64) (maxDraws attempts : Nat)
    (clock clock' : Clock) (interrupted interrupted' : Bool)
    (h : final.values <+: replayed.values) :
    (start (.replaying front seed maxDraws) attempts clock interrupted).Follows final
      (start (.replaying replayed seed' maxDraws) attempts clock' interrupted') where
  source := by
    simpa only [Simulation.replaying, start, Source.replaying, List.toList_toArray, true_and] using h
  attempts := by simp only [start]
  arguments := by simp only [start]
  notes := by simp only [start]
  features := by simp only [start]

theorem Follows.argue (h : s.Follows final t) (name : Option String) (value : Value) :
    (s.argue name value).Follows final (t.argue name value) where
  source := h.source
  attempts := h.attempts
  arguments := by simp only [CaseState.argue, numbered, h.arguments]
  notes := h.notes
  features := h.features

theorem Follows.mark (h : s.Follows final t) (name value : String) :
    (s.mark name value).Follows final (t.mark name value) where
  source := h.source
  attempts := h.attempts
  arguments := h.arguments
  notes := h.notes
  features := by simp only [CaseState.mark, h.features]

end CaseState

namespace Body

variable {α : Type} {final : Draws}

/-- One step of a body that draws. -/
theorem run_draw (name : Option String) (strategy : Strategy)
    (next : Except DrawError Value → Body α) (s : CaseState) :
    (Body.draw name strategy next).run s =
      match (s.draw strategy).1 with
      | .error (.crashed c) => (.crashed c, (s.draw strategy).2)
      | .error (.failed e) => (next (.error e)).run (s.draw strategy).2
      | .ok value => (next (.ok value)).run ((s.draw strategy).2.argue name value) := by
  rw [run]
  rcases s.draw strategy with ⟨(_ | _) | _, _⟩ <;> rfl

/-- A body that ends within a sequence was within it all along: by induction on the body. -/
theorem within_of_run (body : Body α) (s : CaseState)
    (h : (body.run s).2.source.drawn <+: final) : s.source.drawn <+: final := by
  induction body generalizing s with
  | done _ => exact h
  | crash _ => exact h
  | draw name strategy next ih =>
    refine CaseState.within_of_draw strategy ?_
    rw [run_draw] at h
    split at h
    · exact h
    · exact ih _ _ h
    · exact (ih _ _ h :)
  | drawCount next ih => exact ih _ _ h
  | note _ next ih => exact (ih { s with notes := _ } h :)
  | event name value next ih => exact (ih (s.mark name value) h :)
  | sleep _ next ih => exact (ih { s with clock := _ } h :)
  | interrupt next ih => exact (ih { s with interrupted := true } h :)

/-- A case that draws from what another one recorded goes on as that one does: by induction on the
body. -/
theorem run_follows (body : Body α) {s t : CaseState} (h : s.Follows final t)
    (hw : (body.run s).2.source.drawn <+: final) :
    (body.run t).1 = (body.run s).1 ∧ (body.run s).2.Follows final (body.run t).2 := by
  induction body generalizing s t with
  | done _ => exact ⟨rfl, h⟩
  | crash _ => exact ⟨rfl, h⟩
  | draw name strategy next ih =>
    -- The draw itself ends within the sequence, since all that follows does.
    have hd : (s.draw strategy).2.source.drawn <+: final := by
      rw [run_draw] at hw
      split at hw
      · exact hw
      · exact within_of_run _ _ hw
      · exact (within_of_run _ _ hw :)
    obtain ⟨h₁, h₂⟩ := h.draw strategy hd
    rw [run_draw] at hw ⊢
    rw [run_draw, h₁]
    split at hw
    · exact ⟨rfl, h₂⟩
    · exact ih _ h₂ hw
    · exact ih _ (h₂.argue _ _) hw
  | drawCount next ih =>
    have hc : t.source.drawCount = s.source.drawCount := by
      rw [Source.drawCount, h.source.1, Source.drawCount]
    rw [run, hc]
    exact ih _ h hw
  | note text next ih =>
    exact ih ⟨h.source, h.attempts, h.arguments, by simp only [h.notes], h.features⟩ hw
  | event name value next ih => exact ih (h.mark name value) hw
  | sleep _ next ih => exact ih ⟨h.source, h.attempts, h.arguments, h.notes, h.features⟩ hw
  | interrupt next ih => exact ih ⟨h.source, h.attempts, h.arguments, h.notes, h.features⟩ hw

/-- Replay is exact: a body that is run on the values that another run recorded, whatever their
widths and whatever comes after them, ends as that run ended and leaves behind what it left. -/
theorem run_replaying (body : Body α) (front replayed : Draws) (seed seed' : UInt64)
    (maxDraws attempts : Nat) (clock clock' : Clock) (interrupted interrupted' : Bool) :
    let first := body.run (.start (.replaying front seed maxDraws) attempts clock interrupted)
    let second :=
      body.run (.start (.replaying replayed seed' maxDraws) attempts clock' interrupted')
    first.2.source.drawn.values <+: replayed.values →
      second.1 = first.1 ∧
        second.2.source.drawn = first.2.source.drawn ∧
        second.2.arguments = first.2.arguments ∧
        second.2.notes = first.2.notes ∧
        second.2.features = first.2.features ∧
        second.2.source.predicates = first.2.source.predicates := by
  intro first second h
  obtain ⟨he, hf⟩ := body.run_follows
    (CaseState.follows_start front replayed seed seed' maxDraws attempts clock clock' interrupted
      interrupted' h) (List.prefix_refl _)
  exact ⟨he, congrArg Array.toList hf.source.1, hf.arguments, hf.notes, hf.features,
    hf.source.2.2.1⟩

/-- A body that draws twice, and catches the error of the second draw. -/
def catching : Body String :=
  .draw (some "first") .booleans fun _ => .draw none .booleans fun
    | .ok _ => .done "drawn"
    | .error e => .note e.message (.done "caught")

theorem run_replaying_catching :
    let first := catching.run (.start (.replaying [⟨1, 1⟩] 0 1) 10 (.start fun _ => 0) false)
    let second := catching.run (.start (.replaying [⟨8, 1⟩, ⟨8, 7⟩] 5 1) 10 (.start id) true)
    first.2.source.drawn.values <+: Draws.values [⟨8, 1⟩, ⟨8, 7⟩] ∧
      second.2.source.drawn = [⟨1, 1⟩] ∧
      second.2.notes = #["draw budget of 1 draws exhausted"] := by
  have h : (catching.run (.start (.replaying [⟨1, 1⟩] 0 1) 10 (.start fun _ => 0)
      false)).2.source.drawn.values <+: Draws.values [⟨8, 1⟩, ⟨8, 7⟩] := by decide +kernel
  obtain ⟨-, hd, -, hn, -⟩ := run_replaying catching _ _ 0 5 1 10 _ (.start id) false true h
  exact ⟨h, hd.trans (by decide +kernel), hn.trans (by decide +kernel)⟩

end Body

end Falsify
