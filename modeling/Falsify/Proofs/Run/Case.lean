import Falsify.Proofs.Property.Replay
import Falsify.Run.Execute

/-!
# What a body makes of a sequence

Executed without a deadline, a body makes of a sequence a case that depends on nothing but
the sequence, the seed of what comes after it and the limits on draws: not on the clock,
not on who asks the run to stop, and not on the cases before. That case is its
`Body.result`.

* `Property.Plays`: each call of the property plays the same body, time aside;
* `Body.run_untimed`: time leaves no trace in what a body draws and leaves behind;
* `outcomeOf_of_tenable`: under a deadline that can be relaxed every execution has an outcome;
* `Body.result_replay`: what a case recorded makes that case again, with any seed;
* `Body.result_wellFormed`: the draws of a case are well formed.
-/

namespace Falsify

/-! ## Draws are well formed -/

namespace Simulation

/-- One run, whose record is well formed. -/
def wellFormed : Simulation where
  rel s t := t = s ∧ s.drawn.WellFormed
  within _ := True
  exempt _ := False

theorem wellFormed_push {s : Source} {d : Draw} (hs : s.drawn.WellFormed) (hd : d.WellFormed) :
    Draws.WellFormed (s.record.push d).toList := by
  intro e he
  rw [Array.toList_push] at he
  rcases List.mem_append.1 he with he | he
  · exact hs e he
  · exact List.mem_singleton.1 he ▸ hd

theorem wellFormed_lawful : wellFormed.Lawful where
  bits width s := by
    refine ⟨id, ?_⟩
    rintro t ⟨rfl, h⟩ -
    refine .inr ⟨rfl, rfl, ?_⟩
    by_cases hb : t.maxDraws ≤ t.record.size
    · rw [Source.bits_of_full width hb]
      exact h
    · rw [Source.bits_of_room width hb]
      exact wellFormed_push h (Draw.fit_wellFormed _ _)
  write value s := by
    refine ⟨id, ?_⟩
    rintro t ⟨rfl, h⟩ -
    refine .inr ⟨rfl, rfl, ?_⟩
    by_cases hb : t.maxDraws ≤ t.record.size
    · rw [Source.write_of_full value hb]
      exact h
    · rw [Source.write_of_room value hb]
      exact wellFormed_push h (Draw.fit_wellFormed _ _)
  count name satisfied s := ⟨id, fun _ h _ => .inr ⟨by rw [h.1], by rw [h.1], h.2⟩⟩
  sleep nanos s := ⟨id, fun _ h _ => .inr ⟨by rw [h.1], by rw [h.1], h.2⟩⟩

end Simulation

theorem CaseState.wellFormed_draw (s : CaseState) (strategy : Strategy)
    (h : s.source.drawn.WellFormed) : (s.draw strategy).2.source.drawn.WellFormed := by
  have hk := Simulation.keeps_generate Simulation.wellFormed_lawful s.attempts strategy s.source
  rw [(draw_eq s strategy).2.1]
  rcases hk.follow _ ⟨rfl, h⟩ trivial with ⟨_, _, hf⟩ | ⟨_, _, hw⟩
  · exact hf.elim
  · exact hw

namespace Body

variable {α : Type}

/-- All draws that a body records are well formed: by induction on the body. -/
theorem wellFormed_run (body : Body α) (s : CaseState) (h : s.source.drawn.WellFormed) :
    (body.run s).2.source.drawn.WellFormed := by
  induction body generalizing s with
  | done _ => exact h
  | crash _ => exact h
  | draw name strategy next ih =>
    have hd := s.wellFormed_draw strategy h
    rw [run_draw]
    split
    · exact hd
    · exact ih _ _ hd
    · exact ih _ _ hd
  | drawCount next ih => exact ih _ _ h
  | note _ next ih => exact ih _ h
  | event _ _ next ih => exact ih _ h
  | sleep _ next ih => exact ih _ h
  | interrupt next ih => exact ih _ h

/-! ## Time leaves no trace -/

/-- A body without the steps that have to do with time: it does not sleep, and it does not ask the
run to stop. -/
def untimed : Body α → Body α
  | .done a => .done a
  | .crash c => .crash c
  | .draw name strategy next => .draw name strategy fun answer => (next answer).untimed
  | .drawCount next => .drawCount fun n => (next n).untimed
  | .note text next => .note text next.untimed
  | .event name value next => .event name value next.untimed
  | .sleep _ next => next.untimed
  | .interrupt next => next.untimed

end Body

/-- Every call of the property plays the same body, time aside. -/
def Property.Plays (property : Property) (body : Body (Except CaseError Unit)) : Prop :=
  ∀ history, (property history).untimed = body

namespace CaseState

/-- Two cases that differ at most in their times, and in whether somebody asked to stop. -/
structure Alike (s t : CaseState) : Prop where
  source : t.source = s.source
  attempts : t.attempts = s.attempts
  arguments : t.arguments = s.arguments
  notes : t.notes = s.notes
  features : t.features = s.features

variable {s t : CaseState}

theorem Alike.draw (h : s.Alike t) (strategy : Strategy) :
    (t.draw strategy).1 = (s.draw strategy).1 ∧ (s.draw strategy).2.Alike (t.draw strategy).2 := by
  obtain ⟨hs, hs₁, hs₂, hs₃, hs₄, hs₅, -⟩ := draw_eq s strategy
  obtain ⟨ht, ht₁, ht₂, ht₃, ht₄, ht₅, -⟩ := draw_eq t strategy
  rw [h.source, h.attempts] at ht ht₁
  exact ⟨ht.trans hs.symm, ht₁.trans hs₁.symm, ht₂.trans (h.attempts.trans hs₂.symm),
    ht₃.trans (h.arguments.trans hs₃.symm), ht₄.trans (h.notes.trans hs₄.symm),
    ht₅.trans (h.features.trans hs₅.symm)⟩

theorem Alike.argue (h : s.Alike t) (name : Option String) (value : Value) :
    (s.argue name value).Alike (t.argue name value) where
  source := h.source
  attempts := h.attempts
  arguments := by simp only [CaseState.argue, numbered, h.arguments]
  notes := h.notes
  features := h.features

theorem Alike.mark (h : s.Alike t) (name value : String) :
    (s.mark name value).Alike (t.mark name value) where
  source := h.source
  attempts := h.attempts
  arguments := h.arguments
  notes := h.notes
  features := by simp only [CaseState.mark, h.features]

end CaseState

namespace Body

variable {α : Type}

/-- A body and what is left of it without time draw the same and leave the same behind: by induction
on the body. -/
theorem run_untimed (body : Body α) {s t : CaseState} (h : s.Alike t) :
    (body.untimed.run t).1 = (body.run s).1 ∧ (body.run s).2.Alike (body.untimed.run t).2 := by
  induction body generalizing s t with
  | done _ => exact ⟨rfl, h⟩
  | crash _ => exact ⟨rfl, h⟩
  | draw name strategy next ih =>
    obtain ⟨h₁, h₂⟩ := h.draw strategy
    rw [untimed, run_draw, run_draw, h₁]
    split
    · exact ⟨rfl, h₂⟩
    · exact ih _ h₂
    · exact ih _ (h₂.argue _ _)
  | drawCount next ih =>
    rw [untimed, run, run, h.source]
    exact ih _ h
  | note text next ih =>
    exact ih ⟨h.source, h.attempts, h.arguments, by simp only [h.notes], h.features⟩
  | event name value next ih => exact ih (h.mark name value)
  | sleep _ next ih => exact ih ⟨h.source, h.attempts, h.arguments, h.notes, h.features⟩
  | interrupt next ih => exact ih ⟨h.source, h.attempts, h.arguments, h.notes, h.features⟩

end Body

/-! ## Deadlines -/

namespace Deadline

variable {d d' : Deadline}

/-- The deadline can be relaxed: five times it is a span of time. -/
def Tenable (d : Deadline) : Prop :=
  ∀ deadline ∈ d.deadline, (deadline.times? 5).isSome

instance (d : Deadline) : Decidable d.Tenable :=
  inferInstanceAs (Decidable (∀ deadline ∈ d.deadline, (deadline.times? 5).isSome))

theorem Tenable.congr (h : d.Tenable) (hd : d'.deadline = d.deadline) : d'.Tenable :=
  fun deadline hm => h deadline (hd ▸ hm)

theorem tenable_of_none (h : d.deadline = none) : d.Tenable := by
  intro deadline hm
  rw [h] at hm
  cases hm

/-- There is a bound in every mode, by cases on the mode. -/
theorem bound_of_tenable (h : d.Tenable) : ∃ bound, d.bound = .ok bound := by
  obtain ⟨_ | deadline, mode⟩ := d
  · cases mode <;> exact ⟨_, rfl⟩
  · obtain ⟨five, hf⟩ := Option.isSome_iff_exists.1 (h deadline rfl)
    cases mode
    · exact ⟨_, rfl⟩
    · exact ⟨some ⟨five.nanos / 4⟩, by rw [bound]; dsimp only; rw [hf]⟩
    · exact ⟨_, rfl⟩

theorem check_of_tenable (h : d.Tenable) (execution : Duration) :
    ∃ reason, d.check execution = .ok reason := by
  obtain ⟨bound, hb⟩ := bound_of_tenable h
  rw [check, hb]
  rcases bound with _ | bound
  · exact ⟨none, rfl⟩
  · rcases d.deadline with _ | deadline <;> exact ⟨_, rfl⟩

end Deadline

/-! ## Results -/

/-- The outcome of a body's end if it may take as long as it likes. -/
def Ending.outcome : Ending (Except CaseError Unit) → Outcome
  | .returned (.ok ()) => .passed
  | .returned (.error (.failed message)) => .failed (.body message)
  | .returned (.error (.draw e)) => .gaveUp (.ofDrawError e)
  | .crashed c => .failed (.body c.message)

theorem outcomeOf_of_no_deadline {d : Deadline} (h : d.deadline = none) (execution : Duration)
    (ending : Ending (Except CaseError Unit)) : outcomeOf d execution ending = .ok ending.outcome := by
  have hc : d.check execution = .ok none := by
    obtain ⟨_, mode⟩ := d
    cases h
    cases mode <;> rfl
  rcases ending with (⟨_ | _⟩ | ⟨_⟩) | _
  · rfl
  · rfl
  · rw [outcomeOf, hc]
    rfl
  · rfl

/-- Under a deadline that can be relaxed every end of a body has an outcome. -/
theorem outcomeOf_of_tenable {d : Deadline} (h : d.Tenable) (execution : Duration)
    (ending : Ending (Except CaseError Unit)) :
    ∃ outcome, outcomeOf d execution ending = .ok outcome := by
  obtain ⟨reason, hc⟩ := Deadline.check_of_tenable h execution
  rcases ending with (⟨_ | _⟩ | ⟨_⟩) | _
  · exact ⟨_, rfl⟩
  · exact ⟨_, rfl⟩
  · rw [outcomeOf, hc]
    rcases reason with _ | reason <;> exact ⟨_, rfl⟩
  · exact ⟨_, rfl⟩

/-- A failure that is no matter of time is the body's own. -/
theorem Ending.failure_body {ending : Ending (Except CaseError Unit)} {reason : FailureReason}
    (h : ending.outcome = .failed reason) : ∃ message, reason = .body message := by
  rcases ending with (⟨_ | message⟩ | ⟨_⟩) | c <;> cases h
  · exact ⟨message, rfl⟩
  · exact ⟨c.message, rfl⟩

/-- A case without what says how long it took and what it was executed for. -/
def Case.timeless (c : Case) : Case :=
  { c with timing := ⟨.zero, .zero⟩, source := .generated }

/-- Time aside, a case is what the body drew and left behind. -/
theorem CaseState.timeless_toCase {s t : CaseState} {e e' : Ending (Except CaseError Unit)}
    {execution execution' : Duration} {source source' : CaseSource} (he : e' = e)
    (hr : t.source.record = s.source.record) (hp : t.source.predicates = s.source.predicates)
    (ha : t.arguments = s.arguments) (hn : t.notes = s.notes) (hf : t.features = s.features) :
    (t.toCase e'.outcome execution' source' e'.crashMessage?).timeless =
      (s.toCase e.outcome execution source e.crashMessage?).timeless := by
  subst he
  simp only [toCase, Case.timeless, Source.drawn, hr, hp, ha, hn, hf]

/-- The case that a body makes of a sequence and of fresh draws after it. -/
def Body.result (body : Body (Except CaseError Unit)) (forced : Draws) (seed : UInt64)
    (maxDraws attempts : Nat) : Case :=
  let (ending, s) :=
    body.run (.start (.replaying forced seed maxDraws) attempts (.start fun _ => 0) false)
  (s.toCase ending.outcome .zero .generated ending.crashMessage?).timeless

namespace Body

variable (body : Body (Except CaseError Unit)) (forced : Draws) (seed seed' : UInt64)
  (maxDraws attempts : Nat)

theorem result_wellFormed : (body.result forced seed maxDraws attempts).draws.WellFormed :=
  body.wellFormed_run _ fun d hd => by cases hd

theorem result_failure {reason : FailureReason}
    (h : (body.result forced seed maxDraws attempts).outcome = .failed reason) :
    ∃ message, reason = .body message :=
  Ending.failure_body h

/-- What a case recorded makes that case again, with any seed. -/
theorem result_replay :
    body.result (body.result forced seed maxDraws attempts).draws seed' maxDraws attempts =
      body.result forced seed maxDraws attempts := by
  obtain ⟨he, hf⟩ := body.run_follows
    (CaseState.follows_start forced (body.result forced seed maxDraws attempts).draws seed seed'
      maxDraws attempts (.start fun _ => 0) (.start fun _ => 0) false false (List.prefix_refl _))
    (List.prefix_refl _)
  exact CaseState.timeless_toCase he hf.source.1 hf.source.2.2.1 hf.arguments hf.notes hf.features

/-- What a body makes of a sequence is no matter of time. -/
theorem result_untimed (clock : Clock) (interrupted : Bool) (execution : Duration)
    (source : CaseSource) :
    let r := body.run (.start (.replaying forced seed maxDraws) attempts clock interrupted)
    (r.2.toCase r.1.outcome execution source r.1.crashMessage?).timeless =
      body.untimed.result forced seed maxDraws attempts := by
  obtain ⟨he, ha⟩ := body.run_untimed
    (s := .start (.replaying forced seed maxDraws) attempts clock interrupted)
    (t := .start (.replaying forced seed maxDraws) attempts (.start fun _ => 0) false)
    ⟨rfl, rfl, rfl, rfl, rfl⟩
  exact (CaseState.timeless_toCase he (congrArg Source.record ha.source)
    (congrArg Source.predicates ha.source) ha.arguments ha.notes ha.features).symm

end Body

end Falsify
