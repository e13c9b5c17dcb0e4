import Falsify.Proofs.Run.Case
import Falsify.Proofs.Run.Frame

/-!
# What an execution does

* `execute_letting_go`, `execute_apply`: an execution plays the body and counts a case, or it
  crashes the run;
* `World.Executed`: a case was executed, and nothing else that matters to a run has happened;
* `execute_untimed`, `execute_ok`: without a deadline an execution always gives a case, the one
  that the body makes of the sequence.
-/

namespace Falsify

namespace World

variable {σ : Type}

/-- A case was executed on a sequence, and nothing else has happened. -/
structure Executed (body : Body (Except CaseError Unit)) (forced : Draws) (source : CaseSource)
    (seed : UInt64) (w : World σ) (c : Case) (w' : World σ) : Prop where
  result : c.timeless = body.result forced seed w.runner.settings.maxDraws
    w.runner.settings.filterAttempts
  source : c.source = source
  executed : w'.executed = c :: w.executed
  settings : w'.runner.settings = w.runner.settings
  deadline : w'.runner.deadline = w.runner.deadline
  store : w'.runner.store = w.runner.store
  statistics : w'.runner.statistics = w.runner.statistics.record c
  contents : w'.storage.contents = w.storage.contents
  crash : w'.crash = w.crash

/-- A world once a body has been played: the clock has gone on, and somebody may have asked the run
to stop. -/
def played (w : World σ) (s : CaseState) : World σ :=
  { w with
    clock := s.clock.read.2
    runner := { w.runner with interrupted := s.interrupted } }

end World

/-- What can be let go leaves the outcome as it is. -/
theorem outcomeLettingGo_of_none [Disposal] {history : List Case} {s : CaseState}
    {ending : Ending (Except CaseError Unit)} (h : ending.letGo? history s = none)
    (deadline : Deadline) (execution : Duration) :
    outcomeLettingGo deadline execution history ending s = outcomeOf deadline execution ending := by
  rw [outcomeLettingGo, h]
  rcases outcomeOf deadline execution ending with c | outcome <;> rfl

/-- Letting go of a value that no code belongs to. -/
theorem letGo?_quiet {α : Type} (history : List Case) (s : CaseState) (ending : Ending α) :
    ending.letGo? history s = none := by
  rcases ending with _ | (_ | _) <;> rfl

namespace RunM

open World

variable {σ : Type} {property : Property} {body : Body (Except CaseError Unit)}

theorem play_apply (property : Property) (source : Source) (w : World σ) :
    let r := (property w.executed).run
      (.start source w.runner.settings.filterAttempts w.clock.read.2 w.runner.interrupted)
    play property source w =
      (.ok (r.1, r.2, r.2.clock.read.1 - w.clock.read.1),
        { w with
          clock := r.2.clock.read.2
          runner := { w.runner with interrupted := r.2.interrupted } }) := rfl

/-- Counting a case, and telling of it. -/
def account (c : Case) : RunM σ Case := do
  recordCase c
  tellCase c
  let r ← runner
  if !r.sinks.isEmpty then observe (c.toObservation r.name r.runStart)
  return c

theorem account_apply (c : Case) (w : World σ) :
    ∃ w', account c w = (.ok c, w') ∧ Told
      { w with
        executed := c :: w.executed
        runner := { w.runner with statistics := w.runner.statistics.record c } } w' := by
  rw [account, bind_of_ok (rfl : recordCase c w = _)]
  obtain ⟨⟨⟩, w₁, h₁, t₁⟩ := ends_tellCase c
    { w with
      executed := c :: w.executed
      runner := { w.runner with statistics := w.runner.statistics.record c } }
  rw [bind_of_ok h₁, runner_bind]
  split
  · obtain ⟨⟨⟩, w₂, h₂, t₂⟩ := ends_observe (c.toObservation w₁.runner.name w₁.runner.runStart) w₁
    exact ⟨w₂, bind_of_ok h₂, told_frame.trans t₁ t₂⟩
  · exact ⟨w₁, rfl, t₁⟩

theorem execute_eq [Disposal] (property : Property) (forced : Draws) (source : CaseSource)
    (seed : UInt64) :
    execute property forced source seed = (do
      let history := (← get).executed
      let maxDraws := (← runner).settings.maxDraws
      let (ending, s, span) ← play property (Source.replaying forced seed maxDraws)
      match outcomeLettingGo (← runner).deadline (span - s.drawTime) history ending s with
      | .error c =>
        modify fun w => { w with crash := some c }
        throw (.crashed c)
      | .ok outcome =>
        account (s.toCase outcome (span - s.drawTime) source ending.crashMessage?) : RunM σ Case) :=
  rfl

/-- An execution plays the body. If its outcome cannot be told, or what it crashed with cannot be
let go, that crashes the run, and otherwise a case is counted. -/
theorem execute_letting_go [Disposal] (property : Property) (forced : Draws) (source : CaseSource)
    (seed : UInt64) (w : World σ) :
    let r := (property w.executed).run (.start (.replaying forced seed w.runner.settings.maxDraws)
      w.runner.settings.filterAttempts w.clock.read.2 w.runner.interrupted)
    let execution := r.2.clock.read.1 - w.clock.read.1 - r.2.drawTime
    execute property forced source seed w =
      match outcomeLettingGo w.runner.deadline execution w.executed r.1 r.2 with
      | .error c => (.error (.crashed c), { w.played r.2 with crash := some c })
      | .ok outcome =>
        account (r.2.toCase outcome execution source r.1.crashMessage?) (w.played r.2) := by
  have hplay := play_apply property (Source.replaying forced seed w.runner.settings.maxDraws) w
  dsimp only at hplay ⊢
  generalize (property w.executed).run _ = r at hplay ⊢
  rw [execute_eq, bind_of_ok (rfl : (get : RunM σ (World σ)) w = (.ok w, w)), runner_bind,
    bind_of_ok hplay]
  dsimp only
  rw [runner_bind]
  dsimp only
  rcases outcomeLettingGo w.runner.deadline (r.2.clock.read.1 - w.clock.read.1 - r.2.drawTime)
    w.executed r.1 r.2 with c | outcome
  · rfl
  · rfl

/-- The same if letting go of a value runs no code. -/
theorem execute_apply (property : Property) (forced : Draws) (source : CaseSource) (seed : UInt64)
    (w : World σ) :
    let r := (property w.executed).run (.start (.replaying forced seed w.runner.settings.maxDraws)
      w.runner.settings.filterAttempts w.clock.read.2 w.runner.interrupted)
    let execution := r.2.clock.read.1 - w.clock.read.1 - r.2.drawTime
    execute property forced source seed w =
      match outcomeOf w.runner.deadline execution r.1 with
      | .error c => (.error (.crashed c), { w.played r.2 with crash := some c })
      | .ok outcome =>
        account (r.2.toCase outcome execution source r.1.crashMessage?) (w.played r.2) := by
  have h := execute_letting_go property forced source seed w
  dsimp only at h ⊢
  rwa [outcomeLettingGo_of_none (letGo?_quiet _ _ _)] at h

/-- Without a deadline an execution always gives a case, the one that the body called makes of the
sequence. -/
theorem execute_untimed (property : Property) (forced : Draws) (source : CaseSource)
    (seed : UInt64) {w : World σ} (hd : w.runner.deadline.deadline = none) :
    ∃ c w', execute property forced source seed w = (.ok c, w') ∧
      Executed (property w.executed).untimed forced source seed w c w' := by
  have hresult := (property w.executed).result_untimed forced seed w.runner.settings.maxDraws
    w.runner.settings.filterAttempts w.clock.read.2 w.runner.interrupted
  rw [execute_apply]
  dsimp only at hresult ⊢
  generalize (property w.executed).run _ = r at hresult ⊢
  rw [outcomeOf_of_no_deadline hd]
  dsimp only
  obtain ⟨w', h, s, l, rfl⟩ := account_apply _ _
  exact ⟨_, _, h, hresult _ _, rfl, rfl, rfl, rfl, rfl, rfl, rfl, rfl⟩

/-- The same if all calls play one body. -/
theorem execute_ok (hp : property.Plays body) (forced : Draws) (source : CaseSource)
    (seed : UInt64) {w : World σ} (hd : w.runner.deadline.deadline = none) :
    ∃ c w', execute property forced source seed w = (.ok c, w') ∧
      Executed body forced source seed w c w' :=
  hp w.executed ▸ execute_untimed property forced source seed hd

end RunM

end Falsify
