import Falsify.Proofs.Encoding.Token
import Falsify.Proofs.Run.Counterexample

/-!
# Counterexamples can be reproduced

A run that fails reports a case that the body makes of its draws. The token gives the draws
back, so another run that replays the token makes the same case and reports it again.

* `reproduce_ok`: the replay of the token of a failing case;
* `RunM.Reproduces`: a run executed one case, stored nothing, and reported a counterexample;
* `runProperty_token`: a whole run under settings that give the token;
* `counterexample_reproduces`: what any failing run reports is reproduced.
-/

namespace Falsify

theorem Case.MadeBy.of_limits {c : Case} {body : Body (Except CaseError Unit)}
    {settings limits : Settings} (h : c.MadeBy body settings)
    (hm : limits.maxDraws = settings.maxDraws)
    (ha : limits.filterAttempts = settings.filterAttempts) : c.MadeBy body limits := by
  obtain ⟨forced, seed, h⟩ := h
  exact ⟨forced, seed, by rw [hm, ha, h]⟩

theorem Case.MadeBy.failure_body {c : Case} {body : Body (Except CaseError Unit)}
    {settings : Settings} {reason : FailureReason} (h : c.MadeBy body settings)
    (ho : c.outcome = .failed reason) : ∃ message, reason = .body message := by
  obtain ⟨forced, seed, h⟩ := h
  have hc : c.outcome = _ := (congrArg Case.outcome h :)
  exact body.result_failure forced seed _ _ (hc.symm.trans ho)

namespace RunM

open World

variable {σ : Type} {property : Property} {body : Body (Except CaseError Unit)}
  {w w' : World σ} {host : Host σ}

theorem refuseInvalid_of_failure {c : Case} (h : c.outcome.isFailure = true) (w : World σ) :
    refuseInvalid c w = (.ok (), w) := by
  unfold refuseInvalid
  revert h
  generalize c.outcome = outcome
  rcases outcome with _ | _ | _
  · exact fun _ => rfl
  · exact fun _ => rfl
  · intro h
    cases h

/-- One more case was executed, it is reported as a given one, and nothing was stored. -/
structure Replayed (c : Case) (w w' : World σ) (result : RunResult) : Prop where
  executed : ∃ again, w'.executed = again :: w.executed
  statistics : result.statistics.cases = w.runner.statistics.cases + 1
  contents : w'.storage.contents = w.storage.contents
  outcome : result.outcome = c.outcome
  counterexample :
    result.counterexample = some (c.toCounterexample w.runner.settings.printToken none)
  seed : result.seed = none

/-- Replaying the token of a failing case makes the case again, and reports it. -/
theorem reproduce_ok (hp : property.Plays body) (hd : w.runner.deadline.deadline = none) {c : Case}
    (hc : c.MadeBy body w.runner.settings) (hf : c.outcome.isFailure = true)
    (hl : c.draws.length < 2 ^ 32) :
    ∃ result w', reproduce property (encodeToken c.draws) w = (.ok result, w') ∧
      Replayed c w w' result := by
  rw [reproduce, decodeToken_encodeToken hc.wellFormed hl]
  dsimp only
  obtain ⟨⟨⟩, w₁, h₁, s, l, rfl⟩ :=
    ends_tellPhase s!"reproducing {w.runner.name} from token" w
  rw [runner_bind, bind_of_ok h₁, setMode, modifyRunner, modify_bind]
  obtain ⟨again, w₂, h₂, he⟩ := execute_ok hp c.draws .reproduction replaySeed
    (w := { w with
      runner := { w.runner with sinks := s, deadline := w.runner.deadline.withMode .configured }
      storage := { w.storage with log := l } }) hd
  have ha : again.timeless = c.timeless := he.result.trans (hc.replay replaySeed)
  have ho : again.outcome = c.outcome := (congrArg Case.outcome ha :)
  have hf' : again.outcome.isFailure = true := ho ▸ hf
  obtain ⟨w₃, h₃, s', l', rfl⟩ := finish_apply again.outcome
    (some (again.toCounterexample w₂.runner.settings.printToken none)) none none w₂
  rw [bind_of_ok h₂, bind_of_ok (refuseInvalid_of_failure hf' w₂), if_pos hf',
    bind_of_ok (counterexample_apply again none w₂), h₃]
  refine ⟨_, _, rfl, ⟨again, he.executed⟩, ?_, he.contents, ho, ?_, rfl⟩
  · exact congrArg Statistics.cases he.statistics
  · rw [he.settings]
    exact congrArg some (Case.toCounterexample_congr ha _ _)

/-- A run executed one case, stored nothing once its database was open, and reported an outcome and
a counterexample. -/
structure Reproduces (host : Host σ) (outcome : Outcome) (e : Counterexample) (w w' : World σ)
    (result : RunResult) : Prop where
  executed : w'.executed.length = 1
  statistics : result.statistics.cases = 1
  contents : w'.storage.contents = w.contentsOpened host
  outcome : result.outcome = outcome
  counterexample : result.counterexample = some e
  seed : result.seed = none

/-- A whole run on the token of a failing case. -/
theorem runProperty_token (host : Host σ) (hp : property.Plays body)
    (hd : w.runner.deadline.deadline = none) (hv : w.runner.settings.validate = .ok ()) {c : Case}
    (hr : w.runner.settings.reproduce = some (encodeToken c.draws))
    (hc : c.MadeBy body w.runner.settings) (hf : c.outcome.isFailure = true)
    (hl : c.draws.length < 2 ^ 32) :
    ∃ result w', runProperty host property w = (.ok result, w') ∧ Reproduces host c.outcome
      (c.toCounterexample w.runner.settings.printToken none) w w' result := by
  obtain ⟨w₁, hb, h₁⟩ := runProperty_begun host property hv
  rw [hr] at h₁
  have hd₁ : w₁.runner.deadline.deadline = none := by rw [hb.deadline, hd]
  obtain ⟨result, w', h, hrep⟩ := reproduce_ok hp hd₁ (hb.settings ▸ hc) hf hl
  refine ⟨result, w', h₁.trans h, ?_, ?_, hrep.contents.trans hb.contents, hrep.outcome, ?_,
    hrep.seed⟩
  · obtain ⟨again, he⟩ := hrep.executed
    rw [he, hb.executed]
    rfl
  · rw [hrep.statistics, hb.statistics]
  · rw [hrep.counterexample, hb.settings]

end RunM

/-- A run is about to replay a token under the limits that some settings set on a case. -/
structure World.Reproducing {σ : Type} (w : World σ) (token : String) (limits : Settings) :
    Prop where
  deadline : w.runner.deadline.deadline = none
  valid : w.runner.settings.validate = .ok ()
  token : w.runner.settings.reproduce = some token
  maxDraws : w.runner.settings.maxDraws = limits.maxDraws
  filterAttempts : w.runner.settings.filterAttempts = limits.filterAttempts

/-- Reported counterexamples are real. A run that fails without a deadline was not flaky, its
counterexample is the first case that failed or a simpler one, and any run on its token, with
whatever database, executes that case only and reports it again. -/
theorem counterexample_reproduces {σ : Type} (host : Host σ) {property : Property}
    {body : Body (Except CaseError Unit)} (hp : property.Plays body) {w w' : World σ}
    {result : RunResult} {reason : FailureReason} (hd : w.runner.deadline.deadline = none)
    (hr : w.runner.settings.reproduce = none)
    (h : runProperty host property w = (.ok result, w')) (ho : result.outcome = .failed reason) :
    (∀ message, reason ≠ .flaky message) ∧ ∃ initial e,
      w'.executed.reverse.find? (fun c => c.outcome.isFailure) = some initial ∧
      result.counterexample = some e ∧
      (e.draws = initial.draws ∨ e.draws.Simpler initial.draws) ∧
      (w.runner.settings.printToken = true → e.draws.length < 2 ^ 32 →
        ∃ token, e.token = some token ∧
          ∀ (τ : Type) (host₂ : Host τ) (property₂ : Property) (w₂ : World τ),
            property₂.Plays body → w₂.Reproducing token w.runner.settings →
            ∃ result₂ w₂', runProperty host₂ property₂ w₂ = (.ok result₂, w₂') ∧
              RunM.Reproduces host₂ result.outcome
                { e with
                  token := if w₂.runner.settings.printToken then some token else none
                  seed := none } w₂ w₂' result₂) := by
  obtain ⟨w₁, initial, c, hb, hi, hc⟩ := RunM.runProperty_failed hp hd hr h ho
  obtain ⟨cases, hs⟩ := hc.since
  have hm : c.MadeBy body w.runner.settings := hb.settings ▸ hs.made c List.mem_cons_self
  obtain ⟨seed, he⟩ := hc.counterexample
  refine ⟨fun message hflaky => ?_, initial, _, hi, he, hc.draws, fun hprint hl => ?_⟩
  · obtain ⟨body', hbody⟩ := hm.failure_body (hc.outcome.symm.trans ho)
    cases hflaky.symm.trans hbody
  · refine ⟨encodeToken c.draws, ?_, fun τ host₂ property₂ w₂ hp₂ h₂ => ?_⟩
    · rw [Case.toCounterexample, hb.settings, hprint]
      rfl
    · rw [hc.outcome]
      exact RunM.runProperty_token host₂ hp₂ h₂.deadline h₂.valid h₂.token
        (hm.of_limits h₂.maxDraws h₂.filterAttempts) hc.failing hl

/-- A world about to run a property that draws a boolean and then fails. -/
def World.oneDraw (reproduce : Option String) : World Unit where
  runner := .create "one draw"
    { deadline := none, seed := some 7, phases := [.generate], reproduce := reproduce } none []
  storage := ⟨(), #[]⟩
  clock := .start fun _ => 0
  executed := []
  crash := none

theorem counterexample_reproduces_oneDraw :
    let host : Host Unit := ⟨fun _ => throw (.refused .save), 0, 0⟩
    let body : Body (Except CaseError Unit) :=
      .draw none .booleans fun _ => .done (.error (.failed "no"))
    ∃ result w' token result₂ w₂',
      runProperty host (fun _ => body) (.oneDraw none) = (.ok result, w') ∧
      result.outcome = .failed (.body "no") ∧
      runProperty host (fun _ => body) (.oneDraw (some token)) = (.ok result₂, w₂') ∧
      result₂.outcome = .failed (.body "no") ∧ result₂.statistics.cases = 1 := by
  intro host body
  have hp : Property.Plays (fun _ => body) body := fun _ => rfl
  have hrun : ((runProperty host (fun _ => body) (.oneDraw none)).1.toOption.map fun r =>
      (r.outcome, r.counterexample.map fun e => e.draws.length)) =
        some (.failed (.body "no"), some 1) := by
    decide +kernel
  rcases h : runProperty host (fun _ => body) (.oneDraw none) with ⟨_ | result, w'⟩
  · rw [h] at hrun
    cases hrun
  · rw [h] at hrun
    obtain ⟨ho, hl⟩ := Prod.mk.inj (Option.some.inj hrun)
    obtain ⟨-, initial, e, -, he, -, hrep⟩ := counterexample_reproduces host hp rfl rfl h ho
    rw [he] at hl
    have hl : e.draws.length = 1 := Option.some.inj hl
    obtain ⟨token, -, ht⟩ := hrep rfl (by rw [hl]; decide)
    obtain ⟨result₂, w₂', h₂, hr₂⟩ :=
      ht Unit host (fun _ => body) (.oneDraw (some token)) hp ⟨rfl, rfl, rfl, rfl, rfl⟩
    exact ⟨result, w', token, result₂, w₂', rfl, ho, h₂, hr₂.outcome.trans ho, hr₂.statistics⟩

end Falsify
