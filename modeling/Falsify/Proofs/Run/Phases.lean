import Falsify.Proofs.Run.Execute
import Falsify.Proofs.Shrink.Steps

/-!
# What the phases find

The phases of a run execute cases one after another. Without a deadline each of these is a
case that the body makes, and the phases hand on the first one that fails, then what the
search has made of it, and then its replay.

* `World.Since`: the cases executed between two points of a run;
* `reuse_ok`, `generate_failed`: both phases stop at the first failing case;
* `shrink_ok`: the search ends with the draws of a failing case, by an invariant that each
  of its steps keeps;
* `finalReplay_ok`: what failed fails again, so nothing is ever flaky.
-/

namespace Falsify

/-- A case that the body makes of some sequence under the limits of some settings. -/
def Case.MadeBy (c : Case) (body : Body (Except CaseError Unit)) (settings : Settings) : Prop :=
  ∃ forced seed, c.timeless = body.result forced seed settings.maxDraws settings.filterAttempts

/-- What a case recorded makes the case again. -/
theorem Case.MadeBy.replay {c : Case} {body : Body (Except CaseError Unit)} {settings : Settings}
    (h : c.MadeBy body settings) (seed : UInt64) :
    body.result c.draws seed settings.maxDraws settings.filterAttempts = c.timeless := by
  obtain ⟨forced, seed', h⟩ := h
  rw [h, ← body.result_replay forced seed' seed, ← h]
  rfl

theorem Case.MadeBy.wellFormed {c : Case} {body : Body (Except CaseError Unit)}
    {settings : Settings} (h : c.MadeBy body settings) : c.draws.WellFormed := by
  obtain ⟨forced, seed, h⟩ := h
  have := body.result_wellFormed forced seed settings.maxDraws settings.filterAttempts
  rwa [← h] at this

namespace World

variable {σ : Type} {body : Body (Except CaseError Unit)} {u v w : World σ}
  {cases later : List Case}

/-- Between two points of a run some cases were executed, the latest first. -/
structure Since (body : Body (Except CaseError Unit)) (w w' : World σ) (cases : List Case) :
    Prop where
  executed : w'.executed = cases ++ w.executed
  made : ∀ c ∈ cases, c.MadeBy body w.runner.settings
  settings : w'.runner.settings = w.runner.settings
  deadline : w'.runner.deadline.deadline = w.runner.deadline.deadline
  crash : w'.crash = w.crash

theorem Continues.since (h : v.Continues w) : Since body v w [] where
  executed := h.executed
  made _ hc := by cases hc
  settings := h.settings
  deadline := h.deadline
  crash := h.crash

theorem Since.refl (w : World σ) : Since body w w [] :=
  (continues_frame.refl w).since

theorem Since.trans (h : Since body u v cases) (h' : Since body v w later) :
    Since body u w (later ++ cases) where
  executed := by rw [h'.executed, h.executed, List.append_assoc]
  made c hc := by
    rcases List.mem_append.1 hc with hc | hc
    · exact h.settings ▸ h'.made c hc
    · exact h.made c hc
  settings := h'.settings.trans h.settings
  deadline := h'.deadline.trans h.deadline
  crash := h'.crash.trans h.crash

theorem Since.continues (h : Since body u v cases) (h' : v.Continues w) : Since body u w cases :=
  h.trans h'.since

theorem Executed.since {forced : Draws} {source : CaseSource} {seed : UInt64} {c : Case}
    (h : Executed body forced source seed v c w) : Since body v w [c] where
  executed := h.executed
  made c' hc := by
    cases List.mem_singleton.1 hc
    exact ⟨forced, seed, h.result⟩
  settings := h.settings
  deadline := congrArg Deadline.deadline h.deadline
  crash := h.crash

/-- Between two points of a run cases were executed up to the first one that failed, if any did. -/
def Found (body : Body (Except CaseError Unit)) (w w' : World σ) (failing : Option Case) : Prop :=
  ∃ cases, Since body w w' (failing.toList ++ cases) ∧ (∀ c ∈ cases, c.outcome.isFailure = false) ∧
    ∀ c ∈ failing, c.outcome.isFailure = true

theorem Found.of_since (h : Since body u v []) : Found body u v none :=
  ⟨[], h, by simp, by simp⟩

/-- A case that did not fail comes before what is found. -/
theorem Found.of_passed {c : Case} {failing : Option Case} (h : Since body u v [c])
    (hc : c.outcome.isFailure = false) (h' : Found body v w failing) : Found body u w failing := by
  obtain ⟨cases, hs, hn, hf⟩ := h'
  refine ⟨cases ++ [c], List.append_assoc _ _ _ ▸ h.trans hs, fun c' hc' => ?_, hf⟩
  rcases List.mem_append.1 hc' with hc' | hc'
  · exact hn c' hc'
  · exact List.mem_singleton.1 hc' ▸ hc

theorem Found.of_failed {c : Case} (h : Since body u v [c]) (hc : c.outcome.isFailure = true) :
    Found body u v (some c) :=
  ⟨[], h, by simp, fun _ he => by cases he; exact hc⟩

theorem Found.of_continues {failing : Option Case} (h : u.Continues v)
    (h' : Found body v w failing) : Found body u w failing := by
  obtain ⟨cases, hs, h'⟩ := h'
  exact ⟨cases, List.append_nil (failing.toList ++ cases) ▸ h.since.trans hs, h'⟩

/-- What is found after nothing was. -/
theorem Found.then {failing : Option Case} (h : Found body u v none)
    (h' : Found body v w failing) : Found body u w failing := by
  obtain ⟨earlier, hs, hn, -⟩ := h
  obtain ⟨cases, hs', hn', hf⟩ := h'
  refine ⟨cases ++ earlier, List.append_assoc _ _ _ ▸ hs.trans hs', fun c hc => ?_, hf⟩
  rcases List.mem_append.1 hc with hc | hc
  · exact hn' c hc
  · exact hn c hc

theorem Found.continues {failing : Option Case} (h : Found body u v failing)
    (h' : v.Continues w) : Found body u w failing := by
  obtain ⟨cases, hs, h⟩ := h
  exact ⟨cases, hs.continues h', h⟩

end World

namespace RunM

open World

variable {σ β : Type} {property : Property} {body : Body (Except CaseError Unit)}
  {w w' : World σ}

theorem refuseInvalid_bind {c : Case} {f : Unit → RunM σ β} {b : β}
    (h : (refuseInvalid c >>= f) w = (.ok b, w')) : f () w = (.ok b, w') := by
  obtain ⟨⟨⟩, w₁, h₁, h₂⟩ := bind_eq_ok h
  unfold refuseInvalid at h₁
  generalize c.outcome = outcome at h₁
  rcases outcome with _ | _ | (_ | _ | _ | _ | _ | _) <;> cases h₁ <;> exact h₂

/-! ## Cases from the database -/

theorem reuseFrom_ok (hp : property.Plays body) (entries : List (EntryKind × Draws))
    (hd : w.runner.deadline.deadline = none) {failing : Option Case}
    (h : reuseFrom property entries w = (.ok failing, w')) : Found body w w' failing := by
  induction entries generalizing w with
  | nil =>
    cases h
    exact .of_since (.refl _)
  | cons entry rest ih =>
    obtain ⟨kind, draws⟩ := entry
    rw [reuseFrom, runner_bind] at h
    split at h
    · cases h
      exact .of_since (.refl _)
    · obtain ⟨c, w₁, hx, he⟩ := execute_ok hp draws .database replaySeed hd
      rw [bind_of_ok hx] at h
      have hd₁ : w₁.runner.deadline.deadline = none := by rw [he.deadline, hd]
      split at h
      · rename_i hc
        cases h
        exact .of_failed he.since hc
      · rename_i hc
        have hc : c.outcome.isFailure = false := by simpa using hc
        refine .of_passed he.since hc ?_
        have h := refuseInvalid_bind h
        split at h
        · obtain ⟨⟨⟩, w₂, h₂, h⟩ := (ends_withStore _ _).bind_eq_ok h
          exact .of_continues h₂ (ih (h₂.deadline.trans hd₁) h)
        · exact ih hd₁ h

theorem reuse_ok (hp : property.Plays body) (hd : w.runner.deadline.deadline = none)
    {failing : Option Case} (h : reuse property w = (.ok failing, w')) :
    Found body w w' failing := by
  rw [reuse, runner_bind] at h
  rcases hs : w.runner.store with _ | backend <;> rw [hs] at h
  · cases h
    exact .of_since (.refl _)
  · obtain ⟨loaded, w₁, h₁, h⟩ := (ends_stored _).bind_eq_ok h
    rcases loaded with e | loaded
    · obtain ⟨⟨⟩, w₂, h₂, h⟩ := (ends_databaseError _ _).bind_eq_ok h
      cases h
      exact .of_since (h₁.since.continues h₂.continues)
    · obtain ⟨w₂, h₂, h⟩ := (ends_tell _ _).ite_bind_eq_ok told_frame h
      obtain ⟨⟨⟩, w₃, h₃, h⟩ := (ends_tellPhase _).bind_eq_ok h
      obtain ⟨⟨⟩, w₄, h₄, h⟩ := (ends_setMode _).bind_eq_ok h
      have hw : w.Continues w₄ := continues_frame.trans h₁ <|
        continues_frame.trans h₂.continues <| continues_frame.trans h₃.continues h₄
      exact .of_continues hw (reuseFrom_ok hp _ (hw.deadline.trans hd) h)

/-! ## New cases -/

theorem generateFrom_failed (hp : property.Plays body) (maxExamples maxInvalid : Nat)
    (seeds : ChaCha8) (monitor : HealthMonitor) (valid invalid : Nat)
    (hd : w.runner.deadline.deadline = none) {c : Case}
    (h : generateFrom property maxExamples maxInvalid seeds monitor valid invalid w =
      (.ok (.failed c), w')) : Found body w w' (some c) := by
  induction hn : (maxExamples - valid) + (maxInvalid - invalid) using Nat.strongRecOn
    generalizing seeds monitor valid invalid w with
  | _ n ih =>
    rw [generateFrom] at h
    split at h
    · rw [runner_bind] at h
      split at h
      · cases h
      · obtain ⟨c', w₁, hx, he⟩ := execute_ok hp [] .generated seeds.next.1 hd
        rw [bind_of_ok hx] at h
        have hd₁ : w₁.runner.deadline.deadline = none := by rw [he.deadline, hd]
        split at h
        · rename_i hc
          obtain ⟨⟨⟩, w₂, h₂, h⟩ := (ends_saveFailure _).bind_eq_ok h
          cases h
          exact (Found.of_failed he.since hc).continues h₂
        · rename_i hc
          have hc : c'.outcome.isFailure = false := by simpa using hc
          refine .of_passed he.since hc ?_
          have h := refuseInvalid_bind h
          obtain ⟨w₂, h₂, h⟩ := (ends_saveIfCovering _).ite_bind_eq_ok continues_frame h
          refine .of_continues h₂ ?_
          have hd₂ := h₂.deadline.trans hd₁
          rcases hm : monitor.observe c' with ⟨_ | failure, monitor'⟩ <;> rw [hm] at h
          · dsimp only at h
            split at h
            · split at h
              · cases h
              · exact ih _ (by omega) _ _ _ _ hd₂ h rfl
            · split at h
              · cases h
              · exact ih _ (by omega) _ _ _ _ hd₂ h rfl
          · obtain ⟨⟨⟩, w₃, h₃, h⟩ := (ends_tellUnhealthy _).bind_eq_ok h
            cases h
    · cases h

theorem generate_failed (hp : property.Plays body) (seed : UInt64)
    (hd : w.runner.deadline.deadline = none) {c : Case}
    (h : generate property seed w = (.ok (.failed c), w')) : Found body w w' (some c) := by
  rw [generate, runner_bind] at h
  obtain ⟨⟨⟩, w₁, h₁, h⟩ := (ends_tellPhase _).bind_eq_ok h
  obtain ⟨⟨⟩, w₂, h₂, h⟩ := (ends_setMode _).bind_eq_ok h
  have hw : w.Continues w₂ := continues_frame.trans h₁.continues h₂
  exact .of_continues hw (generateFrom_failed hp _ _ _ _ _ _ (hw.deadline.trans hd) h)

/-! ## Simpler failures -/

/-- A sequence is what a failing case recorded. -/
def FailsOn (body : Body (Except CaseError Unit)) (settings : Settings) (draws : Draws) : Prop :=
  ∃ c : Case, c.MadeBy body settings ∧ c.outcome.isFailure = true ∧ c.draws = draws

/-- The trial of a sequence executes some cases, and it answers with draws that fail. -/
theorem trial_ok (hp : property.Plays body) (origin : Origin) (began : Duration)
    (candidate : Draws) {answer : Option Draws} (hd : w.runner.deadline.deadline = none)
    (h : (oracle property origin began).trial candidate w = (answer, w')) :
    (∃ cases, Since body w w' cases) ∧
      ∀ r, answer = some r → FailsOn body w.runner.settings r := by
  obtain ⟨c, w₁, hx, he⟩ := execute_ok hp candidate .shrinking replaySeed hd
  simp only [oracle, hx] at h
  split at h
  · cases h
    exact ⟨⟨[], .refl _⟩, fun r hr => by cases hr⟩
  · cases h
    refine ⟨⟨[c], he.since⟩, fun r hr => ?_⟩
    split at hr <;> cases hr
    rename_i hc
    refine ⟨c, he.since.made c List.mem_cons_self, ?_, rfl⟩
    rw [Outcome.failsAs, decide_eq_true_eq, Option.map_eq_some_iff] at hc
    obtain ⟨reason, hr, -⟩ := hc
    rw [Outcome.isFailure, hr, Option.isSome_some]

/-- Some way into a search: cases were executed, and the current sequence is what a failing case
recorded. -/
structure Shrinking (body : Body (Except CaseError Unit)) (w : World σ)
    (s : Search (World σ)) : Prop where
  since : ∃ cases, Since body w s.world cases
  fails : FailsOn body w.runner.settings s.current

theorem Shrinking.checkBudget {s : Search (World σ)} (h : Shrinking body w s) (property : Property)
    (origin : Origin) (began : Duration) (b : ShrinkBudget) :
    Shrinking body w (s.checkBudget (oracle property origin began) b) := by
  refine ⟨?_, by rw [Search.current_checkBudget]; exact h.fails⟩
  obtain ⟨cases, hs⟩ := h.since
  rcases Search.world_checkBudget (oracle property origin began) b s with hw | hw <;> rw [hw]
  · exact ⟨cases, hs⟩
  · exact ⟨cases, hs.continues ⟨rfl, rfl, rfl, rfl, rfl⟩⟩

theorem Shrinking.consider (hp : property.Plays body) (hd : w.runner.deadline.deadline = none)
    {s : Search (World σ)} (h : Shrinking body w s) (origin : Origin) (began : Duration)
    (b : ShrinkBudget) (candidate : Draws) :
    Shrinking body w (s.consider (oracle property origin began) b candidate).2 := by
  have hc := Search.considered (oracle property origin began) b candidate s
  generalize s.consider (oracle property origin began) b candidate = r at hc
  have hb := h.checkBudget property origin began b
  obtain ⟨cases, hs⟩ := hb.since
  cases hc with
  | same => exact h
  | skipped => exact h
  | exhausted => exact hb
  | refused answer world _ _ _ ht =>
    obtain ⟨⟨later, hl⟩, -⟩ := trial_ok hp origin began candidate (hs.deadline.trans hd) ht
    exact ⟨⟨_, hs.trans hl⟩, hb.fails⟩
  | improved r world _ _ _ ht =>
    obtain ⟨⟨later, hl⟩, hf⟩ := trial_ok hp origin began candidate (hs.deadline.trans hd) ht
    exact ⟨⟨_, hs.trans hl⟩, hs.settings ▸ hf r rfl⟩

theorem Shrinking.reaches (hp : property.Plays body) (hd : w.runner.deadline.deadline = none)
    {s t : Search (World σ)} (h : Shrinking body w s) {origin : Origin} {began : Duration}
    {b : ShrinkBudget} (hr : Search.Reaches (oracle property origin began) b s t) :
    Shrinking body w t := by
  induction hr with
  | refl => exact h
  | tail _ hstep ih =>
    obtain ⟨c, -, rfl⟩ := hstep
    exact ih.consider hp hd origin began b c

/-- The search ends with the draws of a failing case, those that it started from or simpler ones. -/
theorem shrink_ok (hp : property.Plays body) (hd : w.runner.deadline.deadline = none)
    {initial : Case} {reason : FailureReason}
    (hi : FailsOn body w.runner.settings initial.draws) {best : Draws}
    (h : shrink property initial reason w = (.ok best, w')) :
    FailsOn body w.runner.settings best ∧
      (best = initial.draws ∨ best.Simpler initial.draws) ∧ ∃ cases, Since body w w' cases := by
  obtain ⟨⟨⟩, w₁, h₁, h⟩ := (ends_tellPhase _).bind_eq_ok h
  obtain ⟨⟨⟩, w₂, h₂, h⟩ := (ends_setMode _).bind_eq_ok h
  rw [runner_bind] at h
  obtain ⟨began, w₃, h₃, h⟩ := ends_now.bind_eq_ok h
  have hw : w.Continues w₃ := continues_frame.trans h₁.continues (continues_frame.trans h₂ h₃)
  obtain ⟨start, w₄, hg, h⟩ := bind_eq_ok h
  cases hg
  dsimp only at h
  generalize hb : w₂.runner.settings.shrinkBudget = b at h
  generalize ho : oracle property reason.origin began = o at h
  have hr := Search.reaches_run (o := o) (b := b) (Search.start initial.draws w₃)
  have hs : Shrinking body w ((Search.start initial.draws w₃).run o b) := by
    subst ho
    exact Shrinking.reaches hp hd ⟨⟨[], hw.since⟩, hi⟩ hr
  have he := hr.extends.current
  generalize (Search.start initial.draws w₃).run o b = search at h hs he
  obtain ⟨⟨cases, hsince⟩, hf⟩ := hs
  obtain ⟨⟨⟩, w₅, hset, h⟩ := bind_eq_ok h
  cases hset
  rcases hc : search.world.crash with _ | crash <;> rw [hc] at h
  · obtain ⟨⟨⟩, w₆, h₆, h⟩ := (ends_tellSearch _).bind_eq_ok h
    cases h
    exact ⟨hf, he, cases, hsince.continues h₆⟩
  · cases h

/-! ## The final replay -/

/-- What failed fails again in the final replay, and nothing is flaky. -/
theorem finalReplay_ok (hp : property.Plays body) (hd : w.runner.deadline.deadline = none)
    (initial : Case) {best : Draws} (hb : FailsOn body w.runner.settings best) {outcome : Outcome}
    {c : Case} (h : finalReplay property initial best w = (.ok (outcome, c), w')) :
    Since body w w' [c] ∧ outcome = c.outcome ∧ c.outcome.isFailure = true ∧ c.draws = best := by
  obtain ⟨c₀, hm, hf, rfl⟩ := hb
  obtain ⟨⟨⟩, w₁, h₁, h⟩ := (ends_setMode _).bind_eq_ok h
  obtain ⟨c₁, w₂, hx, he⟩ :=
    execute_ok hp c₀.draws .finalReplay replaySeed (h₁.deadline.trans hd)
  rw [bind_of_ok hx] at h
  have hc : c₁.timeless = c₀.timeless := by
    rw [he.result, h₁.settings, hm.replay]
  have ho : c₁.outcome = c₀.outcome := (congrArg Case.outcome hc :)
  rw [if_pos (ho ▸ hf)] at h
  obtain ⟨⟨⟩, w₃, h₃, h⟩ := (ends_withStore _ _).bind_eq_ok h
  cases h
  exact ⟨(h₁.since.trans he.since).continues h₃, rfl, ho ▸ hf, (congrArg Case.draws hc :)⟩

/-- Every run that gives a result ends by telling it. -/
theorem finish_apply (outcome : Outcome) (example? : Option Counterexample)
    (health : Option HealthFailure) (seed : Option UInt64) (w : World σ) :
    ∃ w', finish outcome example? health seed w =
      (.ok ⟨w.runner.name, outcome, example?, w.runner.statistics, health, seed⟩, w') ∧
        w.Told w' := by
  have hlast : ∀ v : World σ, w.Told v → ∃ w', (do
      observeMessage .info "Statistics" w.runner.statistics.text
      return ⟨w.runner.name, outcome, example?, w.runner.statistics, health, seed⟩ :
        RunM σ RunResult) v =
      (.ok ⟨w.runner.name, outcome, example?, w.runner.statistics, health, seed⟩, w') ∧
        w.Told w' := by
    intro v hv
    obtain ⟨⟨⟩, w', h', t'⟩ := ends_observeMessage .info "Statistics" w.runner.statistics.text v
    exact ⟨w', bind_of_ok h', told_frame.trans hv t'⟩
  rw [finish, runner_bind]
  obtain ⟨⟨⟩, w₁, h₁, t₁⟩ := ends_tellPhase s!"{w.runner.name} {outcome.status}" w
  rw [bind_of_ok h₁]
  rcases example? with _ | e
  · exact hlast w₁ t₁
  · obtain ⟨⟨⟩, w₂, h₂, t₂⟩ :=
      ends_tell .info s!"falsifying example: {w.runner.name}{e.representation}" w₁
    obtain ⟨w', h', t'⟩ := hlast w₂ (told_frame.trans t₁ t₂)
    exact ⟨w', (bind_of_ok h₂).trans h', t'⟩

end RunM

end Falsify
