import Falsify.Proofs.Run.Phases

/-!
# What a failing run reports

Without a deadline a run fails only on a failing case of the body, and it reports one that is
at most as complex as the first that it came upon.

* `RunM.Reports`: a failing case was executed last and is the one reported;
* `conclude_ok`: what becomes of a failing case through the search and the final replay;
* `proceed_failed`, `search_failed`: no other end of a run is a failure;
* `World.Begun`, `runProperty_begun`: how every run begins.
-/

namespace Falsify

/-- The counterexample that a failing case makes. -/
def Case.toCounterexample (c : Case) (printToken : Bool) (seed : Option UInt64) :
    Counterexample where
  draws := c.draws
  arguments := c.arguments
  representation := c.representation
  notes := c.notes
  reason := c.outcome.failure?.getD (.body c.outcome.reason)
  crash := c.crash
  token := if printToken then some (encodeToken c.draws) else none
  seed := seed

/-- Reports do not tell what a case was executed for. -/
theorem Case.toCounterexample_congr {c c' : Case} (h : c'.timeless = c.timeless)
    (printToken : Bool) (seed : Option UInt64) :
    c'.toCounterexample printToken seed = c.toCounterexample printToken seed := by
  change c'.timeless.toCounterexample printToken seed = _
  rw [h]
  rfl

namespace World

variable {σ : Type} {w w' : World σ}

/-- What is stored once a run has opened its database. A run with a store of its own opens none. -/
def contentsOpened (w : World σ) (host : Host σ) : σ :=
  match w.runner.store, w.runner.settings.database with
  | none, some path => (host.openStore path w.storage).2.contents
  | _, _ => w.storage.contents

/-- The database was opened, if there is one to open. -/
structure Opened (host : Host σ) (w w' : World σ) : Prop where
  same : ∃ store sinks storage, w' = { w with
    runner := { w.runner with store := store, sinks := sinks }, storage := storage }
  contents : w'.storage.contents = w.contentsOpened host

/-- A run has begun: nothing was executed or counted so far, and the database is open. -/
structure Begun (host : Host σ) (w w' : World σ) : Prop where
  executed : w'.executed = []
  crash : w'.crash = none
  name : w'.runner.name = w.runner.name
  statistics : w'.runner.statistics = {}
  settings : w'.runner.settings = w.runner.settings
  deadline : w'.runner.deadline = w.runner.deadline
  contents : w'.storage.contents = w.contentsOpened host
  interrupted : w'.runner.interrupted = w.runner.interrupted

end World

namespace RunM

open World

variable {σ : Type} {property : Property} {body : Body (Except CaseError Unit)}
  {w w' : World σ} {host : Host σ}

theorem counterexample_apply (c : Case) (seed : Option UInt64) (w : World σ) :
    counterexample c c.outcome seed w =
      (.ok (c.toCounterexample w.runner.settings.printToken seed), w) := rfl

/-! ## What a failing run reports -/

/-- A run from one point to another has executed a failing case of the body at last, at most as
complex as some draws, and reports it. -/
structure Reports (body : Body (Except CaseError Unit)) (w w' : World σ) (initial : Draws)
    (result : RunResult) (c : Case) : Prop where
  since : ∃ cases, Since body w w' (c :: cases)
  failing : c.outcome.isFailure = true
  draws : c.draws = initial ∨ c.draws.Simpler initial
  outcome : result.outcome = c.outcome
  counterexample : ∃ seed,
    result.counterexample = some (c.toCounterexample w.runner.settings.printToken seed)

theorem Reports.of_since {w₁ : World σ} {cases : List Case} {initial best : Draws}
    {result : RunResult} {c : Case} (h : Since body w w₁ cases)
    (hle : best = initial ∨ best.Simpler initial) (hr : Reports body w₁ w' best result c) :
    Reports body w w' initial result c := by
  obtain ⟨later, hs⟩ := hr.since
  refine ⟨⟨later ++ cases, h.trans hs⟩, hr.failing, ?_, hr.outcome, ?_⟩
  · rcases hle with rfl | hle
    · exact hr.draws
    · rcases hr.draws with hd | hd
      · exact .inr (hd ▸ hle)
      · exact .inr (hd.trans hle)
  · rw [← h.settings]
    exact hr.counterexample

/-- The final replay of a sequence that fails, and the report of what came of it. -/
theorem replayed_ok (hp : property.Plays body) (hd : w.runner.deadline.deadline = none)
    {initial : Case} {best : Draws} (hb : FailsOn body w.runner.settings best)
    {origin seed : Option UInt64} {result : RunResult}
    (h : (do
      let (outcome, c) ← finalReplay property initial best
      let e ← counterexample c outcome origin
      finish outcome (some e) none seed) w = (.ok result, w')) :
    ∃ c, Reports body w w' best result c := by
  obtain ⟨⟨outcome, c⟩, w₁, h₁, h₂⟩ := bind_eq_ok h
  obtain ⟨hs, rfl, hf, rfl⟩ := finalReplay_ok hp hd initial hb h₁
  dsimp only at h₂
  rw [bind_of_ok (counterexample_apply c origin w₁)] at h₂
  obtain ⟨w₂, h₃, t₂⟩ := finish_apply c.outcome
    (some (c.toCounterexample w₁.runner.settings.printToken origin)) none seed w₁
  cases h₃.symm.trans h₂
  exact ⟨c, ⟨[], hs.continues t₂.continues⟩, hf, .inl rfl, rfl, origin, by rw [hs.settings]⟩

/-- What becomes of a failing case is a failing case of the body, at most as complex. -/
theorem conclude_ok (hp : property.Plays body) (hd : w.runner.deadline.deadline = none)
    {initial : Case} (hi : FailsOn body w.runner.settings initial.draws) (fromDatabase : Bool)
    (seed : UInt64) {result : RunResult}
    (h : conclude property initial fromDatabase seed w = (.ok result, w')) :
    ∃ c, Reports body w w' initial.draws result c := by
  rw [conclude, runner_bind] at h
  rcases hs : w.runner.settings.hasPhase .shrink <;> rw [hs] at h
  · exact replayed_ok hp hd hi h
  · rcases hr : initial.outcome.failure? with _ | reason <;> rw [hr] at h
    · exact replayed_ok hp hd hi h
    · obtain ⟨best, w₁, h₁, h⟩ := bind_eq_ok h
      obtain ⟨hb, hle, cases, hsince⟩ := shrink_ok hp hd hi h₁
      obtain ⟨c, hc⟩ := replayed_ok hp (hsince.deadline.trans hd) (hsince.settings ▸ hb) h
      exact ⟨c, .of_since hsince hle hc⟩

/-- The first failing case of a run, which is what `Found` hands on. -/
theorem find?_executed {w₁ : World σ} {initial : Case} {cases : List Case}
    (hf : Found body w w₁ (some initial)) (hs : Since body w₁ w' cases) (he : w.executed = []) :
    w'.executed.reverse.find? (fun c => c.outcome.isFailure) = some initial := by
  obtain ⟨earlier, h, hn, hi⟩ := hf
  rw [hs.executed, h.executed, he, List.append_nil, Option.toList_some, List.singleton_append,
    List.reverse_append, List.reverse_cons, List.append_assoc, List.find?_append, List.find?_append]
  have hnone : earlier.reverse.find? (fun c => c.outcome.isFailure) = none := by
    rw [List.find?_eq_none]
    intro c hc
    rw [hn c (List.mem_reverse.1 hc)]
    decide
  rw [hnone, List.find?_singleton, if_pos (hi initial rfl)]
  rfl

theorem Found.failsOn {initial : Case} {w₁ : World σ} (h : Found body w w₁ (some initial)) :
    FailsOn body w₁.runner.settings initial.draws := by
  obtain ⟨earlier, hs, -, hi⟩ := h
  exact ⟨initial, hs.settings ▸ hs.made initial List.mem_cons_self, hi initial rfl, rfl⟩

/-- What a failing case leads to, from where the run began. -/
theorem Found.reports (hp : property.Plays body) (hd : w.runner.deadline.deadline = none)
    (he : w.executed = []) {w₁ : World σ} {initial : Case} {fromDatabase : Bool} {seed : UInt64}
    {result : RunResult} (hf : Found body w w₁ (some initial))
    (h : conclude property initial fromDatabase seed w₁ = (.ok result, w')) :
    ∃ initial c, w'.executed.reverse.find? (fun c => c.outcome.isFailure) = some initial ∧
      Reports body w w' initial.draws result c := by
  have ⟨earlier, hs, _⟩ := hf
  obtain ⟨c, hc⟩ := conclude_ok hp (hs.deadline.trans hd) (Found.failsOn hf) fromDatabase seed h
  obtain ⟨cases, hl⟩ := hc.since
  exact ⟨initial, c, find?_executed hf hl he, .of_since hs (.inl rfl) hc⟩

theorem finish_outcome {outcome : Outcome} {example? : Option Counterexample}
    {health : Option HealthFailure} {seed : Option UInt64} {result : RunResult}
    (h : finish outcome example? health seed w = (.ok result, w')) : result.outcome = outcome := by
  obtain ⟨w₁, h₁, -⟩ := finish_apply outcome example? health seed w
  cases h₁.symm.trans h
  rfl

/-- What a run does once the cases in the database have been tried. -/
def proceed (property : Property) (seed : UInt64) (settings : Settings) :
    Option Case → RunM σ RunResult
  | some c => conclude property c true seed
  | none => do
    if (← runner).interrupted then finish (.gaveUp .interrupted) none none (some seed)
    else if settings.hasPhase .generate then
      match ← generate property seed with
      | .exhausted => finish .passed none none (some seed)
      | .failed c => conclude property c false seed
      | .gaveUp reason => finish (.gaveUp reason) none none (some seed)
      | .unhealthy failure => finish (.gaveUp failure.toReason) none (some failure) (some seed)
    else finish .passed none none (some seed)

/-- Nothing that a run does after the database leads to a failure but a failing case. -/
theorem proceed_failed (hp : property.Plays body) (hd : w.runner.deadline.deadline = none)
    (he : w.executed = []) {seed : UInt64} {settings : Settings} {w₁ : World σ}
    {reused : Option Case}
    (hf : Found body w w₁ reused) {result : RunResult} {reason : FailureReason}
    (h : proceed property seed settings reused w₁ = (.ok result, w'))
    (ho : result.outcome = .failed reason) :
    ∃ initial c, w'.executed.reverse.find? (fun c => c.outcome.isFailure) = some initial ∧
      Reports body w w' initial.draws result c := by
  rcases reused with _ | c
  · rw [proceed, runner_bind] at h
    split at h
    · cases (finish_outcome h).symm.trans ho
    · split at h
      · obtain ⟨ending, w₂, hg, h⟩ := bind_eq_ok h
        rcases ending with _ | c | reason' | failure
        · cases (finish_outcome h).symm.trans ho
        · have ⟨cases, hs, _⟩ := hf
          exact Found.reports hp hd he
            (hf.then (generate_failed hp seed (hs.deadline.trans hd) hg)) h
        · cases (finish_outcome h).symm.trans ho
        · cases (finish_outcome h).symm.trans ho
      · cases (finish_outcome h).symm.trans ho
  · exact Found.reports hp hd he hf h

theorem search_eq (host : Host σ) (property : Property) : search host property = (do
    let seed ← resolveSeed host
    let r ← runner
    tellPhase s!"running {r.name} with seed {seed.toNat}"
    let reused ← if r.settings.hasPhase .reuse then reuse property else pure none
    proceed property seed r.settings reused) :=
  rfl

/-- A run without a token that fails reports a failing case of the body, at most as complex as the
first case that failed. -/
theorem search_failed (hp : property.Plays body) (hd : w.runner.deadline.deadline = none)
    (he : w.executed = []) {result : RunResult} {reason : FailureReason}
    (h : search host property w = (.ok result, w')) (ho : result.outcome = .failed reason) :
    ∃ initial c, w'.executed.reverse.find? (fun c => c.outcome.isFailure) = some initial ∧
      Reports body w w' initial.draws result c := by
  rw [search_eq] at h
  obtain ⟨seed, w₁, h₁, h⟩ := (ends_resolveSeed host).bind_eq_ok h
  rw [runner_bind] at h
  obtain ⟨⟨⟩, w₂, h₂, h⟩ := (ends_tellPhase _).bind_eq_ok h
  have hw : w.Continues w₂ := continues_frame.trans h₁.continues h₂.continues
  rcases hr : w₁.runner.settings.hasPhase .reuse <;> rw [hr] at h
  · exact proceed_failed hp hd he (.of_since hw.since) h ho
  · obtain ⟨reused, w₃, h₃, h⟩ := bind_eq_ok h
    exact proceed_failed hp hd he (.of_continues hw (reuse_ok hp (hw.deadline.trans hd) h₃)) h ho

/-! ## Whole runs -/

theorem openDatabase_apply (host : Host σ) (w : World σ) :
    ∃ w', openDatabase host w = (.ok (), w') ∧ Opened host w w' := by
  have hnone : ∀ v : World σ, v.contentsOpened host = v.storage.contents → Opened host v v :=
    fun v hv => ⟨⟨v.runner.store, v.runner.sinks, v.storage, rfl⟩, hv.symm⟩
  rw [openDatabase, runner_bind]
  rcases hs : w.runner.store with _ | backend
  · rcases hp : w.runner.settings.database with _ | path
    · exact ⟨w, rfl, hnone w (by rw [contentsOpened, hs, hp])⟩
    · have hc : w.contentsOpened host = (host.openStore path w.storage).2.contents := by
        rw [contentsOpened, hs, hp]
      dsimp only
      rw [stored_bind]
      rcases (host.openStore path w.storage).1 with e | backend
      · obtain ⟨⟨⟩, w₁, h₁, s, l, rfl⟩ := ends_databaseError "opening the example database" e
          { w with storage := (host.openStore path w.storage).2 }
        exact ⟨_, h₁, ⟨_, s, _, rfl⟩, hc.symm⟩
      · exact ⟨_, rfl, ⟨some backend, _, _, rfl⟩, hc.symm⟩
  · exact ⟨w, rfl, hnone w (by rw [contentsOpened, hs])⟩

/-- A run starts by opening its database, and then it replays a token or searches. -/
theorem runProperty_begun (host : Host σ) (property : Property)
    (hv : w.runner.settings.validate = .ok ()) :
    ∃ w₁, Begun host w w₁ ∧ runProperty host property w =
      (match w.runner.settings.reproduce with
        | some token => reproduce property token
        | none => search host property) w₁ := by
  obtain ⟨w₁, h, ho⟩ := openDatabase_apply host
    { w with
      executed := []
      crash := none
      runner := { w.runner with statistics := {}, runStart := timestamp host.startTime } }
  refine ⟨w₁, ?_, ?_⟩
  · obtain ⟨⟨store, sinks, storage, rfl⟩, hc⟩ := ho
    exact ⟨rfl, rfl, rfl, rfl, rfl, rfl, hc, rfl⟩
  · have hs : w₁.runner.settings = w.runner.settings := by
      obtain ⟨⟨store, sinks, storage, rfl⟩, -⟩ := ho
      rfl
    rw [runProperty, modify_bind, runner_bind]
    dsimp only
    rw [hv]
    dsimp only
    rw [modifyRunner, modify_bind, bind_of_ok h, ← hs]
    rfl

/-- Under settings that make no sense nothing is done. -/
theorem runProperty_invalid (host : Host σ) (property : Property) {e : SettingsError}
    (h : w.runner.settings.validate = .error e) :
    runProperty host property w =
      (.error (.settings e), { w with executed := [], crash := none }) := by
  rw [runProperty, modify_bind, runner_bind]
  dsimp only
  rw [h]
  rfl

theorem valid_of_runProperty {result : RunResult}
    (h : runProperty host property w = (.ok result, w')) :
    w.runner.settings.validate = .ok () := by
  rw [runProperty, modify_bind, runner_bind] at h
  dsimp only at h
  rcases hv : w.runner.settings.validate with e | ⟨⟩
  · rw [hv] at h
    cases h
  · rfl

/-- A run without a token that fails reports a failing case, at most as complex as the first one
that it executed. -/
theorem runProperty_failed (hp : property.Plays body) (hd : w.runner.deadline.deadline = none)
    (hr : w.runner.settings.reproduce = none) {result : RunResult} {reason : FailureReason}
    (h : runProperty host property w = (.ok result, w')) (ho : result.outcome = .failed reason) :
    ∃ w₁ initial c, Begun host w w₁ ∧
      w'.executed.reverse.find? (fun c => c.outcome.isFailure) = some initial ∧
      Reports body w₁ w' initial.draws result c := by
  obtain ⟨w₁, hb, h₁⟩ := runProperty_begun host property (valid_of_runProperty h)
  rw [hr] at h₁
  have hd₁ : w₁.runner.deadline.deadline = none := by rw [hb.deadline, hd]
  obtain ⟨initial, c, hi, hc⟩ := search_failed hp hd₁ hb.executed (h₁.symm.trans h) ho
  exact ⟨w₁, initial, c, hb, hi, hc⟩

end RunM

end Falsify
