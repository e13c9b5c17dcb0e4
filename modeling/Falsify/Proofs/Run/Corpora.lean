import Falsify.Proofs.Run.Covering

/-!
# What a run leaves behind

A run with a store in memory that fails leaves the counterexample among the failing examples
of the test, in the place of the draws of the first failing case.

* `conclude_memory`, `conclude_total`: what becomes of a failing case, and that something does;
* `runProperty_of_store`, `search_apply`: how a run begins whose store is there already;
* `search_concludes`: a run that fails has come upon a failing case and concluded from it.
-/

namespace Falsify

namespace World

variable {w w' : World Memory} {body : Body (Except CaseError Unit)}

/-- A run has concluded from a failing case: it reports one, files it in the place of the first,
and has executed nothing but trials and replays. -/
structure Concluded (body : Body (Except CaseError Unit)) (w w' : World Memory) (initial : Draws)
    (origin : Option UInt64) (result : RunResult) (c : Case) : Prop where
  failed : RunM.FailsOn body w.runner.settings initial
  reports : RunM.Reports body w w' initial result c
  counterexample :
    result.counterexample = some (c.toCounterexample w.runner.settings.printToken origin)
  statistics : result.statistics = w'.runner.statistics
  onward : Onward (fun source => source = .shrinking ∨ source = .finalReplay) w w'
  failing : w'.corpus .failing =
    (w.corpus .failing \ {Encoding.serialize initial}) ∪ {Encoding.serialize c.draws}
  covering : w'.corpus .covering = w.corpus .covering

end World

namespace RunM

open World

/-! ## Conclusions -/

section

variable {σ : Type} {property : Property} {body : Body (Except CaseError Unit)} {w w' : World σ}

/-- A failing case fails again when its draws are replayed. -/
theorem FailsOn.replay {limits : Settings} {best : Draws} (h : FailsOn body limits best) :
    body.stillFails limits best = true ∧ (body.replay limits best).draws = best := by
  obtain ⟨c, hm, hf, rfl⟩ := h
  rw [Body.stillFails, Body.replay, hm.replay]
  exact ⟨hf, rfl⟩

theorem FailsOn.wellFormed {limits : Settings} {best : Draws} (h : FailsOn body limits best) :
    best.WellFormed := by
  obtain ⟨c, hm, -, rfl⟩ := h
  exact hm.wellFormed

/-- A simpler failure is what a failing case recorded. -/
theorem simplify_ok (hp : property.Plays body) (hd : w.runner.deadline.deadline = none)
    {initial : Case} (hi : FailsOn body w.runner.settings initial.draws) {best : Draws}
    (h : simplify property initial w = (.ok best, w')) :
    FailsOn body w.runner.settings best ∧
      (best = initial.draws ∨ best.Simpler initial.draws) ∧ ∃ cases, Since body w w' cases := by
  rw [simplify, runner_bind] at h
  rcases hs : w.runner.settings.hasPhase .shrink <;> rcases hr : initial.outcome.failure? <;>
    rw [hs, hr] at h
  case true.some reason => exact shrink_ok hp hd hi h
  all_goals
    cases h
    exact ⟨hi, .inl rfl, [], .refl _⟩

end

variable {property : Property} {body : Body (Except CaseError Unit)} {w w' : World Memory}

/-- The case replayed at last takes the place of the first failing one. -/
theorem finalReplay_memory (hp : property.Plays body) (hd : w.runner.deadline.deadline = none)
    (hm : w.InMemory) (initial : Case) {best : Draws} (hb : FailsOn body w.runner.settings best)
    {outcome : Outcome} {c : Case}
    (h : finalReplay property initial best w = (.ok (outcome, c), w')) :
    w'.corpus .failing =
      (w.corpus .failing \ {Encoding.serialize initial.draws}) ∪ {Encoding.serialize c.draws} ∧
      w'.corpus .covering = w.corpus .covering := by
  rw [finalReplay_eq] at h
  obtain ⟨⟨⟩, w₁, i₁, h⟩ := (idle_setMode _).bind_eq_ok h
  have ho₁ : Onward (· = .finalReplay) w w₁ := onward_frame.idle i₁
  obtain ⟨c', w₂, hx, he⟩ :=
    execute_ok hp best .finalReplay replaySeed (ho₁.deadline.trans hd)
  obtain ⟨hs, hran⟩ := ran_of_execute hx
  have ho : Onward (· = .finalReplay) w w₂ := ho₁.trans (onward_frame.ran hs hran)
  have hc : w₂.corpus = w.corpus := ho.corpus_eq (hran.unstored.trans i₁.unstored)
  have hf : c'.outcome.isFailure = true := by
    have hout : c'.outcome = (body.replay w₁.runner.settings best).outcome :=
      (congrArg Case.outcome he.result :)
    rw [hout, ho₁.settings]
    exact hb.replay.1
  obtain ⟨w₃, h₃, hfail, hcov⟩ := replace_memory (hm.onward ho) initial.draws c'.draws
  rw [bind_of_ok hx, if_pos hf, bind_of_ok h₃] at h
  cases h
  rw [hfail, hcov, hc]
  exact ⟨rfl, rfl⟩

/-- What becomes of a failing case, if the run gives a result. -/
theorem conclude_memory (hp : property.Plays body) (hd : w.runner.deadline.deadline = none)
    (hm : w.InMemory) {initial : Case} (hi : FailsOn body w.runner.settings initial.draws)
    (fromDatabase : Bool) (seed : UInt64) {result : RunResult}
    (h : conclude property initial fromDatabase seed w = (.ok result, w')) :
    ∃ c, Concluded body w w' initial.draws (if fromDatabase then none else some seed) result c := by
  have ho : Onward (fun source => source = .shrinking ∨ source = .finalReplay) w w' :=
    (runs_conclude (E := Never) onward_frame.toStoreFrame (.inl rfl) (.inr rfl) property initial
      fromDatabase seed).rel h
  rw [conclude_eq] at h
  obtain ⟨best, w₁, h₁, h⟩ := bind_eq_ok h
  obtain ⟨hb, hle, cases, hs⟩ := simplify_ok hp hd hi h₁
  have hd₁ := hs.deadline.trans hd
  have hb₁ : FailsOn body w₁.runner.settings best := hs.settings ▸ hb
  have ho₁ : Onward (· = .shrinking) w w₁ :=
    (runs_simplify (E := Never) (S := (· = .shrinking)) onward_frame.toPlayFrame rfl property
      initial).rel h₁
  have hc₁ : w₁.corpus = w.corpus := ho₁.corpus_eq ((runs_simplify (E := Never)
    (S := (· = .shrinking)) unstored_frame rfl property initial).rel h₁)
  obtain ⟨⟨outcome, c⟩, w₂, h₂, hreport⟩ := bind_eq_ok h
  obtain ⟨hfail, hcov⟩ := finalReplay_memory hp hd₁ (hm.onward ho₁) initial hb₁ h₂
  obtain ⟨hs₂, rfl, hf, rfl⟩ := finalReplay_ok hp hd₁ initial hb₁ h₂
  dsimp only at hreport
  rw [report, bind_of_ok (counterexample_apply c _ w₂)] at hreport
  obtain ⟨w₃, h₃, t₃⟩ := finish_apply c.outcome (some (c.toCounterexample
    w₂.runner.settings.printToken (if fromDatabase then none else some seed))) none (some seed) w₂
  cases h₃.symm.trans hreport
  have hc₃ : w'.corpus = w₂.corpus := ((onward_frame (S := fun _ => True)).idle t₃.idle).corpus_eq
    t₃.idle.unstored
  have hst : w'.runner.statistics = w₂.runner.statistics := by
    obtain ⟨_, _, rfl⟩ := t₃
    rfl
  have hcex : some (c.toCounterexample w₂.runner.settings.printToken
      (if fromDatabase then none else some seed)) =
      some (c.toCounterexample w.runner.settings.printToken
        (if fromDatabase then none else some seed)) := by
    rw [hs₂.settings, hs.settings]
  refine ⟨c, hi, ⟨⟨cases, ?_⟩, hf, hle, rfl, _, hcex⟩, hcex, hst.symm, ho, ?_, ?_⟩
  · exact (hs.trans hs₂).continues t₃.continues
  · rw [hc₃, hfail, hc₁]
  · rw [hc₃, hcov, hc₁]

/-- Without a deadline a run concludes from any case. -/
theorem conclude_total (hu : w.Unhurried) (property : Property) (initial : Case)
    (fromDatabase : Bool) (seed : UInt64) :
    ∃ result w', conclude property initial fromDatabase seed w = (.ok result, w') := by
  obtain ⟨result, w', h, -⟩ := (runs_conclude (S := fun _ => True) onward_frame.toStoreFrame
    trivial trivial property initial fromDatabase seed).total hu
  exact ⟨result, w', h⟩

end RunM

/-! ## Whole runs -/

/-- The seed of a run: a fixed one, one made from the property's name, or any. -/
def World.runSeed {σ : Type} (host : Host σ) (w : World σ) : UInt64 :=
  match w.runner.settings.seed with
  | some seed => seed
  | none =>
    if w.runner.settings.derandomize then
      UInt64.ofNat (ofBigEndian (w.runner.key.fingerprint.toList.take 8))
    else host.randomSeed

/-- A run has begun, and its store is there already. -/
def World.begun {σ : Type} (host : Host σ) (w : World σ) : World σ :=
  { w with
    executed := []
    crash := none
    runner := { w.runner with statistics := {}, runStart := timestamp host.startTime } }

namespace RunM

open World

variable {σ : Type} {property : Property} {body : Body (Except CaseError Unit)} {host : Host σ}
  {w w' : World σ}

/-- A run opens its database, and then it replays a token or searches. -/
theorem runProperty_of_valid (host : Host σ) (property : Property)
    (hv : w.runner.settings.validate = .ok ()) :
    runProperty host property w = (do
      openDatabase host
      match (← runner).settings.reproduce with
      | some token => reproduce property token
      | none => search host property : RunM σ RunResult) (w.begun host) := by
  rw [runProperty, modify_bind, runner_bind]
  dsimp only
  rw [hv]
  rfl

theorem runProperty_of_store {backend : Backend σ} (hs : w.runner.store = some backend)
    (hv : w.runner.settings.validate = .ok ()) (hr : w.runner.settings.reproduce = none) :
    runProperty host property w = search host property (w.begun host) := by
  have hopen : openDatabase host (w.begun host) = (.ok (), w.begun host) := by
    have hs : (w.begun host).runner.store = some backend := hs
    rw [openDatabase, runner_bind, hs]
    rfl
  have hr : (w.begun host).runner.settings.reproduce = none := hr
  rw [runProperty_of_valid host property hv, bind_of_ok hopen, runner_bind, hr]

/-- The cases from the database that a run tries, if it tries any. -/
def tryStored (property : Property) (settings : Settings) : RunM σ (Option Case) :=
  if settings.hasPhase .reuse then reuse property else pure none

theorem runs_tryStored {S : CaseSource → Prop} {R : World σ → World σ → Prop}
    {E : RunError → Prop} (hR : StoreFrame S R) (hs : S .database)
    (hE : ∀ message, E (.invalidArgument message)) (property : Property) (settings : Settings) :
    Runs R E (tryStored property settings : RunM σ (Option Case)) := by
  unfold tryStored
  split
  · exact runs_reuse hR hs hE property
  · exact runs_pure hR.toFrame none

theorem resolveSeed_apply (host : Host σ) (w : World σ) :
    resolveSeed host w = (.ok (w.runSeed host), w) := by
  unfold resolveSeed World.runSeed
  rw [runner_bind]
  rcases w.runner.settings.seed with _ | seed
  · dsimp only
    split <;> rfl
  · rfl

theorem search_apply (host : Host σ) (property : Property) (w : World σ) :
    ∃ v, w.Told v ∧ search host property w = (tryStored property w.runner.settings >>=
      proceed property (w.runSeed host) w.runner.settings) v := by
  obtain ⟨⟨⟩, v, h, t⟩ :=
    ends_tellPhase s!"running {w.runner.name} with seed {(w.runSeed host).toNat}" w
  refine ⟨v, t, ?_⟩
  rw [search_eq, bind_of_ok (resolveSeed_apply host w), runner_bind, bind_of_ok h]
  unfold tryStored
  split <;> rfl

/-- The same for a whole run whose store is there already. -/
theorem runProperty_apply (host : Host σ) (property : Property) {backend : Backend σ}
    (hs : w.runner.store = some backend)
    (hv : w.runner.settings.validate = .ok ()) (hr : w.runner.settings.reproduce = none) :
    ∃ v, (w.begun host).Told v ∧ runProperty host property w =
      (tryStored property w.runner.settings >>=
        proceed property (w.runSeed host) w.runner.settings) v := by
  obtain ⟨v, t, h⟩ := search_apply host property (w.begun host)
  exact ⟨v, t, (runProperty_of_store hs hv hr).trans h⟩

/-- A run that fails has concluded from a case that failed: one from the database, or a new one. -/
theorem search_concludes {result : RunResult} {reason : FailureReason}
    (h : search host property w = (.ok result, w')) (ho : result.outcome = .failed reason) :
    ∃ v, w.Told v ∧
      ((∃ initial w₁, tryStored property w.runner.settings v = (.ok (some initial), w₁) ∧
        conclude property initial true (w.runSeed host) w₁ = (.ok result, w')) ∨
      ∃ initial w₁ w₂, tryStored property w.runner.settings v = (.ok none, w₁) ∧
        w₁.runner.interrupted = false ∧
        generate property (w.runSeed host) w₁ = (.ok (.failed initial), w₂) ∧
        conclude property initial false (w.runSeed host) w₂ = (.ok result, w')) := by
  obtain ⟨v, t, hv⟩ := search_apply host property w
  refine ⟨v, t, ?_⟩
  obtain ⟨reused, w₁, h₁, h₂⟩ := bind_eq_ok (hv.symm.trans h)
  rcases reused with _ | initial
  · refine .inr ?_
    rw [proceed, runner_bind] at h₂
    split at h₂
    · cases (finish_outcome h₂).symm.trans ho
    · rename_i hi
      split at h₂
      · obtain ⟨ending, w₂, hg, h₃⟩ := bind_eq_ok h₂
        rcases ending with _ | initial | reason' | failure
        · cases (finish_outcome h₃).symm.trans ho
        · exact ⟨initial, w₁, w₂, h₁, by simpa using hi, hg, h₃⟩
        · cases (finish_outcome h₃).symm.trans ho
        · cases (finish_outcome h₃).symm.trans ho
      · cases (finish_outcome h₂).symm.trans ho
  · exact .inl ⟨initial, w₁, h₁, h₂⟩

end RunM

end Falsify
