import Falsify.Proofs.Run.Recorded
import Falsify.Proofs.Run.Twins

/-!
# The database cannot influence what a seed finds

A run whose seed is fixed makes the same cases with any database, and comes to the same result, as
long as nothing in the database fails: the entries that it tries, and the trouble that it has with
them, leave no trace in what comes after.

* `conclude_twins`, `proceed_twins`: two runs that have come equally far end in the same way;
* `World.Harmless`, `runProperty_harmless`: entries that do not fail lead to nothing;
* `database_without_influence`: so two runs with different databases do the same.
-/

namespace Falsify

namespace RunM

open World

variable {σ τ : Type} {w w' : World σ} {v v' : World τ} {property property' : Property}
  {body : Body (Except CaseError Unit)}

/-! ## What becomes of a failing case -/

theorem simplify_twins (hp : property.Plays body) (hp' : property'.Plays body)
    {initial initial' : Case} (hi : initial'.untimed = initial.untimed) (h : Twins w v)
    (hw : Calm (simplify property initial w)) (hv : Calm (simplify property' initial' v)) :
    Agree id (simplify property initial w) (simplify property' initial' v) := by
  have hdraws : initial'.draws = initial.draws := (congrArg Case.draws hi :)
  have hreason : initial'.outcome.failure? = initial.outcome.failure? :=
    (congrArg (fun c => c.outcome.failure?) hi :)
  have hphase : v.runner.settings.hasPhase .shrink = w.runner.settings.hasPhase .shrink :=
    (congrArg (fun s => s.hasPhase .shrink) h.settings :)
  revert hw hv
  unfold simplify
  rw [runner_bind, runner_bind, hphase, hreason]
  rcases w.runner.settings.hasPhase .shrink <;> rcases initial.outcome.failure? with _ | reason
  case true.some => exact shrink_twins hp hp' hdraws reason h
  all_goals exact fun _ _ => agree_pure hdraws h

/-- What is reported of a case, without times. -/
def untimedReport (r : Outcome × Case) : Outcome × Case :=
  (r.1, r.2.untimed)

theorem retry_twins (hp : property.Plays body) (hp' : property'.Plays body)
    {initial initial' : Case} (hi : initial'.untimed = initial.untimed) (best : Draws)
    (name : String) (h : Twins w v)
    (hw : Calm (retry property initial best name w))
    (hv : Calm (retry property' initial' best name v)) :
    Agree (Option.map Case.untimed) (retry property initial best name w)
      (retry property' initial' best name v) := by
  have hdraws : initial'.draws = initial.draws := (congrArg Case.draws hi :)
  revert hw hv
  unfold retry
  rw [hdraws]
  refine Agree.ite (fun _ _ _ => agree_pure rfl h) fun _ => ?_
  refine Agree.told (ends_tell _ _) (ends_tell _ _) h fun h₁ => ?_
  refine Agree.execute hp hp' _ (by decide) _ h₁ fun {c c'} _ _ _ hc h₂ _ _ => ?_
  have ho : c'.outcome = c.outcome := (congrArg Case.outcome hc :)
  refine agree_pure ?_ h₂
  rw [ho]
  split
  · exact congrArg some hc
  · rfl

theorem finalReplay_twins (hp : property.Plays body) (hp' : property'.Plays body)
    {initial initial' : Case} (hi : initial'.untimed = initial.untimed) (best : Draws)
    (h : Twins w v) (hw : Calm (finalReplay property initial best w))
    (hv : Calm (finalReplay property' initial' best v)) :
    Agree untimedReport (finalReplay property initial best w)
      (finalReplay property' initial' best v) := by
  revert hw hv
  rw [finalReplay_eq, finalReplay_eq]
  refine Agree.idle (idle_setMode _) (idle_setMode _) h fun h₁ => ?_
  refine Agree.execute hp hp' _ (by decide) _ h₁ fun {c c' w₂ v₂} _ hc h₂ => ?_
  have ho : c'.outcome = c.outcome := (congrArg Case.outcome hc :)
  have hfirst : initial'.outcome = initial.outcome := (congrArg Case.outcome hi :)
  rw [ho]
  refine Agree.ite (fun _ => ?_) fun _ => ?_
  · exact Agree.after (runs_withStore kept_frame.toStoreFrame _ _)
      (runs_withStore kept_frame.toStoreFrame _ _) h₂ fun h₃ _ _ =>
        agree_pure (congrArg (Prod.mk c.outcome) hc) h₃
  · rw [runner_bind, runner_bind, h₂.name]
    refine Agree.bind (f := Option.map Case.untimed) (retry_twins hp hp' hi best _ h₂)
      (fun _ => runs_settle onward_frame.toPlayFrame _ _ _)
      (fun _ => runs_settle onward_frame.toPlayFrame _ _ _) fun {again again' _ _} ha h₃ => ?_
    rcases again with _ | first <;> rcases again' with _ | first'
    · unfold settle
      rw [hfirst]
      exact Agree.told (ends_tell _ _) (ends_tell _ _) h₃ fun h₄ _ _ =>
        agree_pure (congrArg (Prod.mk _) hi) h₄
    · cases ha
    · cases ha
    · have hf : first'.untimed = first.untimed := Option.some.inj ha
      exact fun _ _ =>
        agree_pure (Prod.ext (congrArg Case.outcome hf :) hf) h₃

theorem finish_twins (outcome : Outcome) (example? : Option Counterexample)
    (health : Option HealthFailure) (seed : Option UInt64) (h : Twins w v) :
    Agree RunResult.uncounted (finish outcome example? health seed w)
      (finish outcome example? health seed v) := by
  obtain ⟨w', hw, tw⟩ := finish_apply outcome example? health seed w
  obtain ⟨v', hv, tv⟩ := finish_apply outcome example? health seed v
  rw [hw, hv, h.name]
  exact ⟨rfl, h.kept (kept_frame.idle tw.idle) (kept_frame.idle tv.idle) (h.left.idle tw.idle)
    (h.right.idle tv.idle)⟩

/-- A report shows no times. -/
theorem report_twins (outcome : Outcome) {c c' : Case} (hc : c'.untimed = c.untimed)
    (origin : Option UInt64) (seed : UInt64) (h : Twins w v) :
    Agree RunResult.uncounted (report outcome c origin seed w)
      (report outcome c' origin seed v) := by
  have hu : ∀ {σ : Type} (c : Case), (report outcome c origin seed : RunM σ RunResult) =
      report outcome c.untimed origin seed := fun _ => rfl
  have hprint : v.runner.settings.printToken = w.runner.settings.printToken :=
    (congrArg Settings.printToken h.settings :)
  rw [hu c', hc, hu c]
  unfold report counterexample
  rw [bind_assoc, bind_assoc, runner_bind, runner_bind, hprint, pure_bind, pure_bind]
  exact finish_twins _ _ _ _ h

/-- What becomes of a failing case. -/
theorem conclude_twins (hp : property.Plays body) (hp' : property'.Plays body)
    {initial initial' : Case} (hi : initial'.untimed = initial.untimed) (fromDatabase : Bool)
    (seed : UInt64) (h : Twins w v) (hw : Calm (conclude property initial fromDatabase seed w))
    (hv : Calm (conclude property' initial' fromDatabase seed v)) :
    Agree RunResult.uncounted (conclude property initial fromDatabase seed w)
      (conclude property' initial' fromDatabase seed v) := by
  have hr : ∀ {σ : Type} (r : Outcome × Case), Plain (report r.1 r.2
      (if fromDatabase then none else some seed) seed : RunM σ RunResult) := fun _ =>
    runs_report onward_frame.toPlayFrame _ _ _ _
  have hf : ∀ {σ : Type} (property : Property) (initial : Case) (best : Draws),
      Plain (finalReplay property initial best : RunM σ (Outcome × Case)) :=
    runs_finalReplay onward_frame.toStoreFrame trivial
  revert hw hv
  rw [conclude_eq, conclude_eq]
  refine Agree.bind (simplify_twins hp hp' hi h)
    (fun best => (hf _ _ best).bind onward_frame.toFrame fun r => hr r)
    (fun best => (hf _ _ best).bind onward_frame.toFrame fun r => hr r)
    fun {best best' _ _} hbest h₁ => ?_
  cases hbest
  refine Agree.bind (finalReplay_twins hp hp' hi best h₁) (fun r => hr r) (fun r => hr r)
    fun {r r' _ _} hrep h₂ _ _ => ?_
  obtain ⟨outcome, c⟩ := r
  obtain ⟨outcome', c'⟩ := r'
  obtain ⟨rfl, hc⟩ := Prod.mk.inj hrep
  exact report_twins _ hc _ seed h₂

/-! ## What follows from new cases -/

/-- What a run does once it has made new cases. -/
def respond (property : Property) (seed : UInt64) : GenerationEnd → RunM σ RunResult
  | .exhausted => finish .passed none none (some seed)
  | .failed c => conclude property c false seed
  | .gaveUp reason => finish (.gaveUp reason) none none (some seed)
  | .unhealthy failure => finish (.gaveUp failure.toReason) none (some failure) (some seed)

theorem plain_respond (property : Property) (seed : UInt64) (ending : GenerationEnd) :
    Plain (respond property seed ending : RunM σ RunResult) := by
  rcases ending with _ | c | reason | failure
  · exact runs_finish onward_frame.toPlayFrame _ _ _ _
  · exact runs_conclude onward_frame.toStoreFrame trivial trivial property c false seed
  · exact runs_finish onward_frame.toPlayFrame _ _ _ _
  · exact runs_finish onward_frame.toPlayFrame _ _ _ _

theorem respond_twins (hp : property.Plays body) (hp' : property'.Plays body) (seed : UInt64)
    {ending ending' : GenerationEnd} (he : ending'.untimed = ending.untimed) (h : Twins w v)
    (hw : Calm (respond property seed ending w)) (hv : Calm (respond property' seed ending' v)) :
    Agree RunResult.uncounted (respond property seed ending w)
      (respond property' seed ending' v) := by
  rcases ending with _ | c | reason | failure <;>
    rcases ending' with _ | c' | reason' | failure' <;> try cases he
  · exact finish_twins .passed none none (some seed) h
  · exact conclude_twins hp hp' (GenerationEnd.failed.inj he) false seed h hw hv
  · exact finish_twins (.gaveUp reason) none none (some seed) h
  · exact finish_twins (.gaveUp failure.toReason) none (some failure) (some seed) h

/-- What a run does if nothing in the database has failed. -/
theorem proceed_of_calm (property : Property) (seed : UInt64) (settings : Settings)
    (hi : w.runner.interrupted = false) :
    proceed property seed settings none w =
      (if settings.hasPhase .generate then generate property seed >>= respond property seed
        else finish .passed none none (some seed)) w := by
  rw [proceed, runner_bind, hi]
  rfl

theorem plain_proceed (property : Property) (seed : UInt64) (settings : Settings)
    (reused : Option Case) : Plain (proceed property seed settings reused : RunM σ RunResult) :=
  runs_proceed onward_frame (fun _ => trivial) (fun _ => trivial) property seed settings reused

theorem proceed_twins (hp : property.Plays body) (hp' : property'.Plays body) (seed : UInt64)
    {settings settings' : Settings} (hs : settings'.unfiled = settings.unfiled) (h : Twins w v)
    (hw : Calm (proceed property seed settings none w))
    (hv : Calm (proceed property' seed settings' none v)) :
    Agree RunResult.uncounted (proceed property seed settings none w)
      (proceed property' seed settings' none v) := by
  have hphase : settings'.hasPhase .generate = settings.hasPhase .generate :=
    (congrArg (fun s => s.hasPhase .generate) hs :)
  have hi := hw.before (plain_proceed property seed settings none)
  have hi' := hv.before (plain_proceed property' seed settings' none)
  revert hw hv
  rw [proceed_of_calm property seed settings hi, proceed_of_calm property' seed settings' hi',
    hphase]
  exact Agree.ite (fun _ => Agree.bind (generate_twins hp hp' seed h) (plain_respond property seed)
    (plain_respond property' seed) (respond_twins hp hp' seed)) fun _ _ _ => finish_twins _ _ _ _ h

end RunM

/-! ## Cases from the database -/

namespace World

variable {σ : Type} {w w' : World σ}

/-- No case from the database has failed, or had an argument that makes no sense. -/
def Harmless (w : World σ) : Prop :=
  ∀ c ∈ w.executed, c.source = .database →
    c.outcome.isFailure = false ∧ ∀ message, c.outcome ≠ .gaveUp (.invalidArgument message)

/-- What is harmless now has been so before. -/
theorem Harmless.before {S : CaseSource → Prop} (h : w'.Harmless) (ho : Onward S w w') :
    w.Harmless := by
  obtain ⟨cases, he, -⟩ := ho.executed
  exact fun c hc => h c (he ▸ List.mem_append_right _ hc)

end World

namespace RunM

open World

variable {σ : Type} {property : Property} {w w' : World σ}

/-- Entries that do not fail lead to nothing: by induction on the entries. -/
theorem reuseFrom_harmless (entries : List (EntryKind × Draws)) (hu : w.Unhurried)
    {r : Except RunError (Option Case)} (h : reuseFrom property entries w = (r, w'))
    (hh : w'.Harmless) : r = .ok none := by
  induction entries generalizing w with
  | nil =>
    cases h
    rfl
  | cons entry rest ih =>
    obtain ⟨kind, s⟩ := entry
    rw [reuseFrom, runner_bind] at h
    split at h
    · cases h
      rfl
    · rcases execute_cases property s .database replaySeed w with
        ⟨c, w₁, hx, hs, hr⟩ | ⟨_, _, _, hd, _⟩
      · have hu₁ := hu.ran hr
        -- A case that ends the phase is among those executed when it has ended.
        have hmem : c ∈ w₁.executed := hr.executed ▸ List.mem_cons_self
        rw [bind_of_ok hx] at h
        split at h
        · rename_i hf
          cases h
          cases (hh c hmem hs).1.symm.trans hf
        · rcases refuseInvalid_cases c w₁ with hok | ⟨message, hm, hbad⟩
          · rw [bind_of_ok hok] at h
            split at h
            · obtain ⟨⟨⟩, w₂, h₂, hu₂⟩ :=
                (runs_withStore kept_frame.toStoreFrame _ _).total hu₁
              rw [bind_of_ok h₂] at h
              exact ih hu₂ h
            · exact ih hu₁ h
          · rw [bind_of_error hbad] at h
            cases h
            exact absurd hm ((hh c hmem hs).2 message)
      · exact absurd (Deadline.tenable_of_none hu.deadline) hd

theorem reuse_harmless (hu : w.Unhurried) {r : Except RunError (Option Case)}
    (h : reuse property w = (r, w')) (hh : w'.Harmless) : r = .ok none := by
  rw [reuse_eq, runner_bind] at h
  rcases hs : w.runner.store with _ | backend <;> rw [hs] at h
  · cases h
    rfl
  · obtain ⟨loaded, w₁, h₁, hu₁⟩ := (runs_stored kept_frame.toStoreFrame _).total hu
    dsimp only at h
    rw [bind_of_ok h₁] at h
    rcases loaded with e | loaded <;> dsimp only at h
    · obtain ⟨⟨⟩, w₂, h₂, -⟩ := ends_databaseError "loading saved examples" e w₁
      rw [bind_of_ok h₂] at h
      cases h
      rfl
    · obtain ⟨⟨⟩, w₂, h₂, t₂⟩ := ends_tellLoaded loaded w₁
      obtain ⟨⟨⟩, w₃, h₃, i₃⟩ := idle_setMode .relaxed w₂
      rw [bind_of_ok h₂, bind_of_ok h₃] at h
      exact reuseFrom_harmless loaded.entries ((hu₁.idle t₂.idle).idle i₃) h hh

theorem tryStored_harmless {settings : Settings} (hu : w.Unhurried)
    {r : Except RunError (Option Case)} (h : tryStored property settings w = (r, w'))
    (hh : w'.Harmless) : r = .ok none := by
  unfold tryStored at h
  split at h
  · exact reuse_harmless hu h hh
  · cases h
    rfl

/-! ## Whole runs -/

/-- A run whose entries do not fail goes on from them as if it had none. -/
theorem runProperty_harmless (host : Host σ) (property : Property) {seed : UInt64}
    (hd : w.runner.deadline.deadline = none) (hv : w.runner.settings.validate = .ok ())
    (hr : w.runner.settings.reproduce = none) (hs : w.runner.settings.seed = some seed)
    (hh : (runProperty host property w).2.Harmless) :
    ∃ w₁, w₁.Unhurried ∧ w₁.runner.name = w.runner.name ∧
      w₁.runner.settings = w.runner.settings ∧ w₁.made = [] ∧
      runProperty host property w = proceed property seed w.runner.settings none w₁ := by
  obtain ⟨w₁, hb, hrun⟩ := runProperty_begun host property hv
  rw [hr] at hrun
  obtain ⟨w₂, t, hsearch⟩ := search_apply host property w₁
  have hseed : w₁.runSeed host = seed := by
    rw [runSeed, hb.settings, hs]
  rw [hseed, hb.settings] at hsearch
  replace hrun := hrun.trans hsearch
  have hu₂ : w₂.Unhurried := Unhurried.idle ⟨by rw [hb.deadline, hd], hb.crash⟩ t.idle
  have hk₂ : w₁.Kept w₂ := kept_frame.idle t.idle
  have htry : Runs Kept (fun _ => True) (tryStored property w.runner.settings : RunM σ _) :=
    runs_tryStored kept_frame.toStoreFrame rfl (fun _ => trivial) property _
  rcases h : tryStored property w.runner.settings w₂ with ⟨r, w₃⟩
  have hk₃ : w₂.Kept w₃ := htry.rel h
  have hh₃ : w₃.Harmless := by
    have ho := onward_of_bind (x := tryStored property w.runner.settings) (w := w₂)
      (plain_proceed property seed w.runner.settings)
    rw [← hrun, h] at ho
    exact hh.before ho
  cases tryStored_harmless hu₂ h hh₃
  refine ⟨w₃, htry.unhurried h hu₂, ?_, ?_, ?_, hrun.trans (bind_of_ok h)⟩
  · rw [hk₃.name, hk₂.name, hb.name]
  · rw [hk₃.settings, hk₂.settings, hb.settings]
  · rw [hk₃.made, hk₂.made, made, hb.executed]
    rfl

end RunM

namespace World

/-- Two runners of one name are to make cases from one seed, under the same settings but for the
database. No time matters to either. -/
structure SameSeed {σ τ : Type} (w : World σ) (v : World τ) : Prop where
  name : v.runner.name = w.runner.name
  settings : v.runner.settings.unfiled = w.runner.settings.unfiled
  seed : w.runner.settings.seed.isSome
  reproduce : w.runner.settings.reproduce = none
  left : w.runner.deadline.deadline = none
  right : v.runner.deadline.deadline = none
  slow : .tooSlow ∈ w.runner.settings.suppressed
  timeout : w.runner.settings.shrinkTimeout = none

end World

open RunM World in
/-- Two runs from one seed, with any databases of which no entry fails, make the same cases and give
the same result, or end in the same error. Only what they count is different. -/
theorem database_without_influence {σ τ : Type} {property property' : Property}
    {body : Body (Except CaseError Unit)} (hp : property.Plays body) (hp' : property'.Plays body)
    {host : Host σ} {host' : Host τ} {w : World σ} {v : World τ} (hs : w.SameSeed v)
    (hw : (runProperty host property w).2.runner.interrupted = false)
    (hv : (runProperty host' property' v).2.runner.interrupted = false)
    (hhw : (runProperty host property w).2.Harmless)
    (hhv : (runProperty host' property' v).2.Harmless) :
    (runProperty host' property' v).2.made = (runProperty host property w).2.made ∧
      (runProperty host' property' v).1.map RunResult.uncounted =
        (runProperty host property w).1.map RunResult.uncounted := by
  have hvalid : v.runner.settings.validate = w.runner.settings.validate :=
    (congrArg Settings.validate hs.settings :)
  have hseed : v.runner.settings.seed = w.runner.settings.seed :=
    (congrArg Settings.seed hs.settings :)
  have hrep : v.runner.settings.reproduce = w.runner.settings.reproduce :=
    (congrArg Settings.reproduce hs.settings :)
  obtain ⟨seed, hfixed⟩ := Option.isSome_iff_exists.1 hs.seed
  rcases hok : w.runner.settings.validate with e | ⟨⟩
  · rw [runProperty_invalid host property hok, runProperty_invalid host' property'
      (hvalid.trans hok)]
    exact ⟨rfl, rfl⟩
  · obtain ⟨w₁, hu, hn, hset, hmade, hrun⟩ :=
      runProperty_harmless host property hs.left hok hs.reproduce hfixed hhw
    obtain ⟨v₁, hu', hn', hset', hmade', hrun'⟩ :=
      runProperty_harmless host' property' hs.right (hvalid.trans hok) (hrep.trans hs.reproduce)
        (hseed.trans hfixed) hhv
    have ht : w₁.Twins v₁ :=
      { name := by rw [hn', hn, hs.name]
        settings := by rw [hset', hset, hs.settings]
        made := hmade'.trans hmade.symm
        left := hu
        right := hu'
        slow := hset ▸ hs.slow
        timeout := hset ▸ hs.timeout }
    rw [hrun] at hw ⊢
    rw [hrun'] at hv ⊢
    have ha := proceed_twins hp hp' seed hs.settings ht hw hv
    exact ⟨ha.twins.made, ha.result⟩

/-- A world whose times do not matter, about to try the test `t` with a database or without. -/
def World.steady (store : Option (Backend Memory)) (contents : Memory) : World Memory where
  runner := .create "t" {
    deadline := none, seed := some 7, phases := [.reuse, .generate], suppressed := [.tooSlow]
    shrinkTimeout := none } store []
  storage := ⟨contents, #[]⟩
  clock := .start fun _ => 0
  executed := []
  crash := none

theorem World.Harmless.of_passed {σ : Type} {w : World σ}
    (h : ∀ c ∈ w.executed, c.source = .database → c.outcome = .passed) : w.Harmless := by
  intro c hc hs
  rw [h c hc hs]
  exact ⟨rfl, nofun⟩

/-- The entry of the second world is tried there, and what the first finds is found. -/
theorem database_without_influence_refusingTrue :
    let property : Property := fun _ => .refusingTrue
    let w : World Memory := .steady none .empty
    let v : World Memory := .steady (some memoryBackend) (.holding [⟨1, 0⟩])
    (runProperty .bare property v).2.made = (runProperty .bare property w).2.made ∧
      (runProperty .bare property v).1.map RunResult.uncounted =
        (runProperty .bare property w).1.map RunResult.uncounted ∧
      (runProperty .bare property v).2.executed.length =
        (runProperty .bare property w).2.executed.length + 1 ∧
      (runProperty .bare property w).1.toOption.map RunResult.outcome =
        some (.failed (.body "no")) := by
  intro property w v
  have hs : w.SameSeed v := ⟨rfl, rfl, rfl, rfl, rfl, rfl, List.mem_singleton_self _, rfl⟩
  obtain ⟨hw, hdb, hfailed⟩ : (runProperty .bare property w).2.runner.interrupted = false ∧
      (∀ c ∈ (runProperty .bare property w).2.executed, c.source = .database →
        c.outcome = .passed) ∧
      (runProperty .bare property w).1.toOption.map RunResult.outcome =
        some (.failed (.body "no")) := by
    decide +kernel
  obtain ⟨hv, hdb', hlength⟩ : (runProperty .bare property v).2.runner.interrupted = false ∧
      (∀ c ∈ (runProperty .bare property v).2.executed, c.source = .database →
        c.outcome = .passed) ∧
      (runProperty .bare property v).2.executed.length =
        (runProperty .bare property w).2.executed.length + 1 := by
    decide +kernel
  obtain ⟨hmade, hresult⟩ := database_without_influence Body.plays_refusingTrue
    Body.plays_refusingTrue hs hw hv (.of_passed hdb) (.of_passed hdb')
  exact ⟨hmade, hresult, hlength, hfailed⟩

end Falsify
