import Falsify.Proofs.Run.Corpora
import Falsify.Proofs.Run.Pace
import Falsify.Proofs.Shrink.Mirror

/-!
# Runs side by side

Two runs of one body whose settings differ in nothing but the database do the same, as long as
nobody asks one of them to stop: the same cases are made, in the same order, and the same comes of
each part. What is different is what they store, how long they take and what they tell.

* `World.made`: the cases of a run that are not from its database, without their times;
* `World.Twins`, `Agree`: two runs have come equally far, and with the same result;
* `execute_twins`, `generate_twins`: two runs make the same new cases;
* `shrink_twins`: they find the same simplest failure, since each search shows what a search
  without a run would come to.
-/

namespace Falsify

/-- A case without what says how long it took. -/
def Case.untimed (c : Case) : Case :=
  { c with timing := ⟨.zero, .zero⟩ }

theorem Case.timeless_eq {c c' : Case} (h : c'.untimed = c.untimed) : c'.timeless = c.timeless := by
  have ht : ∀ c : Case, c.timeless = c.untimed.timeless := fun _ => rfl
  rw [ht, ht c, h]

theorem Case.untimed_eq {c c' : Case} (ht : c'.timeless = c.timeless) (hs : c'.source = c.source) :
    c'.untimed = c.untimed := by
  have h : ∀ c : Case, c.untimed = { c.timeless with source := c.source } := fun _ => rfl
  rw [h, h, ht, hs]

/-- How making cases came to its end, whatever time it took. -/
def GenerationEnd.untimed : GenerationEnd → GenerationEnd
  | .failed c => .failed c.untimed
  | ending => ending

/-- Settings without what they say of a database. -/
def Settings.unfiled (s : Settings) : Settings :=
  { s with database := none }

theorem Body.replay_congr (body : Body (Except CaseError Unit)) {limits limits' : Settings}
    (h : limits'.unfiled = limits.unfiled) : body.replay limits' = body.replay limits := by
  have hm : limits'.maxDraws = limits.maxDraws := (congrArg Settings.maxDraws h :)
  have ha : limits'.filterAttempts = limits.filterAttempts := (congrArg Settings.filterAttempts h :)
  funext s
  rw [Body.replay, Body.replay, hm, ha]

/-- A result without what it counts. -/
def RunResult.uncounted (r : RunResult) : RunResult :=
  { r with statistics := {} }

namespace World

variable {σ τ : Type} {w w' : World σ} {v v' : World τ}

/-- The cases of a run that are not from its database, without their times, the latest first. -/
def made (w : World σ) : List Case :=
  (w.executed.filter fun c => c.source ≠ .database).map Case.untimed

theorem made_of_executed {c : Case} (h : w'.executed = c :: w.executed)
    (hs : c.source ≠ .database) : w'.made = c.untimed :: w.made := by
  rw [made, h, List.filter_cons_of_pos (by simpa using hs)]
  rfl

/-- The runner has the same name and settings, and no cases were made but from the database. -/
structure Kept (w w' : World σ) : Prop where
  name : w'.runner.name = w.runner.name
  settings : w'.runner.settings = w.runner.settings
  made : w'.made = w.made

theorem kept_frame : RunM.RunFrame (· = .database) (Kept (σ := σ)) where
  refl _ := ⟨rfl, rfl, rfl⟩
  trans h h' := ⟨h'.name.trans h.name, h'.settings.trans h.settings, h'.made.trans h.made⟩
  idle := by
    rintro w _ ⟨_, _, _, _, _, _, rfl⟩
    exact ⟨rfl, rfl, rfl⟩
  ran := by
    rintro w _ c hs ⟨_, _, _, _, -, rfl⟩
    refine ⟨rfl, rfl, congrArg (List.map Case.untimed) (List.filter_cons_of_neg ?_)⟩
    simp [hs]
  broke := by
    rintro w _ ⟨_, _, _, -, rfl⟩
    exact ⟨rfl, rfl, rfl⟩
  stored := by
    rintro w _ ⟨_, rfl⟩
    exact ⟨rfl, rfl, rfl⟩
  noted := by
    rintro w _ ⟨_, _, rfl⟩
    exact ⟨rfl, rfl, rfl⟩

/-- Two runs under the same settings have made the same cases so far. No time matters to them. -/
structure Twins (w : World σ) (v : World τ) : Prop where
  name : v.runner.name = w.runner.name
  settings : v.runner.settings.unfiled = w.runner.settings.unfiled
  made : v.made = w.made
  left : w.Unhurried
  right : v.Unhurried
  slow : .tooSlow ∈ w.runner.settings.suppressed
  timeout : w.runner.settings.shrinkTimeout = none

theorem Twins.onward {S S' : CaseSource → Prop} (h : Twins w v) (hw : Onward S w w')
    (hv : Onward S' v v') (hm : v'.made = w'.made) (hl : w'.Unhurried) (hr : v'.Unhurried) :
    Twins w' v' where
  name := hv.name.trans (h.name.trans hw.name.symm)
  settings := by rw [hv.settings, hw.settings, h.settings]
  made := hm
  left := hl
  right := hr
  slow := hw.settings ▸ h.slow
  timeout := hw.settings ▸ h.timeout

theorem Twins.kept (h : Twins w v) (hw : w.Kept w') (hv : v.Kept v') (hl : w'.Unhurried)
    (hr : v'.Unhurried) : Twins w' v' where
  name := hv.name.trans (h.name.trans hw.name.symm)
  settings := by rw [hv.settings, hw.settings, h.settings]
  made := hv.made.trans (h.made.trans hw.made.symm)
  left := hl
  right := hr
  slow := hw.settings ▸ h.slow
  timeout := hw.settings ▸ h.timeout

end World

namespace RunM

open World

variable {σ τ α β γ δ : Type} {w w' : World σ} {v v' : World τ}

/-! ## Parts that agree -/

/-- Nobody has asked the run to stop up to some point. -/
def Calm (r : Except RunError α × World σ) : Prop :=
  r.2.runner.interrupted = false

/-- Two runs came equally far, with results that are the same but for what does not matter. -/
structure Agree (f : α → γ) (x : Except RunError α × World σ) (y : Except RunError α × World τ) :
    Prop where
  result : y.1.map f = x.1.map f
  twins : x.2.Twins y.2

variable {x : RunM σ α} {y : RunM τ α} {k : α → RunM σ β} {k' : α → RunM τ β} {f : α → γ}
  {g : β → δ}

/-- A part of a run makes cases and changes the runner as any part does. -/
abbrev Plain (x : RunM σ α) : Prop :=
  Runs (Onward fun _ => True) (fun _ => True) x

/-- A request to stop would have stood. -/
theorem Calm.before (hx : Plain x) (h : Calm (x w)) : w.runner.interrupted = false := by
  by_contra hi
  cases h.symm.trans ((hx w).1.interrupted (by simpa using hi))

/-- What comes after a part goes on from where it has ended. -/
theorem onward_of_bind (hk : ∀ a, Plain (k a)) :
    Onward (fun _ => True) (x w).2 ((x >>= k) w).2 := by
  rcases hx : x w with ⟨e | a, w₁⟩
  · rw [bind_of_error hx]
    exact onward_frame.refl w₁
  · rw [bind_of_ok hx]
    exact (hk a w₁).1

theorem Calm.of_bind (hk : ∀ a, Plain (k a)) (h : Calm ((x >>= k) w)) : Calm (x w) := by
  by_contra hi
  cases h.symm.trans ((onward_of_bind hk).interrupted (by simpa [Calm] using hi))

/-- One part after another: if both agree, so does the whole. -/
theorem Agree.bind (hx : Calm (x w) → Calm (y v) → Agree f (x w) (y v)) (hk : ∀ a, Plain (k a))
    (hk' : ∀ a, Plain (k' a))
    (h : ∀ {a a' w' v'}, f a' = f a → Twins w' v' → Calm (k a w') → Calm (k' a' v') →
      Agree g (k a w') (k' a' v'))
    (hw : Calm ((x >>= k) w)) (hv : Calm ((y >>= k') v)) :
    Agree g ((x >>= k) w) ((y >>= k') v) := by
  obtain ⟨hr, ht⟩ := hx (.of_bind hk hw) (.of_bind hk' hv)
  rcases hx : x w with ⟨e | a, w₁⟩ <;> rcases hy : y v with ⟨e' | a', v₁⟩ <;> rw [hx, hy] at hr ht
  · cases hr
    rw [bind_of_error hx, bind_of_error hy]
    exact ⟨rfl, ht⟩
  · cases hr
  · cases hr
  · rw [bind_of_ok hx] at hw ⊢
    rw [bind_of_ok hy] at hv ⊢
    exact h (Except.ok.inj hr) ht hw hv

/-- The same if the first part makes no case and cannot end in an error. -/
theorem Agree.after {x : RunM σ α} {y : RunM τ β} {k : α → RunM σ γ} {k' : β → RunM τ γ}
    {g : γ → δ} (hx : Runs Kept Never x) (hy : Runs Kept Never y) (h : Twins w v)
    (hk : ∀ {a b w' v'}, Twins w' v' → Calm (k a w') → Calm (k' b v') →
      Agree g (k a w') (k' b v'))
    (hw : Calm ((x >>= k) w)) (hv : Calm ((y >>= k') v)) :
    Agree g ((x >>= k) w) ((y >>= k') v) := by
  obtain ⟨a, w₁, hxw, hl⟩ := hx.total h.left
  obtain ⟨b, v₁, hyv, hr⟩ := hy.total h.right
  have ht := h.kept (hx.rel hxw) (hy.rel hyv) hl hr
  rw [bind_of_ok hxw] at hw ⊢
  rw [bind_of_ok hyv] at hv ⊢
  exact hk ht hw hv

/-- The same if nothing of weight is done first. -/
theorem Agree.idle {x : RunM σ α} {y : RunM τ β} {k : α → RunM σ γ} {k' : β → RunM τ γ}
    {g : γ → δ} (hx : Ends Idle x) (hy : Ends Idle y) (h : Twins w v)
    (hk : ∀ {a b w' v'}, Twins w' v' → Calm (k a w') → Calm (k' b v') →
      Agree g (k a w') (k' b v')) :
    Calm ((x >>= k) w) → Calm ((y >>= k') v) → Agree g ((x >>= k) w) ((y >>= k') v) :=
  Agree.after (Ends.runs kept_frame.toPlayFrame hx) (Ends.runs kept_frame.toPlayFrame hy) h hk

theorem Agree.told {x : RunM σ α} {y : RunM τ β} {k : α → RunM σ γ} {k' : β → RunM τ γ}
    {g : γ → δ} (hx : Ends Told x) (hy : Ends Told y) (h : Twins w v)
    (hk : ∀ {a b w' v'}, Twins w' v' → Calm (k a w') → Calm (k' b v') →
      Agree g (k a w') (k' b v')) :
    Calm ((x >>= k) w) → Calm ((y >>= k') v) → Agree g ((x >>= k) w) ((y >>= k') v) :=
  Agree.idle (hx.mono Told.idle) (hy.mono Told.idle) h hk

theorem agree_pure {a b : α} (hab : f b = f a) (h : Twins w v) :
    Agree f ((pure a : RunM σ α) w) ((pure b : RunM τ α) v) :=
  ⟨congrArg Except.ok hab, h⟩

/-- Two runs make the same choice. -/
theorem Agree.ite {p : Prop} [Decidable p] {x x' : RunM σ α} {y y' : RunM τ α}
    (h : p → Calm (x w) → Calm (y v) → Agree f (x w) (y v))
    (h' : ¬ p → Calm (x' w) → Calm (y' v) → Agree f (x' w) (y' v))
    (hw : Calm ((if p then x else x') w)) (hv : Calm ((if p then y else y') v)) :
    Agree f ((if p then x else x') w) ((if p then y else y') v) := by
  by_cases hp : p
  · rw [if_pos hp] at hw hv ⊢
    rw [if_pos hp]
    exact h hp hw hv
  · rw [if_neg hp] at hw hv ⊢
    rw [if_neg hp]
    exact h' hp hw hv

/-! ## Executions -/

section Executions

variable {property property' : Property} {body : Body (Except CaseError Unit)}
  (hp : property.Plays body) (hp' : property'.Plays body)

include hp hp'

/-- Both runs make the same case. -/
theorem execute_twins (forced : Draws) {source : CaseSource} (hs : source ≠ .database)
    (seed : UInt64) (h : Twins w v) :
    ∃ c w' c' v', execute property forced source seed w = (.ok c, w') ∧
      execute property' forced source seed v = (.ok c', v') ∧ c.source = source ∧
      c'.untimed = c.untimed ∧ Twins w' v' := by
  obtain ⟨c, w', hx, he⟩ := execute_ok hp forced source seed h.left.deadline
  obtain ⟨c', v', hx', he'⟩ := execute_ok hp' forced source seed h.right.deadline
  have hm : v.runner.settings.maxDraws = w.runner.settings.maxDraws :=
    (congrArg Settings.maxDraws h.settings :)
  have ha : v.runner.settings.filterAttempts = w.runner.settings.filterAttempts :=
    (congrArg Settings.filterAttempts h.settings :)
  have hc : c'.untimed = c.untimed := Case.untimed_eq (by rw [he.result, he'.result, hm, ha])
    (he'.source.trans he.source.symm)
  have ho : Onward (fun _ => True) w w' := onward_frame.ran trivial (ran_of_execute hx).2
  have ho' : Onward (fun _ => True) v v' := onward_frame.ran trivial (ran_of_execute hx').2
  refine ⟨c, w', c', v', hx, hx', he.source, hc, h.onward ho ho' ?_
    (h.left.ran (ran_of_execute hx).2) (h.right.ran (ran_of_execute hx').2)⟩
  rw [made_of_executed he.executed (he.source ▸ hs),
    made_of_executed he'.executed (he'.source ▸ hs), hc, h.made]

/-- The same in front of another part. -/
theorem Agree.execute (forced : Draws) {source : CaseSource} (hs : source ≠ .database)
    (seed : UInt64) (h : Twins w v) {k : Case → RunM σ α} {k' : Case → RunM τ α}
    (hk : ∀ {c c' w' v'}, c.source = source → c'.untimed = c.untimed → Twins w' v' →
      Calm (k c w') → Calm (k' c' v') → Agree f (k c w') (k' c' v'))
    (hw : Calm ((execute property forced source seed >>= k) w))
    (hv : Calm ((execute property' forced source seed >>= k') v)) :
    Agree f ((execute property forced source seed >>= k) w)
      ((execute property' forced source seed >>= k') v) := by
  obtain ⟨c, w', c', v', hx, hx', hsource, hc, ht⟩ := execute_twins hp hp' forced hs seed h
  rw [bind_of_ok hx] at hw ⊢
  rw [bind_of_ok hx'] at hv ⊢
  exact hk hsource hc ht hw hv

end Executions

/-- Two runs refuse the same cases. -/
theorem Agree.refuse {c c' : Case} (hc : c'.untimed = c.untimed) (h : Twins w v)
    {k : RunM σ α} {k' : RunM τ α} (hk : Calm (k w) → Calm (k' v) → Agree f (k w) (k' v))
    (hw : Calm ((refuseInvalid c >>= fun _ => k) w))
    (hv : Calm ((refuseInvalid c' >>= fun _ => k') v)) :
    Agree f ((refuseInvalid c >>= fun _ => k) w) ((refuseInvalid c' >>= fun _ => k') v) := by
  have ho : c'.outcome = c.outcome := (congrArg Case.outcome hc :)
  revert hw hv
  unfold refuseInvalid
  rw [ho]
  rcases c.outcome with _ | _ | (_ | _ | message | _ | _ | _)
  case gaveUp.invalidArgument => exact fun _ _ => ⟨rfl, h⟩
  all_goals exact hk

/-! ## New cases -/

section Generation

variable {property property' : Property} {body : Body (Except CaseError Unit)}

theorem plain_generateFrom (property : Property) (maxExamples maxInvalid : Nat) (seeds : ChaCha8)
    (monitor : HealthMonitor) (valid invalid : Nat) :
    Plain (generateFrom property maxExamples maxInvalid seeds monitor valid invalid :
      RunM σ GenerationEnd) :=
  runs_generateFrom onward_frame trivial (fun _ => trivial) property _ _ _ _ _ _

/-- What is done next if more cases are to be made. -/
theorem generateFrom_of_calm (property : Property) {maxExamples maxInvalid : Nat} {seeds : ChaCha8}
    {monitor : HealthMonitor} {valid invalid : Nat} (hlt : valid < maxExamples)
    (hi : w.runner.interrupted = false) :
    generateFrom property maxExamples maxInvalid seeds monitor valid invalid w = (do
      let c ← execute property [] .generated seeds.next.1
      if c.outcome.isFailure then
        saveFailure c
        return GenerationEnd.failed c
      else
        refuseInvalid c
        keep c
        judge property maxExamples maxInvalid seeds.next.2 monitor valid invalid c) w := by
  rw [generateFrom_eq, if_pos hlt, runner_bind, if_neg (by simp [hi])]

/-- Two runs go on in the same way after a case, or stop for the same reason, if what they do after
more cases is the same. -/
theorem judge_twins {maxExamples maxInvalid : Nat} {seeds : ChaCha8}
    {monitor monitor' : HealthMonitor} {valid invalid : Nat} {c c' : Case}
    (hlt : valid < maxExamples) (hc : c'.untimed = c.untimed) (hs : c.source = .generated)
    (hm : monitor'.paceless = monitor.paceless) (hslow : .tooSlow ∈ monitor.suppressed)
    (h : Twins w v)
    (hnext : ∀ {next next' : HealthMonitor} {valid' invalid' : Nat},
      (maxExamples - valid') + (maxInvalid - invalid') <
        (maxExamples - valid) + (maxInvalid - invalid) →
      next'.paceless = next.paceless → .tooSlow ∈ next.suppressed →
      Calm (generateFrom property maxExamples maxInvalid seeds next valid' invalid' w) →
      Calm (generateFrom property' maxExamples maxInvalid seeds next' valid' invalid' v) →
      Agree GenerationEnd.untimed
        (generateFrom property maxExamples maxInvalid seeds next valid' invalid' w)
        (generateFrom property' maxExamples maxInvalid seeds next' valid' invalid' v)) :
    Calm (judge property maxExamples maxInvalid seeds monitor valid invalid c w) →
    Calm (judge property' maxExamples maxInvalid seeds monitor' valid invalid c' v) →
    Agree GenerationEnd.untimed
      (judge property maxExamples maxInvalid seeds monitor valid invalid c w)
      (judge property' maxExamples maxInvalid seeds monitor' valid invalid c' v) := by
  have ho : c'.outcome = c.outcome := (congrArg Case.outcome hc :)
  have hs' : c'.source = .generated := (congrArg Case.source hc :).trans hs
  -- The monitors differ in nothing but times, so the same check fires or none does.
  obtain ⟨hfirst, hmonitor⟩ :=
    HealthMonitor.observe_alike hm hslow hs hs' (Case.timeless_eq hc)
  rw [← HealthMonitor.suppressed_observe monitor c] at hslow
  unfold judge
  rw [ho]
  generalize monitor.observe c = r at hfirst hmonitor hslow ⊢
  generalize monitor'.observe c' = r' at hfirst hmonitor ⊢
  rcases r with ⟨_ | failure, next⟩ <;> rcases r' with ⟨_ | failure', next'⟩
  · refine Agree.ite (fun _ => ?_) fun _ => ?_
    · exact Agree.ite (fun _ _ _ => agree_pure rfl h) fun _ =>
        hnext (by omega) hmonitor hslow
    · exact Agree.ite (fun _ _ _ => agree_pure rfl h) fun _ =>
        hnext (by omega) hmonitor hslow
  · cases hfirst
  · cases hfirst
  · cases hfirst
    exact Agree.told (ends_tellUnhealthy _) (ends_tellUnhealthy _) h fun h₁ _ _ =>
      agree_pure rfl h₁

/-- Both runs make the same cases, and stop for the same reason: by induction on how many may still
be made. -/
theorem generateFrom_twins (hp : property.Plays body) (hp' : property'.Plays body)
    (maxExamples maxInvalid : Nat) (seeds : ChaCha8) {monitor monitor' : HealthMonitor}
    (valid invalid : Nat) (hm : monitor'.paceless = monitor.paceless)
    (hslow : .tooSlow ∈ monitor.suppressed) (h : Twins w v)
    (hw : Calm (generateFrom property maxExamples maxInvalid seeds monitor valid invalid w))
    (hv : Calm (generateFrom property' maxExamples maxInvalid seeds monitor' valid invalid v)) :
    Agree GenerationEnd.untimed
      (generateFrom property maxExamples maxInvalid seeds monitor valid invalid w)
      (generateFrom property' maxExamples maxInvalid seeds monitor' valid invalid v) := by
  induction hn : (maxExamples - valid) + (maxInvalid - invalid) using Nat.strongRecOn
    generalizing seeds monitor monitor' valid invalid w v with
  | _ n ih =>
    by_cases hlt : valid < maxExamples
    · have hi := hw.before (plain_generateFrom _ _ _ _ _ _ _)
      have hi' := hv.before (plain_generateFrom _ _ _ _ _ _ _)
      rw [generateFrom_of_calm property hlt hi] at hw ⊢
      rw [generateFrom_of_calm property' hlt hi'] at hv ⊢
      refine Agree.execute hp hp' _ (by decide) _ h (fun {c c'} _ _ hs hc h₁ => ?_) hw hv
      have ho : c'.outcome = c.outcome := (congrArg Case.outcome hc :)
      rw [ho]
      refine Agree.ite (fun _ => ?_) fun _ => ?_
      · exact Agree.after (runs_saveFailure kept_frame.toStoreFrame c)
          (runs_saveFailure kept_frame.toStoreFrame c') h₁ fun h₂ _ _ =>
            agree_pure (congrArg GenerationEnd.failed hc) h₂
      · refine Agree.refuse hc h₁ (Agree.after (runs_keep kept_frame c) (runs_keep kept_frame c')
          h₁ fun h₂ => judge_twins hlt hc hs hm hslow h₂ fun hless hm' hslow' hw hv => ?_)
        exact ih _ (hn ▸ hless) _ _ _ hm' hslow' h₂ hw hv rfl
    · rw [generateFrom_eq, if_neg hlt, generateFrom_eq, if_neg hlt]
      exact agree_pure rfl h

theorem generate_twins (hp : property.Plays body) (hp' : property'.Plays body) (seed : UInt64)
    (h : Twins w v) (hw : Calm (generate property seed w)) (hv : Calm (generate property' seed v)) :
    Agree GenerationEnd.untimed (generate property seed w) (generate property' seed v) := by
  have hmax : v.runner.settings.maxExamples = w.runner.settings.maxExamples :=
    (congrArg Settings.maxExamples h.settings :)
  have hretries : v.runner.settings.maxFilterRetries = w.runner.settings.maxFilterRetries :=
    (congrArg Settings.maxFilterRetries h.settings :)
  have hlimits : v.runner.settings.healthLimits = w.runner.settings.healthLimits :=
    (congrArg Settings.healthLimits h.settings :)
  have hsup : v.runner.settings.suppressed = w.runner.settings.suppressed :=
    (congrArg Settings.suppressed h.settings :)
  revert hw hv
  unfold generate
  rw [runner_bind, runner_bind, hmax, hretries, hlimits, hsup]
  exact Agree.told (ends_tellPhase _) (ends_tellPhase _) h fun h₁ =>
    Agree.idle (idle_setMode _) (idle_setMode _) h₁ fun h₂ =>
      generateFrom_twins hp hp' _ _ _ _ _ rfl h.slow h₂

end Generation

/-! ## Searches -/

/-- What a search can tell of a run: its cases, if nobody has asked it to stop. -/
def watch (limits : Settings) : Mirror (World σ) (List Case) where
  good w := w.Unhurried ∧ w.runner.interrupted = false ∧ w.runner.settings = limits
  image := World.made

/-- The case that a body makes of a candidate. -/
def tried (body : Body (Except CaseError Unit)) (limits : Settings) (candidate : Draws) : Case :=
  { body.replay limits candidate with source := .shrinking }

/-- Trials that the body answers by itself. -/
def rehearsal (body : Body (Except CaseError Unit)) (limits : Settings) (origin : Origin) :
    Oracle (List Case) where
  trial candidate := fun made =>
    let c := tried body limits candidate
    (if c.outcome.failsAs origin then some c.draws else none, c :: made)
  elapsed := fun made => (.zero, made)

section Shrinking

variable {property property' : Property} {body : Body (Except CaseError Unit)}

/-- The trials of a search are answered by the body. -/
theorem reflects_oracle (hp : property.Plays body) (limits : Settings) (origin : Origin)
    (began : Duration) (candidate : Draws) :
    (watch limits).Reflects ((oracle property origin began).trial candidate : StateM (World σ) _)
      ((rehearsal body limits origin).trial candidate) := by
  intro w hgood
  unfold oracle at hgood ⊢
  dsimp only at hgood ⊢
  by_cases hstop : (w.runner.interrupted || w.crash.isSome) = true
  · rw [if_pos hstop] at hgood
    rw [hgood.2.1, hgood.1.crash] at hstop
    cases hstop
  · rw [if_neg hstop] at hgood ⊢
    rcases execute_cases property candidate .shrinking replaySeed w with
      ⟨c, w', hx, hsource, hran⟩ | ⟨c, w', hx, -, hbroke⟩ <;> rw [hx] at hgood ⊢
    · obtain ⟨hu, hi, hset⟩ := hgood
      have ho : Onward (fun _ => True) w w' := onward_frame.ran trivial hran
      obtain ⟨hcalm, hcrash⟩ := Bool.or_eq_false_iff.1 (eq_false_of_ne_true hstop)
      obtain ⟨c₁, w₁, hx₁, he⟩ := execute_ok hp candidate .shrinking replaySeed
        (ho.deadline.symm.trans hu.deadline)
      cases hx₁.symm.trans hx
      have hset₀ : w.runner.settings = limits := ho.settings.symm.trans hset
      have hc : tried body limits candidate = c.untimed := by
        rw [tried, ← hset₀, Body.replay, ← he.result, ← hsource]
        rfl
      refine ⟨⟨⟨ho.deadline.symm.trans hu.deadline, ?_⟩, hcalm, hset₀⟩, ?_⟩
      · exact he.crash.symm.trans hu.crash
      · have hmade : w'.made = c.untimed :: w.made :=
          made_of_executed he.executed (by rw [hsource]; decide)
        unfold rehearsal watch
        dsimp only
        rw [hc, hmade]
        rfl
    · obtain ⟨_, _, _, -, rfl⟩ := hbroke
      cases hgood.1.crash

/-- What a search comes to shows in what comes of it without a run. -/
theorem leave_watch (hp : property.Plays body) (origin : Origin) (began : Duration)
    {b : ShrinkBudget} (hb : b.timeout = none) (initial : Draws) (hu : w.Unhurried)
    (hc : Calm (leave ((Search.start initial w).run (oracle property origin began) b) w)) :
    let r := (Search.start initial w.made).run (rehearsal body w.runner.settings origin) b
    ∃ w', leave ((Search.start initial w).run (oracle property origin began) b) w =
      (.ok r.current, w') ∧ w'.made = r.world ∧ Onward (fun _ => True) w w' ∧ w'.Unhurried := by
  intro r
  have hall : (watch (σ := σ) w.runner.settings).search.Follows
      (Search.run (oracle property origin began) b)
      (Search.run (rehearsal body w.runner.settings origin) b) :=
    Mirror.follows_run (reflects_oracle hp w.runner.settings origin began) (.inl hb)
  have hfollow := hall (Search.start initial w)
  obtain ⟨ho, hus⟩ := rel_search (onward_frame (S := fun _ => True)).toPlayFrame trivial
    (Search.reaches_run (o := oracle property origin began) (b := b) (Search.start initial w))
  generalize (Search.start initial w).run (oracle property origin began) b = search at *
  have hsteady := hus none hu.steady
  have hend : search.world.Unhurried := ⟨hsteady.deadline, hsteady.crash⟩
  rw [leave_of_no_crash hend.crash] at hc ⊢
  obtain ⟨⟨⟩, w', h, hi⟩ := idle_tellSearch search search.world
  rw [bind_of_ok h] at hc ⊢
  -- What the search ends in is known to show all of it only if nobody has asked it to stop.
  have hcalm : search.world.runner.interrupted = false := by
    obtain ⟨_, _, _, _, _, _, rfl⟩ := hi
    exact hc
  obtain ⟨-, himage⟩ := hfollow ⟨hend, hcalm, ho.settings⟩
  have hr : r = (watch w.runner.settings).search.image search := himage
  refine ⟨w', ?_, ?_, ho.trans (onward_frame.idle hi), hend.idle hi⟩
  · rw [hr]
    rfl
  · rw [hr]
    exact (kept_frame.idle hi).made

/-- Both searches find the same. -/
theorem shrink_twins (hp : property.Plays body) (hp' : property'.Plays body)
    {initial initial' : Case} (hi : initial'.draws = initial.draws) (reason : FailureReason)
    (h : Twins w v) (hw : Calm (shrink property initial reason w))
    (hv : Calm (shrink property' initial' reason v)) :
    Agree id (shrink property initial reason w) (shrink property' initial' reason v) := by
  revert hw hv
  rw [shrink_eq, shrink_eq, hi]
  refine Agree.told (ends_tellPhase _) (ends_tellPhase _) h fun h₁ =>
    Agree.idle (idle_setMode _) (idle_setMode _) h₁ fun {_ _ w₂ v₂} h₂ => ?_
  rw [runner_bind, runner_bind]
  refine Agree.idle idle_now idle_now h₂ fun {began began' w₃ v₃} h₃ hw hv => ?_
  have hbudget : v₂.runner.settings.shrinkBudget = w₂.runner.settings.shrinkBudget :=
    (congrArg Settings.shrinkBudget h₂.settings :)
  have hrehearsal : rehearsal body v₃.runner.settings = rehearsal body w₃.runner.settings := by
    unfold rehearsal tried
    rw [body.replay_congr h₃.settings]
  have hb : w₂.runner.settings.shrinkBudget.timeout = none := h₂.timeout
  rw [hbudget] at hv ⊢
  obtain ⟨w₄, hl, hmade, ho, hu⟩ := leave_watch hp reason.origin began hb initial.draws h₃.left hw
  obtain ⟨v₄, hr, hmade', ho', hu'⟩ :=
    leave_watch hp' reason.origin began' hb initial.draws h₃.right hv
  rw [hrehearsal, h₃.made] at hr hmade'
  refine (show Agree id (leave _ w₃) (leave _ v₃) from ?_)
  rw [hl, hr]
  exact ⟨rfl, h₃.onward ho ho' (hmade'.trans hmade.symm) hu hu'⟩

end Shrinking

end RunM

end Falsify
