import Falsify.Proofs.Run.Parts

/-!
# What every part of a run keeps

A run changes its world in five ways: it executes a case, it crashes over one, it does
something to its database, it notes features, or it changes what none of these depends on. A
relation between worlds that each of these steps respects holds between the start and the end of
every part of a run, whatever the body does and whatever comes of it.

* `World.Idle`, `World.Ran`, `World.Broke`, `World.Stored`, `World.Noted`: the steps;
* `RunM.PlayFrame`, `RunM.StoreFrame`, `RunM.RunFrame`: relations that the steps respect, without
  the database, with it, and with what a run knows of features;
* `runs_shrink`, `runs_conclude`, `runs_search`: parts of a run respect them, and unless the
  deadline is too long to be relaxed they end in none but the errors that they are meant to end in.
-/

namespace Falsify

/-- Once somebody has asked for the run to stop, that stands: by induction on the body. -/
theorem Body.interrupted_run {α : Type} (body : Body α) (s : CaseState) (h : s.interrupted = true) :
    (body.run s).2.interrupted = true := by
  induction body generalizing s with
  | done _ => exact h
  | crash _ => exact h
  | draw name strategy next ih =>
    obtain ⟨-, -, -, -, -, -, hd⟩ := CaseState.draw_eq s strategy
    rw [run_draw]
    split
    · exact hd.trans h
    · exact ih _ _ (hd.trans h)
    · exact ih _ _ (hd.trans h)
  | drawCount next ih => exact ih _ _ h
  | note _ next ih => exact ih _ h
  | event _ _ next ih => exact ih _ h
  | sleep _ next ih => exact ih _ h
  | interrupt next ih => exact ih _ rfl

namespace World

variable {σ : Type} {u v w w' : World σ} {c : Case}

/-- Nothing was executed and nothing stored. -/
def Idle (w w' : World σ) : Prop :=
  ∃ log clock mode sinks attempts shrinks, w' = { w with
    storage := { w.storage with log := log }
    clock := clock
    runner := { w.runner with
      deadline := { w.runner.deadline with mode := mode }
      sinks := sinks
      statistics := { w.runner.statistics with shrinkAttempts := attempts, shrinks := shrinks } } }

/-- A case was executed and counted. -/
def Ran (w : World σ) (c : Case) (w' : World σ) : Prop :=
  ∃ log clock sinks interrupted, (w.runner.interrupted = true → interrupted = true) ∧ w' = { w with
    storage := { w.storage with log := log }
    clock := clock
    executed := c :: w.executed
    runner := { w.runner with
      sinks := sinks
      interrupted := interrupted
      statistics := w.runner.statistics.record c } }

/-- The run has crashed over a case. -/
def Broke (w w' : World σ) : Prop :=
  ∃ clock interrupted crash, (w.runner.interrupted = true → interrupted = true) ∧ w' = { w with
    clock := clock
    runner := { w.runner with interrupted := interrupted }
    crash := some crash }

/-- Something was done to what is stored. -/
def Stored (w w' : World σ) : Prop :=
  ∃ storage, w' = { w with storage := storage }

/-- What the run knows of features is another thing now. -/
def Noted (w w' : World σ) : Prop :=
  ∃ features saved, w' = { w with
    runner := { w.runner with seenFeatures := features, coveringSaved := saved } }

theorem idle_frame : RunM.Frame (Idle (σ := σ)) where
  refl _ := ⟨_, _, _, _, _, _, rfl⟩
  trans := by
    rintro u _ _ ⟨_, _, _, _, _, _, rfl⟩ ⟨_, _, _, _, _, _, rfl⟩
    exact ⟨_, _, _, _, _, _, rfl⟩

theorem Told.idle (h : w.Told w') : w.Idle w' := by
  obtain ⟨sinks, log, rfl⟩ := h
  exact ⟨log, _, _, sinks, _, _, rfl⟩

theorem Idle.executed (h : w.Idle w') : w'.executed = w.executed := by
  obtain ⟨_, _, _, _, _, _, rfl⟩ := h
  rfl

theorem Ran.executed (h : w.Ran c w') : w'.executed = c :: w.executed := by
  obtain ⟨_, _, _, _, -, rfl⟩ := h
  rfl

theorem Broke.executed (h : w.Broke w') : w'.executed = w.executed := by
  obtain ⟨_, _, _, -, rfl⟩ := h
  rfl

/-- The deadline is this one and can be relaxed, and the run has not crashed. -/
structure Steady (d : Option Duration) (w : World σ) : Prop where
  deadline : w.runner.deadline.deadline = d
  tenable : w.runner.deadline.Tenable
  crash : w.crash = none

theorem Steady.congr {d : Option Duration} (h : w.Steady d)
    (hd : w'.runner.deadline.deadline = w.runner.deadline.deadline) (hc : w'.crash = w.crash) :
    w'.Steady d :=
  ⟨hd.trans h.deadline, h.tenable.congr hd, hc.trans h.crash⟩

theorem Steady.idle {d : Option Duration} (h : w.Steady d) (h' : w.Idle w') : w'.Steady d := by
  obtain ⟨_, _, _, _, _, _, rfl⟩ := h'
  exact h.congr rfl rfl

theorem Steady.ran {d : Option Duration} (h : w.Steady d) (h' : w.Ran c w') : w'.Steady d := by
  obtain ⟨_, _, _, _, -, rfl⟩ := h'
  exact h.congr rfl rfl

/-- There is no deadline, and the run has not crashed. -/
structure Unhurried (w : World σ) : Prop where
  deadline : w.runner.deadline.deadline = none
  crash : w.crash = none

theorem Unhurried.steady (h : w.Unhurried) : w.Steady none :=
  ⟨h.deadline, Deadline.tenable_of_none h.deadline, h.crash⟩

theorem Unhurried.idle (h : w.Unhurried) (h' : w.Idle w') : w'.Unhurried := by
  obtain ⟨_, _, _, _, _, _, rfl⟩ := h'
  exact ⟨h.deadline, h.crash⟩

theorem Unhurried.ran (h : w.Unhurried) (h' : w.Ran c w') : w'.Unhurried := by
  obtain ⟨_, _, _, _, -, rfl⟩ := h'
  exact ⟨h.deadline, h.crash⟩

end World

namespace RunM

open World

variable {σ α β : Type} {property : Property} {w w' : World σ}

/-- What an execution comes to: a case, or a crash of the run if the deadline is too long. -/
theorem execute_cases (property : Property) (forced : Draws) (source : CaseSource) (seed : UInt64)
    (w : World σ) :
    (∃ c w', execute property forced source seed w = (.ok c, w') ∧ c.source = source ∧
      w.Ran c w') ∨
    ∃ c w', execute property forced source seed w = (.error (.crashed c), w') ∧
      ¬ w.runner.deadline.Tenable ∧ w.Broke w' := by
  have hint := (property w.executed).interrupted_run
    (.start (.replaying forced seed w.runner.settings.maxDraws) w.runner.settings.filterAttempts
      w.clock.read.2 w.runner.interrupted)
  rw [execute_apply]
  dsimp only
  generalize (property w.executed).run _ = r at hint ⊢
  rcases ho : outcomeOf w.runner.deadline (r.2.clock.read.1 - w.clock.read.1 - r.2.drawTime) r.1
    with c | outcome
  · refine .inr ⟨c, _, rfl, fun hd => ?_, ⟨_, _, c, hint, rfl⟩⟩
    obtain ⟨outcome, h⟩ := outcomeOf_of_tenable hd
      (r.2.clock.read.1 - w.clock.read.1 - r.2.drawTime) r.1
    cases ho.symm.trans h
  · obtain ⟨w', h, s, l, rfl⟩ := account_apply (σ := σ) _ _
    exact .inl ⟨_, _, h, rfl, _, _, _, _, hint, rfl⟩

theorem ran_of_execute {forced : Draws} {source : CaseSource} {seed : UInt64} {c : Case}
    (h : execute property forced source seed w = (.ok c, w')) : c.source = source ∧ w.Ran c w' := by
  rcases execute_cases property forced source seed w with
    ⟨c', w₁, hx, hs, hr⟩ | ⟨c', w₁, hx, -, -⟩ <;> cases hx.symm.trans h
  exact ⟨hs, hr⟩

/-! ## Steps that change nothing of weight -/

theorem idle_now : Ends Idle (now : RunM σ Duration) := fun w =>
  ⟨_, _, rfl, ⟨_, w.clock.read.2, _, _, _, _, rfl⟩⟩

theorem idle_setMode (mode : DeadlineMode) : Ends Idle (setMode mode : RunM σ Unit) :=
  ends_modify fun _ => ⟨_, _, _, _, _, _, rfl⟩

theorem idle_tellSearch (search : Search (World σ)) : Ends Idle (tellSearch search) := by
  refine ((ends_tell _ _).mono Told.idle).bind idle_frame fun _ => ?_
  refine Ends.bind idle_frame (ends_modify fun w => ⟨_, _, _, _, _, _, rfl⟩) fun _ => ?_
  split
  · exact (ends_tell _ _).mono Told.idle
  · exact ends_pure idle_frame ()

/-! ## Relations that a run respects -/

/-- A relation that holds across everything that leaves the database alone, if the cases executed
are for some purposes only. -/
structure PlayFrame (S : CaseSource → Prop) (R : World σ → World σ → Prop) : Prop
    extends Frame R where
  idle {w w' : World σ} : w.Idle w' → R w w'
  ran {w w' : World σ} {c : Case} : S c.source → w.Ran c w' → R w w'
  broke {w w' : World σ} : w.Broke w' → R w w'

/-- A relation that also holds across everything that is done to a database. -/
structure StoreFrame (S : CaseSource → Prop) (R : World σ → World σ → Prop) : Prop
    extends PlayFrame S R where
  stored {w w' : World σ} : w.Stored w' → R w w'

/-- A relation that holds across everything that a run does once its database is open. -/
structure RunFrame (S : CaseSource → Prop) (R : World σ → World σ → Prop) : Prop
    extends StoreFrame S R where
  noted {w w' : World σ} : w.Noted w' → R w w'

/-- A part of a run respects a relation. Unless the deadline is too long it does not crash, and the
errors that it may end in are given ones. -/
def Runs (R : World σ → World σ → Prop) (E : RunError → Prop) (x : RunM σ α) : Prop :=
  ∀ w, R w (x w).2 ∧
    ∀ d, w.Steady d → (x w).2.Steady d ∧ ∀ e, (x w).1 = .error e → E e

/-- No error at all. -/
abbrev Never (_ : RunError) : Prop := False

variable {S : CaseSource → Prop} {R : World σ → World σ → Prop} {E : RunError → Prop}
  {x : RunM σ α} {f : α → RunM σ β}

theorem Runs.rel (hx : Runs R E x) {r : Except RunError α} (h : x w = (r, w')) : R w w' := by
  have := (hx w).1
  rwa [h] at this

theorem Runs.unhurried (hx : Runs R E x) {r : Except RunError α} (h : x w = (r, w'))
    (hw : w.Unhurried) : w'.Unhurried := by
  have := ((hx w).2 none hw.steady).1
  rw [h] at this
  exact ⟨this.deadline, this.crash⟩

/-- A part that is meant to end in no error gives a result. -/
theorem Runs.total (hx : Runs R Never x) (hw : w.Unhurried) :
    ∃ a w', x w = (.ok a, w') ∧ w'.Unhurried := by
  rcases h : x w with ⟨e | a, w'⟩
  · exact (((hx w).2 none hw.steady).2 e (by rw [h])).elim
  · exact ⟨a, w', rfl, hx.unhurried h hw⟩

theorem Runs.bind (hR : Frame R) (hx : Runs R E x) (hf : ∀ a, Runs R E (f a)) :
    Runs R E (x >>= f) := by
  intro w
  obtain ⟨hr, hu⟩ := hx w
  rcases h : x w with ⟨e | a, w₁⟩ <;> rw [h] at hr hu
  · rw [bind_of_error h]
    refine ⟨hr, fun d hw => ⟨(hu d hw).1, ?_⟩⟩
    rintro _ ⟨⟩
    exact (hu d hw).2 e rfl
  · rw [bind_of_ok h]
    exact ⟨hR.trans hr (hf a w₁).1, fun d hw => (hf a w₁).2 d (hu d hw).1⟩

theorem runs_pure (hR : Frame R) (a : α) : Runs R E (pure a : RunM σ α) := fun w =>
  ⟨hR.refl w, fun _ hw => ⟨hw, nofun⟩⟩

theorem runs_throw (hR : Frame R) {e : RunError} (he : E e) : Runs R E (throw e : RunM σ α) :=
  fun w => ⟨hR.refl w, fun _ hw => ⟨hw, by rintro _ ⟨⟩; exact he⟩⟩

theorem runs_runner_bind {f : Runner σ → RunM σ β} (h : ∀ r, Runs R E (f r)) :
    Runs R E (runner >>= f) := fun w => h w.runner w

section Play

variable (hR : PlayFrame S R)

include hR

theorem Ends.runs (hx : Ends Idle x) : Runs R E x := by
  intro w
  obtain ⟨a, w', h, hi⟩ := hx w
  rw [h]
  exact ⟨hR.idle hi, fun _ hw => ⟨hw.idle hi, nofun⟩⟩

theorem Ends.runs_told (hx : Ends Told x) : Runs R E x :=
  Ends.runs hR (hx.mono Told.idle)

/-! ## Reports -/

theorem runs_counterexample (c : Case) (outcome : Outcome) (seed : Option UInt64) :
    Runs R E (counterexample c outcome seed : RunM σ Counterexample) :=
  runs_runner_bind fun _ => runs_pure hR.toFrame _

theorem runs_finish (outcome : Outcome) (example? : Option Counterexample)
    (health : Option HealthFailure) (seed : Option UInt64) :
    Runs R E (finish outcome example? health seed : RunM σ RunResult) := by
  intro w
  obtain ⟨w', h, t⟩ := finish_apply outcome example? health seed w
  rw [h]
  exact ⟨hR.idle t.idle, fun _ hw => ⟨hw.idle t.idle, nofun⟩⟩

theorem runs_report (outcome : Outcome) (c : Case) (origin : Option UInt64) (seed : UInt64) :
    Runs R E (report outcome c origin seed : RunM σ RunResult) :=
  (runs_counterexample hR _ _ _).bind hR.toFrame fun _ => runs_finish hR _ _ _ _

/-! ## Executions -/

theorem runs_execute (property : Property) (forced : Draws) {source : CaseSource} (hs : S source)
    (seed : UInt64) : Runs R E (execute property forced source seed : RunM σ Case) := by
  intro w
  rcases execute_cases property forced source seed w with
    ⟨c, w', h, rfl, hr⟩ | ⟨c, w', h, hd, hb⟩ <;> rw [h]
  · exact ⟨hR.ran hs hr, fun _ hw => ⟨hw.ran hr, nofun⟩⟩
  · exact ⟨hR.broke hb, fun _ hw => absurd hw.tenable hd⟩

/-- A trial of a search, and what a search asks of the clock. -/
theorem rel_oracle (hs : S .shrinking) (property : Property) (origin : Origin) (began : Duration)
    (candidate : Draws) (w : World σ) :
    let o := oracle property origin began
    (R w (o.trial candidate w).2 ∧ ∀ d, w.Steady d → (o.trial candidate w).2.Steady d) ∧
      (R w (o.elapsed w).2 ∧ ∀ d, w.Steady d → (o.elapsed w).2.Steady d) := by
  intro o
  have hi : w.Idle (o.elapsed w).2 := ⟨_, w.clock.read.2, _, _, _, _, rfl⟩
  refine ⟨?_, hR.idle hi, fun _ hw => hw.idle hi⟩
  have hx := runs_execute hR (E := Never) property candidate hs replaySeed w
  dsimp only [o, oracle]
  split
  · exact ⟨hR.refl w, fun _ => id⟩
  · rcases h : execute property candidate .shrinking replaySeed w with ⟨e | c, w'⟩ <;>
      rw [h] at hx <;> exact ⟨hx.1, fun d hw => (hx.2 d hw).1⟩

/-- A search respects what its trials respect: by induction on its steps. -/
theorem rel_search (hs : S .shrinking) {property : Property} {origin : Origin}
    {began : Duration} {b : ShrinkBudget} {s t : Search (World σ)}
    (h : Search.Reaches (oracle property origin began) b s t) :
    R s.world t.world ∧ ∀ d, s.world.Steady d → t.world.Steady d := by
  have hb : ∀ s : Search (World σ),
      R s.world (s.checkBudget (oracle property origin began) b).world ∧
        ∀ d, s.world.Steady d →
          (s.checkBudget (oracle property origin began) b).world.Steady d := by
    intro s
    rcases Search.world_checkBudget (oracle property origin began) b s with hw | hw <;> rw [hw]
    · exact ⟨hR.refl _, fun _ => id⟩
    · exact (rel_oracle hR hs property origin began [] s.world).2
  induction h with
  | refl => exact ⟨hR.refl _, fun _ => id⟩
  | @tail s _ _ hstep ih =>
    obtain ⟨c, -, rfl⟩ := hstep
    have hc := Search.considered (oracle property origin began) b c s
    generalize s.consider (oracle property origin began) b c = r at hc
    obtain ⟨hbr, hbu⟩ := hb s
    have ho := (rel_oracle hR hs property origin began c
      (s.checkBudget (oracle property origin began) b).world).1
    cases hc with
    | same => exact ih
    | skipped => exact ih
    | exhausted => exact ⟨hR.trans ih.1 hbr, fun d => hbu d ∘ ih.2 d⟩
    | refused answer world _ _ _ ht =>
      rw [ht] at ho
      exact ⟨hR.trans ih.1 (hR.trans hbr ho.1), fun d => ho.2 d ∘ hbu d ∘ ih.2 d⟩
    | improved r world _ _ _ ht =>
      rw [ht] at ho
      exact ⟨hR.trans ih.1 (hR.trans hbr ho.1), fun d => ho.2 d ∘ hbu d ∘ ih.2 d⟩

theorem runs_shrink (hs : S .shrinking) (property : Property) (initial : Case)
    (reason : FailureReason) : Runs R E (shrink property initial reason : RunM σ Draws) := by
  rw [shrink_eq]
  refine (Ends.runs_told hR (ends_tellPhase _)).bind hR.toFrame fun _ =>
    (Ends.runs hR (idle_setMode _)).bind hR.toFrame fun _ => runs_runner_bind fun r =>
      (Ends.runs hR idle_now).bind hR.toFrame fun began w => ?_
  obtain ⟨hr, hu⟩ := rel_search hR hs
    (Search.reaches_run (o := oracle property reason.origin began)
      (b := r.settings.shrinkBudget) (Search.start initial.draws w))
  change R w (leave _ w).2 ∧ ∀ d, w.Steady d → (leave _ w).2.Steady d ∧
    ∀ e, (leave _ w).1 = .error e → E e
  generalize (Search.start initial.draws w).run (oracle property reason.origin began)
    r.settings.shrinkBudget = search at hr hu
  rcases hc : search.world.crash with _ | c
  · have hlast := (Ends.runs hR (idle_tellSearch search) (E := E)).bind hR.toFrame
      (fun _ => runs_pure hR.toFrame search.current) search.world
    rw [leave_of_no_crash hc]
    exact ⟨hR.trans hr hlast.1, fun d => hlast.2 d ∘ hu d⟩
  · rw [leave_of_crash hc]
    refine ⟨hr, fun d hw => ?_⟩
    have := (hu d hw).crash
    rw [hc] at this
    cases this

theorem runs_simplify (hs : S .shrinking) (property : Property) (initial : Case) :
    Runs R E (simplify property initial : RunM σ Draws) := by
  refine runs_runner_bind fun r => ?_
  split
  · exact runs_shrink hR hs property initial _
  · exact runs_pure hR.toFrame _

theorem runs_retry (hs : S .finalReplay) (property : Property) (initial : Case) (best : Draws)
    (name : String) : Runs R E (retry property initial best name : RunM σ (Option Case)) := by
  unfold retry
  split
  · exact runs_pure hR.toFrame _
  · exact (Ends.runs_told hR (ends_tell _ _)).bind hR.toFrame fun _ =>
      (runs_execute hR property _ hs _).bind hR.toFrame fun _ => runs_pure hR.toFrame _

theorem runs_settle (initial : Case) (name : String) (again : Option Case) :
    Runs R E (settle initial name again : RunM σ (Outcome × Case)) := by
  rcases again with _ | first
  · exact (Ends.runs_told hR (ends_tell _ _)).bind hR.toFrame fun _ => runs_pure hR.toFrame _
  · exact runs_pure hR.toFrame _

end Play

theorem runs_refuseInvalid (hR : Frame R) (hE : ∀ m, E (.invalidArgument m)) (c : Case) :
    Runs R E (refuseInvalid c : RunM σ Unit) := by
  unfold refuseInvalid
  split
  · exact runs_throw hR (hE _)
  · exact runs_pure hR ()

/-! ## What is done with a database -/

section Store

variable (hR : StoreFrame S R)

include hR

theorem runs_stored (x : StoreM σ α) : Runs R E (stored x) := fun w =>
  ⟨hR.stored ⟨(x w.storage).2, rfl⟩, fun _ hw => ⟨hw.congr rfl rfl, nofun⟩⟩

theorem runs_withStore (activity : String) (op : Backend σ → Key → StoreM σ Unit) :
    Runs R E (withStore activity op) := by
  refine runs_runner_bind fun r => ?_
  split
  · exact runs_pure hR.toFrame ()
  · refine Runs.bind hR.toFrame (runs_stored hR _) fun answer => ?_
    split
    · exact runs_pure hR.toFrame ()
    · exact Ends.runs_told hR.toPlayFrame (ends_databaseError _ _)

theorem runs_saveFailure (c : Case) : Runs R E (saveFailure c : RunM σ Unit) :=
  (Ends.runs_told hR.toPlayFrame (ends_tell _ _)).bind hR.toFrame fun _ => runs_withStore hR _ _

/-! ## Phases -/

theorem runs_reuseFrom (hs : S .database) (hE : ∀ m, E (.invalidArgument m)) (property : Property)
    (entries : List (EntryKind × Draws)) :
    Runs R E (reuseFrom property entries : RunM σ (Option Case)) := by
  induction entries with
  | nil => exact runs_pure hR.toFrame _
  | cons entry rest ih =>
    refine runs_runner_bind fun r => ?_
    split
    · exact runs_pure hR.toFrame _
    · refine (runs_execute hR.toPlayFrame property _ hs _).bind hR.toFrame fun c => ?_
      split
      · exact runs_pure hR.toFrame _
      · refine (runs_refuseInvalid hR.toFrame hE c).bind hR.toFrame fun _ => ?_
        split
        · exact (runs_withStore hR _ _).bind hR.toFrame fun _ => ih
        · exact ih

theorem runs_reuse (hs : S .database) (hE : ∀ m, E (.invalidArgument m)) (property : Property) :
    Runs R E (reuse property : RunM σ (Option Case)) := by
  rw [reuse_eq]
  refine runs_runner_bind fun r => ?_
  split
  · exact runs_pure hR.toFrame _
  · refine (runs_stored hR _).bind hR.toFrame fun loaded => ?_
    split
    · exact (Ends.runs_told hR.toPlayFrame (ends_databaseError _ _)).bind hR.toFrame fun _ =>
        runs_pure hR.toFrame _
    · exact (Ends.runs_told hR.toPlayFrame (ends_tellLoaded _)).bind hR.toFrame fun _ =>
        (Ends.runs hR.toPlayFrame (idle_setMode _)).bind hR.toFrame fun _ =>
          runs_reuseFrom hR hs hE property _

theorem runs_finalReplay (hs : S .finalReplay) (property : Property) (initial : Case)
    (best : Draws) : Runs R E (finalReplay property initial best : RunM σ (Outcome × Case)) := by
  rw [finalReplay_eq]
  refine (Ends.runs hR.toPlayFrame (idle_setMode _)).bind hR.toFrame fun _ =>
    (runs_execute hR.toPlayFrame property _ hs _).bind hR.toFrame fun c => ?_
  split
  · exact (runs_withStore hR _ _).bind hR.toFrame fun _ => runs_pure hR.toFrame _
  · exact runs_runner_bind fun r =>
      (runs_retry hR.toPlayFrame hs property initial best r.name).bind hR.toFrame fun _ =>
        runs_settle hR.toPlayFrame initial r.name _

theorem runs_conclude (hs : S .shrinking) (hf : S .finalReplay) (property : Property)
    (initial : Case) (fromDatabase : Bool) (seed : UInt64) :
    Runs R E (conclude property initial fromDatabase seed : RunM σ RunResult) := by
  rw [conclude_eq]
  exact (runs_simplify hR.toPlayFrame hs property initial).bind hR.toFrame fun best =>
    (runs_finalReplay hR hf property initial best).bind hR.toFrame fun _ =>
      runs_report hR.toPlayFrame _ _ _ _

/-! ## Whole searches -/

/-- Once the cases in the database have been tried, a run respects what making new ones does. -/
theorem runs_proceed_of_generate (hS : ∀ source, S source) {property : Property} {seed : UInt64}
    (hg : Runs R E (generate property seed : RunM σ GenerationEnd)) (settings : Settings)
    (reused : Option Case) :
    Runs R E (proceed property seed settings reused : RunM σ RunResult) := by
  unfold proceed
  split
  · exact runs_conclude hR (hS _) (hS _) property _ _ _
  · refine runs_runner_bind fun r => ?_
    split
    · exact runs_finish hR.toPlayFrame _ _ _ _
    · split
      · refine hg.bind hR.toFrame fun ending => ?_
        split
        · exact runs_finish hR.toPlayFrame _ _ _ _
        · exact runs_conclude hR (hS _) (hS _) property _ _ _
        · exact runs_finish hR.toPlayFrame _ _ _ _
        · exact runs_finish hR.toPlayFrame _ _ _ _
      · exact runs_finish hR.toPlayFrame _ _ _ _

theorem runs_search_of_generate (hS : ∀ source, S source) (hE : ∀ m, E (.invalidArgument m))
    (host : Host σ) {property : Property}
    (hg : ∀ seed, Runs R E (generate property seed : RunM σ GenerationEnd)) :
    Runs R E (search host property) := by
  rw [search_eq]
  refine (Ends.runs_told hR.toPlayFrame (ends_resolveSeed host)).bind hR.toFrame fun seed =>
    runs_runner_bind fun r =>
      (Ends.runs_told hR.toPlayFrame (ends_tellPhase _)).bind hR.toFrame fun _ => ?_
  split
  · exact (runs_reuse hR (hS _) hE property).bind hR.toFrame fun _ =>
      runs_proceed_of_generate hR hS (hg _) _ _
  · exact (runs_pure hR.toFrame none).bind hR.toFrame fun _ =>
      runs_proceed_of_generate hR hS (hg _) _ _

end Store

/-! ## New cases -/

section Run

variable (hR : RunFrame S R)

include hR

theorem runs_note {features : Runner σ → Std.HashSet (String × String)} {saved : Runner σ → Nat} :
    Runs R E (modifyRunner fun r =>
      { r with seenFeatures := features r, coveringSaved := saved r } : RunM σ Unit) := fun _ =>
  ⟨hR.noted ⟨_, _, rfl⟩, fun _ hw => ⟨hw.congr rfl rfl, nofun⟩⟩

theorem runs_saveIfCovering (c : Case) : Runs R E (saveIfCovering c : RunM σ Unit) := by
  refine runs_runner_bind fun r => ?_
  split
  · refine (runs_note hR).bind hR.toFrame fun _ => ?_
    split
    · exact (runs_note hR).bind hR.toFrame fun _ => runs_withStore hR.toStoreFrame _ _
    · exact runs_pure hR.toFrame ()
  · exact runs_pure hR.toFrame ()

theorem runs_keep (c : Case) : Runs R E (keep c : RunM σ Unit) := by
  unfold keep
  split
  · exact runs_saveIfCovering hR c
  · exact runs_pure hR.toFrame ()

theorem runs_generateFrom (hs : S .generated) (hE : ∀ m, E (.invalidArgument m))
    (property : Property) (maxExamples maxInvalid : Nat) (seeds : ChaCha8)
    (monitor : HealthMonitor) (valid invalid : Nat) :
    Runs R E (generateFrom property maxExamples maxInvalid seeds monitor valid invalid :
      RunM σ GenerationEnd) := by
  induction hn : (maxExamples - valid) + (maxInvalid - invalid) using Nat.strongRecOn
    generalizing seeds monitor valid invalid with
  | _ n ih =>
    rw [generateFrom_eq]
    split
    · refine runs_runner_bind fun r => ?_
      split
      · exact runs_pure hR.toFrame _
      · refine (runs_execute hR.toPlayFrame property _ hs _).bind hR.toFrame fun c => ?_
        split
        · exact (runs_saveFailure hR.toStoreFrame c).bind hR.toFrame fun _ => runs_pure hR.toFrame _
        · refine (runs_refuseInvalid hR.toFrame hE c).bind hR.toFrame fun _ =>
            (runs_keep hR c).bind hR.toFrame fun _ => ?_
          unfold judge
          split
          · exact (Ends.runs_told hR.toPlayFrame (ends_tellUnhealthy _)).bind hR.toFrame fun _ =>
              runs_pure hR.toFrame _
          · split <;> split
            · exact runs_pure hR.toFrame _
            · exact ih _ (by omega) _ _ _ _ rfl
            · exact runs_pure hR.toFrame _
            · exact ih _ (by omega) _ _ _ _ rfl
    · exact runs_pure hR.toFrame _

theorem runs_generate (hs : S .generated) (hE : ∀ m, E (.invalidArgument m)) (property : Property)
    (seed : UInt64) : Runs R E (generate property seed : RunM σ GenerationEnd) :=
  runs_runner_bind fun _ =>
    (Ends.runs_told hR.toPlayFrame (ends_tellPhase _)).bind hR.toFrame fun _ =>
      (Ends.runs hR.toPlayFrame (idle_setMode _)).bind hR.toFrame fun _ =>
        runs_generateFrom hR hs hE property _ _ _ _ _ _

theorem runs_proceed (hS : ∀ source, S source) (hE : ∀ m, E (.invalidArgument m))
    (property : Property) (seed : UInt64) (settings : Settings) (reused : Option Case) :
    Runs R E (proceed property seed settings reused : RunM σ RunResult) :=
  runs_proceed_of_generate hR.toStoreFrame hS (runs_generate hR (hS _) hE property seed) settings
    reused

theorem runs_search (hS : ∀ source, S source) (hE : ∀ m, E (.invalidArgument m)) (host : Host σ)
    (property : Property) : Runs R E (search host property) :=
  runs_search_of_generate hR.toStoreFrame hS hE host
    (runs_generate hR (hS _) hE property)

end Run

end RunM

/-! ## What no part of a run takes back -/

namespace World

variable {σ : Type} {w w' : World σ}

/-- The runner is the same but for what a run counts and observes. A request to stop stands. Cases
are only added, for some purposes only, and each of them is counted. -/
structure Onward (S : CaseSource → Prop) (w w' : World σ) : Prop where
  name : w'.runner.name = w.runner.name
  settings : w'.runner.settings = w.runner.settings
  key : w'.runner.key = w.runner.key
  store : w'.runner.store = w.runner.store
  deadline : w'.runner.deadline.deadline = w.runner.deadline.deadline
  interrupted : w.runner.interrupted = true → w'.runner.interrupted = true
  executed : ∃ cases, w'.executed = cases ++ w.executed ∧ (∀ c ∈ cases, S c.source) ∧
    w'.runner.statistics.databaseReplays =
      w.runner.statistics.databaseReplays + cases.countP fun c => c.source = .database

variable {S S' : CaseSource → Prop}

theorem Onward.mono (h : Onward S w w') (hS : ∀ source, S source → S' source) :
    Onward S' w w' := by
  obtain ⟨cases, he, hc, hr⟩ := h.executed
  exact ⟨h.name, h.settings, h.key, h.store, h.deadline, h.interrupted, cases, he,
    fun c hm => hS _ (hc c hm), hr⟩

theorem Onward.trans {u v w : World σ} (h : Onward S u v) (h' : Onward S v w) : Onward S u w := by
  obtain ⟨cases, he, hc, hr⟩ := h.executed
  obtain ⟨later, he', hc', hr'⟩ := h'.executed
  refine ⟨h'.name.trans h.name, h'.settings.trans h.settings, h'.key.trans h.key,
    h'.store.trans h.store, h'.deadline.trans h.deadline, h'.interrupted ∘ h.interrupted,
    later ++ cases, by rw [he', he, List.append_assoc], ?_, ?_⟩
  · exact fun c hm => (List.mem_append.1 hm).elim (hc' c) (hc c)
  · rw [hr', hr, List.countP_append]
    omega

theorem Onward.of_same {w w' : World σ} (hn : w'.runner.name = w.runner.name)
    (hs : w'.runner.settings = w.runner.settings) (hk : w'.runner.key = w.runner.key)
    (ht : w'.runner.store = w.runner.store)
    (hd : w'.runner.deadline.deadline = w.runner.deadline.deadline)
    (hi : w.runner.interrupted = true → w'.runner.interrupted = true)
    (he : w'.executed = w.executed)
    (hr : w'.runner.statistics.databaseReplays = w.runner.statistics.databaseReplays) :
    Onward S w w' :=
  ⟨hn, hs, hk, ht, hd, hi, [], he, by simp, hr⟩

theorem onward_frame : RunM.RunFrame S (Onward (σ := σ) S) where
  refl w := .of_same rfl rfl rfl rfl rfl id rfl rfl
  trans := Onward.trans
  idle := by
    rintro w _ ⟨_, _, _, _, _, _, rfl⟩
    exact .of_same rfl rfl rfl rfl rfl id rfl rfl
  ran := by
    rintro w _ c hs ⟨_, _, _, _, hi, rfl⟩
    refine ⟨rfl, rfl, rfl, rfl, rfl, hi, [c], rfl, by simpa using hs, ?_⟩
    simp [Statistics.record, List.countP_cons]
  broke := by
    rintro w _ ⟨_, _, _, hi, rfl⟩
    exact .of_same rfl rfl rfl rfl rfl hi rfl rfl
  stored := by
    rintro w _ ⟨_, rfl⟩
    exact .of_same rfl rfl rfl rfl rfl id rfl rfl
  noted := by
    rintro w _ ⟨_, _, rfl⟩
    exact .of_same rfl rfl rfl rfl rfl id rfl rfl

/-- What is stored stays as it is. -/
def Unstored (w w' : World σ) : Prop :=
  w'.storage.contents = w.storage.contents

theorem Ran.unstored {c : Case} (h : w.Ran c w') : w.Unstored w' := by
  obtain ⟨_, _, _, _, -, rfl⟩ := h
  rfl

theorem Idle.unstored (h : w.Idle w') : w.Unstored w' := by
  obtain ⟨_, _, _, _, _, _, rfl⟩ := h
  rfl

theorem unstored_frame : RunM.PlayFrame S (Unstored (σ := σ)) where
  refl _ := rfl
  trans h h' := h'.trans h
  idle := Idle.unstored
  ran _ := Ran.unstored
  broke := by
    rintro w _ ⟨_, _, _, -, rfl⟩
    rfl

/-- What the run knows of features stays as it is. -/
def Unnoted (w w' : World σ) : Prop :=
  w'.runner.seenFeatures = w.runner.seenFeatures ∧
    w'.runner.coveringSaved = w.runner.coveringSaved

theorem unnoted_frame : RunM.StoreFrame S (Unnoted (σ := σ)) where
  refl _ := ⟨rfl, rfl⟩
  trans h h' := ⟨h'.1.trans h.1, h'.2.trans h.2⟩
  idle := by
    rintro w _ ⟨_, _, _, _, _, _, rfl⟩
    exact ⟨rfl, rfl⟩
  ran := by
    rintro w _ c - ⟨_, _, _, _, -, rfl⟩
    exact ⟨rfl, rfl⟩
  broke := by
    rintro w _ ⟨_, _, _, -, rfl⟩
    exact ⟨rfl, rfl⟩
  stored := by
    rintro w _ ⟨_, rfl⟩
    exact ⟨rfl, rfl⟩

end World

end Falsify
