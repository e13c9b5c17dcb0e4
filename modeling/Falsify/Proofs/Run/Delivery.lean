import Falsify.Proofs.Run.Corpora

/-!
# What receivers get

A run hands each case that it counts to its receivers, and messages besides. Between two cases
they get nothing but messages. What these two steps keep holds whenever a part of a run gives a
result.

* `Sink.receiveAll`: a receiver after some records;
* `World.Spoke`, `World.Logged`: only messages were handed on; a case was counted and handed on;
* `Leads`: what holds after a part of a run that gives a result;
* `Ledger`: what the two steps keep, and `leads_reuse`, `leads_generate`, `leads_finalReplay`,
  `leads_finish`: the phases keep it.
-/

namespace Falsify

/-- The record of a case, as opposed to a message. -/
def Observation.isTestCase : Observation → Bool
  | .testCase _ => true
  | .info _ | .alert _ | .error _ => false

/-- A receiver that has been handed some records. -/
def Sink.receiveAll (records : List Observation) (sink : Sink) : Sink :=
  records.foldl (fun sink o => (sink.deliver o).1) sink

theorem Sink.receiveAll_append (earlier later : List Observation) :
    receiveAll (earlier ++ later) = receiveAll later ∘ receiveAll earlier :=
  funext fun _ => List.foldl_append

/-- A receiver that keeps records has all that it was handed, in order. -/
theorem Sink.receiveAll_collecting (records : List Observation) (kept : Array Observation) :
    receiveAll records (.collecting kept) = .collecting (kept ++ records.toArray) := by
  induction records generalizing kept with
  | nil => simp [receiveAll]
  | cons o rest ih =>
    change receiveAll rest (.collecting (kept.push o)) = _
    rw [ih]
    simp

/-- What a run puts on its records, and what it has counted. -/
structure Sheet where
  name : String
  settings : Settings
  runStart : Float
  interrupted : Bool
  statistics : Statistics
  executed : List Case
  crash : Option Crash

/-- The case is what came of a call of the body. -/
def Case.CameOf (c : Case) (body : Body (Except CaseError Unit)) : Prop :=
  ∃ start deadline execution outcome source,
    outcomeOf deadline execution (body.run start).1 = .ok outcome ∧
      c = (body.run start).2.toCase outcome execution source (body.run start).1.crashMessage?

namespace World

variable {σ : Type} {property : Property} {w w' : World σ} {c : Case}

def sheet (w : World σ) : Sheet where
  name := w.runner.name
  settings := w.runner.settings
  runStart := w.runner.runStart
  interrupted := w.runner.interrupted
  statistics := w.runner.statistics
  executed := w.executed
  crash := w.crash

/-- Nothing was executed or counted, and receivers were handed nothing but messages. -/
structure Spoke (w w' : World σ) : Prop where
  sheet : w'.sheet = w.sheet
  sinks : ∃ records : List Observation, (∀ o ∈ records, o.isTestCase = false) ∧
    w'.runner.sinks = w.runner.sinks.map (Sink.receiveAll records)

theorem Spoke.executed (h : w.Spoke w') : w'.executed = w.executed :=
  congrArg Sheet.executed h.sheet

theorem Spoke.interrupted (h : w.Spoke w') : w'.runner.interrupted = w.runner.interrupted :=
  congrArg Sheet.interrupted h.sheet

/-- The same if receivers were handed nothing at all. -/
theorem spoke_of_same (h : w'.sheet = w.sheet) (hs : w'.runner.sinks = w.runner.sinks) :
    Spoke w w' :=
  ⟨h, [], nofun, hs.trans (List.map_id _).symm⟩

theorem spoke_frame : RunM.Frame (Spoke (σ := σ)) where
  refl _ := spoke_of_same rfl rfl
  trans h h' := by
    obtain ⟨records, hm, hs⟩ := h.sinks
    obtain ⟨later, hm', hs'⟩ := h'.sinks
    refine ⟨h'.sheet.trans h.sheet, records ++ later, ?_, ?_⟩
    · exact fun o ho => (List.mem_append.1 ho).elim (hm o) (hm' o)
    · rw [hs', hs, List.map_map, Sink.receiveAll_append]

/-- The body was called, and what came of that was counted and handed to the receivers. -/
structure Logged (property : Property) (w : World σ) (c : Case) (w' : World σ) : Prop where
  called : c.CameOf (property w.executed)
  sheet : ∃ interrupted, (w.runner.interrupted = true → interrupted = true) ∧
    w'.sheet = { w.sheet with
      interrupted := interrupted
      statistics := w.runner.statistics.record c
      executed := c :: w.executed }
  sinks : w'.runner.sinks = w.runner.sinks.map
    (Sink.receiveAll [c.toObservation w.runner.name w.runner.runStart])

theorem Logged.executed (h : Logged property w c w') : w'.executed = c :: w.executed := by
  obtain ⟨_, -, hs⟩ := h.sheet
  exact congrArg Sheet.executed hs

/-- Who has asked the run to stop has not done so after the case only. -/
theorem Logged.interrupted (h : Logged property w c w') (hi : w'.runner.interrupted = false) :
    w.runner.interrupted = false := by
  obtain ⟨_, hmono, hs⟩ := h.sheet
  refine Bool.eq_false_of_not_eq_true fun hw => ?_
  have := hmono hw
  subst this
  cases hi.symm.trans (congrArg Sheet.interrupted hs)

end World

namespace RunM

open World

variable {σ α β : Type}

/-! ## Messages -/

theorem spoke_tell (level : LogLevel) (text : String) :
    Ends Spoke (tell level text : RunM σ Unit) :=
  ends_modify fun _ => spoke_of_same rfl rfl

theorem spoke_tellPhase (text : String) : Ends Spoke (tellPhase text : RunM σ Unit) :=
  ends_runner_bind fun _ => spoke_tell _ text

theorem observe_apply (o : Observation) (w : World σ) :
    ∃ w', observe o w = (.ok (), w') ∧ w'.sheet = w.sheet ∧
      w'.runner.sinks = w.runner.sinks.map (Sink.receiveAll [o]) :=
  ⟨_, rfl, rfl, List.map_map⟩

theorem spoke_observe {o : Observation} (h : o.isTestCase = false) :
    Ends Spoke (observe o : RunM σ Unit) := fun w =>
  let ⟨w', hw, hsheet, hsinks⟩ := observe_apply o w
  ⟨(), w', hw, hsheet, [o], by simpa using h, hsinks⟩

theorem spoke_observeMessage {kind : MessageRecord → Observation}
    (h : ∀ record, (kind record).isTestCase = false) (title content : String) :
    Ends Spoke (observeMessage kind title content : RunM σ Unit) := by
  refine ends_runner_bind fun r => ?_
  split
  · exact ends_pure spoke_frame ()
  · exact spoke_observe (h _)

theorem spoke_databaseError (activity : String) (error : DatabaseError) :
    Ends Spoke (databaseError activity error : RunM σ Unit) :=
  ends_runner_bind fun _ => (spoke_tell _ _).bind spoke_frame fun _ =>
    spoke_observeMessage (fun _ => rfl) _ _

theorem spoke_tellUnhealthy (failure : HealthFailure) :
    Ends Spoke (tellUnhealthy failure : RunM σ Unit) :=
  ends_runner_bind fun _ => (spoke_tell _ _).bind spoke_frame fun _ =>
    spoke_observeMessage (fun _ => rfl) _ _

theorem spoke_tellLoaded (loaded : LoadedExamples) :
    Ends Spoke (tellLoaded loaded : RunM σ Unit) := by
  unfold tellLoaded
  split
  · exact (spoke_tell _ _).bind spoke_frame fun _ => spoke_tellPhase _
  · exact spoke_tellPhase _

theorem spoke_resolveSeed (host : Host σ) : Ends Spoke (resolveSeed host) := fun w =>
  ⟨_, w, resolveSeed_apply host w, spoke_frame.refl w⟩

/-! ## What is done with a database -/

theorem spoke_stored (x : StoreM σ α) : Ends Spoke (stored x) := fun w =>
  ⟨_, { w with storage := (x w.storage).2 }, rfl, spoke_of_same rfl rfl⟩

theorem spoke_withStore (activity : String) (op : Backend σ → Key → StoreM σ Unit) :
    Ends Spoke (withStore activity op) := by
  refine ends_runner_bind fun r => ?_
  split
  · exact ends_pure spoke_frame ()
  · refine (spoke_stored _).bind spoke_frame fun answer => ?_
    split
    · exact ends_pure spoke_frame ()
    · exact spoke_databaseError _ _

theorem spoke_openDatabase (host : Host σ) : Ends Spoke (openDatabase host) := by
  refine ends_runner_bind fun r => ?_
  split
  · refine (spoke_stored _).bind spoke_frame fun answer => ?_
    split
    · exact ends_modify fun _ => spoke_of_same rfl rfl
    · exact spoke_databaseError _ _
  · exact ends_pure spoke_frame ()

theorem spoke_setMode (mode : DeadlineMode) : Ends Spoke (setMode mode : RunM σ Unit) :=
  ends_modify fun _ => spoke_of_same rfl rfl

theorem spoke_now : Ends Spoke (now : RunM σ Duration) := fun w =>
  ⟨_, { w with clock := w.clock.read.2 }, rfl, spoke_of_same rfl rfl⟩

theorem spoke_keep (c : Case) : Ends Spoke (keep c : RunM σ Unit) := by
  unfold keep
  split
  · refine ends_runner_bind fun r => ?_
    split
    · refine Ends.bind spoke_frame (ends_modify fun _ => spoke_of_same rfl rfl) fun _ => ?_
      split
      · exact Ends.bind spoke_frame (ends_modify fun _ => spoke_of_same rfl rfl) fun _ =>
          spoke_withStore _ _
      · exact ends_pure spoke_frame ()
    · exact ends_pure spoke_frame ()
  · exact ends_pure spoke_frame ()

theorem spoke_saveFailure (c : Case) : Ends Spoke (saveFailure c : RunM σ Unit) :=
  (spoke_tell _ _).bind spoke_frame fun _ => spoke_withStore _ _

theorem spoke_settle (initial : Case) (name : String) (again : Option Case) :
    Ends Spoke (settle initial name again : RunM σ (Outcome × Case)) := by
  rcases again with _ | first
  · exact (spoke_tell _ _).bind spoke_frame fun _ => ends_pure spoke_frame _
  · exact ends_pure spoke_frame _

theorem spoke_finish (outcome : Outcome) (example? : Option Counterexample)
    (health : Option HealthFailure) (seed : Option UInt64) :
    Ends Spoke (finish outcome example? health seed : RunM σ RunResult) := by
  refine ends_runner_bind fun r => (spoke_tellPhase _).bind spoke_frame fun _ => ?_
  have hlast : Ends Spoke (do
      observeMessage .info "Statistics" r.statistics.text
      return ⟨r.name, outcome, example?, r.statistics, health, seed⟩ : RunM σ RunResult) :=
    (spoke_observeMessage (fun _ => rfl) _ _).bind spoke_frame fun _ => ends_pure spoke_frame _
  rcases example? with _ | e
  · exact hlast
  · exact (spoke_tell _ _).bind spoke_frame fun _ => hlast

/-! ## Cases -/

/-- Telling of a case reaches no receiver. -/
theorem tellCase_apply (c : Case) (w : World σ) :
    ∃ w', tellCase c w = (.ok (), w') ∧ w'.sheet = w.sheet ∧ w'.runner.sinks = w.runner.sinks :=
  ⟨_, rfl, rfl, rfl⟩

/-- Counting a case hands it to the receivers, if there are any. -/
theorem account_apply_sheet (c : Case) (w : World σ) :
    ∃ w', account c w = (.ok c, w') ∧
      w'.sheet = { w.sheet with
        statistics := w.runner.statistics.record c
        executed := c :: w.executed } ∧
      w'.runner.sinks = w.runner.sinks.map
        (Sink.receiveAll [c.toObservation w.runner.name w.runner.runStart]) := by
  rw [account, bind_of_ok (rfl : recordCase c w = _)]
  obtain ⟨w₁, h₁, hsheet, hsinks⟩ := tellCase_apply c
    { w with
      executed := c :: w.executed
      runner := { w.runner with statistics := w.runner.statistics.record c } }
  have hname : w₁.runner.name = w.runner.name := (congrArg Sheet.name hsheet :)
  have hstart : w₁.runner.runStart = w.runner.runStart := (congrArg Sheet.runStart hsheet :)
  rw [bind_of_ok h₁, runner_bind, hname, hstart]
  split
  · obtain ⟨w₂, h₂, hsheet', hsinks'⟩ :=
      observe_apply (c.toObservation w.runner.name w.runner.runStart) w₁
    exact ⟨w₂, bind_of_ok h₂, hsheet'.trans hsheet, by rw [hsinks', hsinks]⟩
  · rename_i hempty
    have hnil : w.runner.sinks = [] := by simpa [hsinks] using hempty
    exact ⟨w₁, rfl, hsheet, by rw [hsinks, hnil]; rfl⟩

theorem logged_of_execute {property : Property} {forced : Draws} {source : CaseSource}
    {seed : UInt64} {c : Case} {w w' : World σ}
    (h : execute property forced source seed w = (.ok c, w')) :
    c.source = source ∧ Logged property w c w' := by
  have hint := (property w.executed).interrupted_run
    (.start (.replaying forced seed w.runner.settings.maxDraws) w.runner.settings.filterAttempts
      w.clock.read.2 w.runner.interrupted)
  have hcall : ∀ deadline execution outcome source,
      outcomeOf deadline execution ((property w.executed).run _).1 = .ok outcome →
        (((property w.executed).run _).2.toCase outcome execution source
          ((property w.executed).run _).1.crashMessage?).CameOf (property w.executed) :=
    fun deadline execution outcome source ho =>
      ⟨.start (.replaying forced seed w.runner.settings.maxDraws) w.runner.settings.filterAttempts
        w.clock.read.2 w.runner.interrupted, deadline, execution, outcome, source, ho, rfl⟩
  rw [execute_apply] at h
  dsimp only at h
  generalize (property w.executed).run _ = r at hint hcall h
  rcases ho : outcomeOf w.runner.deadline (r.2.clock.read.1 - w.clock.read.1 - r.2.drawTime) r.1
    with crash | outcome <;> rw [ho] at h
  · cases h
  · obtain ⟨w₁, h₁, hsheet, hsinks⟩ := account_apply_sheet (σ := σ) (r.2.toCase outcome
      (r.2.clock.read.1 - w.clock.read.1 - r.2.drawTime) source r.1.crashMessage?) (w.played r.2)
    cases h₁.symm.trans h
    exact ⟨rfl, hcall _ _ _ _ ho, ⟨_, hint, hsheet⟩, hsinks⟩

/-- An execution that gives no case has crashed the run. -/
theorem crash_of_execute {property : Property} {forced : Draws} {source : CaseSource}
    {seed : UInt64} {e : RunError} {w w' : World σ}
    (h : execute property forced source seed w = (.error e, w')) : w'.crash ≠ none := by
  rcases execute_cases property forced source seed w with
    ⟨_, _, hok, -⟩ | ⟨_, _, herror, -, _, _, _, -, rfl⟩
  · cases hok.symm.trans h
  · cases herror.symm.trans h
    nofun

/-! ## What parts of a run lead to -/

/-- From a world of one kind a part of a run comes to one of another kind, if it gives a result. -/
def Leads (P : World σ → Prop) (x : RunM σ α) (Q : α → World σ → Prop) : Prop :=
  ∀ w a w', P w → x w = (.ok a, w') → Q a w'

section Rules

variable {P P' : World σ → Prop} {x : RunM σ α} {f : α → RunM σ β} {Q Q' : α → World σ → Prop}
  {T : β → World σ → Prop}

theorem Leads.bind (hx : Leads P x Q) (hf : ∀ a, Leads (Q a) (f a) T) : Leads P (x >>= f) T := by
  intro w b w' hw h
  obtain ⟨a, w₁, h₁, h₂⟩ := bind_eq_ok h
  exact hf a w₁ b w' (hx w a w₁ hw h₁) h₂

theorem Leads.weaken (hx : Leads P x Q) (h : ∀ w, P' w → P w) : Leads P' x Q :=
  fun w a w' hw => hx w a w' (h w hw)

theorem Leads.imp (hx : Leads P x Q) (h : ∀ a w, Q a w → Q' a w) : Leads P x Q' :=
  fun w a w' hw hr => h a w' (hx w a w' hw hr)

theorem leads_pure {a : α} (h : ∀ w, P w → Q a w) : Leads P (pure a : RunM σ α) Q := by
  rintro w _ _ hw ⟨⟩
  exact h w hw

theorem leads_runner_bind {f : Runner σ → RunM σ β} (h : ∀ r, Leads P (f r) T) :
    Leads P (runner >>= f) T := fun w => h w.runner w

theorem leads_refuseInvalid (c : Case) :
    Leads P (refuseInvalid c : RunM σ Unit) fun _ => P := by
  intro w a w' hw h
  rcases refuseInvalid_cases c w with hc | ⟨_, -, hc⟩ <;> cases hc.symm.trans h
  exact hw

end Rules

/-! ## Phases -/

/-- What messages and cases for some purposes keep. -/
structure Ledger (property : Property) (S : CaseSource → Prop) (P : World σ → Prop) : Prop where
  spoke {w w' : World σ} : P w → w.Spoke w' → P w'
  logged {w w' : World σ} {c : Case} : P w → S c.source → Logged property w c w' → P w'

/-- A case of this run has failed. -/
def Caught (c : Case) (w : World σ) : Prop :=
  c ∈ w.executed ∧ c.outcome.isFailure = true

variable {property : Property} {S : CaseSource → Prop} {P : World σ → Prop} {x : RunM σ α}

/-- A case that has failed stays one. -/
theorem Ledger.caught (hP : Ledger property S P) (c : Case) :
    Ledger property S fun w => P w ∧ Caught c w where
  spoke h hw := by
    refine ⟨hP.spoke h.1 hw, ?_⟩
    rw [Caught, hw.executed]
    exact h.2
  logged h hs hw := by
    refine ⟨hP.logged h.1 hs hw, ?_, h.2.2⟩
    rw [hw.executed]
    exact List.mem_cons_of_mem _ h.2.1

section Phases

variable (hP : Ledger property S P)

include hP

theorem Ends.leads (hx : Ends Spoke x) : Leads P x fun _ => P := by
  intro w a w' hw h
  exact hP.spoke hw (hx.rel h)

theorem leads_execute (forced : Draws) {source : CaseSource} (hs : S source) (seed : UInt64) :
    Leads P (execute property forced source seed : RunM σ Case) fun c w =>
      P w ∧ c ∈ w.executed := by
  intro w c w' hw h
  obtain ⟨rfl, hl⟩ := logged_of_execute h
  refine ⟨hP.logged hw hs hl, ?_⟩
  rw [hl.executed]
  exact List.mem_cons_self

/-- What is found among stored cases has failed: by induction on the entries. -/
theorem leads_reuseFrom (hs : S .database) (entries : List (EntryKind × Draws)) :
    Leads P (reuseFrom property entries : RunM σ (Option Case)) fun found w =>
      P w ∧ ∀ c ∈ found, Caught c w := by
  induction entries with
  | nil => exact leads_pure fun w hw => ⟨hw, nofun⟩
  | cons entry rest ih =>
    refine leads_runner_bind fun r => ?_
    split
    · exact leads_pure fun w hw => ⟨hw, nofun⟩
    · refine (leads_execute hP _ hs _).bind fun c => ?_
      split
      · rename_i hf
        refine leads_pure fun w hw => ⟨hw.1, ?_⟩
        rintro _ ⟨⟩
        exact ⟨hw.2, hf⟩
      · refine ((leads_refuseInvalid c).weaken fun _ => And.left).bind fun _ => ?_
        split
        · exact (Ends.leads hP (spoke_withStore _ _)).bind fun _ => ih
        · exact ih

theorem leads_reuse (hs : S .database) :
    Leads P (reuse property : RunM σ (Option Case)) fun found w =>
      P w ∧ ∀ c ∈ found, Caught c w := by
  rw [reuse_eq]
  refine leads_runner_bind fun r => ?_
  split
  · exact leads_pure fun w hw => ⟨hw, nofun⟩
  · refine (Ends.leads hP (spoke_stored _)).bind fun loaded => ?_
    split
    · exact (Ends.leads hP (spoke_databaseError _ _)).bind fun _ =>
        leads_pure fun w hw => ⟨hw, nofun⟩
    · exact (Ends.leads hP (spoke_tellLoaded _)).bind fun _ =>
        (Ends.leads hP (spoke_setMode _)).bind fun _ => leads_reuseFrom hP hs _

/-- A new case that ends the phase by failing has failed: by induction on how many may be made. -/
theorem leads_generateFrom (hs : S .generated) (maxExamples maxInvalid : Nat) (seeds : ChaCha8)
    (monitor : HealthMonitor) (valid invalid : Nat) :
    Leads P (generateFrom property maxExamples maxInvalid seeds monitor valid invalid :
      RunM σ GenerationEnd) fun e w => P w ∧ ∀ c, e = .failed c → Caught c w := by
  induction hn : (maxExamples - valid) + (maxInvalid - invalid) using Nat.strongRecOn
    generalizing seeds monitor valid invalid with
  | _ n ih =>
    rw [generateFrom_eq]
    split
    · refine leads_runner_bind fun r => ?_
      split
      · exact leads_pure fun w hw => ⟨hw, by simp⟩
      · refine (leads_execute hP _ hs _).bind fun c => ?_
        split
        · rename_i hf
          refine (Ends.leads (hP.caught c) (spoke_saveFailure c)).weaken
            (fun w hw => ⟨hw.1, hw.2, hf⟩) |>.bind fun _ => leads_pure fun w hw => ⟨hw.1, ?_⟩
          rintro _ ⟨⟩
          exact hw.2
        · refine ((leads_refuseInvalid c).weaken fun _ => And.left).bind fun _ =>
            (Ends.leads hP (spoke_keep c)).bind fun _ => ?_
          unfold judge
          split
          · exact (Ends.leads hP (spoke_tellUnhealthy _)).bind fun _ =>
              leads_pure fun w hw => ⟨hw, by simp⟩
          · split <;> split
            · exact leads_pure fun w hw => ⟨hw, by simp⟩
            · exact ih _ (by omega) _ _ _ _ rfl
            · exact leads_pure fun w hw => ⟨hw, by simp⟩
            · exact ih _ (by omega) _ _ _ _ rfl
    · exact leads_pure fun w hw => ⟨hw, by simp⟩

theorem leads_generate (hs : S .generated) (seed : UInt64) :
    Leads P (generate property seed : RunM σ GenerationEnd) fun e w =>
      P w ∧ ∀ c, e = .failed c → Caught c w :=
  leads_runner_bind fun _ => (Ends.leads hP (spoke_tellPhase _)).bind fun _ =>
    (Ends.leads hP (spoke_setMode _)).bind fun _ => leads_generateFrom hP hs _ _ _ _ _ _

theorem leads_finalReplay (hs : S .finalReplay) (initial : Case) (best : Draws) :
    Leads P (finalReplay property initial best : RunM σ (Outcome × Case)) fun _ => P := by
  rw [finalReplay_eq]
  refine (Ends.leads hP (spoke_setMode _)).bind fun _ =>
    ((leads_execute hP _ hs _).imp fun _ _ => And.left).bind fun c => ?_
  split
  · exact (Ends.leads hP (spoke_withStore _ _)).bind fun _ => leads_pure fun _ => id
  · refine leads_runner_bind fun r => Leads.bind (Q := fun _ => P) ?_ fun _ =>
      Ends.leads hP (spoke_settle initial r.name _)
    unfold retry
    split
    · exact leads_pure fun _ => id
    · exact (Ends.leads hP (spoke_tell _ _)).bind fun _ =>
        (leads_execute hP _ hs _).bind fun _ => leads_pure fun _ => And.left

/-- What is reported is what was counted. -/
theorem leads_finish (outcome : Outcome) (example? : Option Counterexample)
    (health : Option HealthFailure) (seed : Option UInt64) :
    Leads P (finish outcome example? health seed : RunM σ RunResult) fun result w =>
      P w ∧ result.outcome = outcome ∧ result.statistics = w.runner.statistics := by
  intro w result w' hw h
  have hspoke : w.Spoke w' := (spoke_finish outcome example? health seed).rel h
  obtain ⟨_, h', -⟩ := finish_apply outcome example? health seed w
  cases h'.symm.trans h
  exact ⟨hP.spoke hw hspoke, rfl, (congrArg Sheet.statistics hspoke.sheet).symm⟩

end Phases

end RunM

end Falsify
