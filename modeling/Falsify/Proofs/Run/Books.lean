import Falsify.Proofs.Run.Calls
import Falsify.Proofs.Run.Recorded

/-!
# The books of a run balance

A run keeps three accounts: the statistics, the trials of its search, and what its receivers were
handed. All of them are about the cases that it executed.

* `Statistics.ofCases`: what is counted of some cases;
* `World.Booked`: the accounts of a run in which so many trials were executed and counted;
* `World.Balanced`: accounts that are in order;
* `RunM.Searching`, `Searching.reaches`: the accounts in the middle of a search;
* `RunM.Reported`, `reported_of_runProperty`: the accounts at the end of a run;
* `books_balance`: the theorem.
-/

namespace Falsify

namespace Statistics

/-- What is counted of some cases, the latest of which comes first. -/
def ofCases (cases : List Case) : Statistics :=
  cases.foldr (fun c s => s.record c) {}

/-- Each case counts once, and by its outcome once more: by induction on the cases. -/
theorem ofCases_counts (cases : List Case) :
    (ofCases cases).cases = cases.length ∧
      (ofCases cases).passed = cases.countP (·.outcome = .passed) ∧
      (ofCases cases).failed = cases.countP (·.outcome.isFailure) ∧
      (ofCases cases).databaseReplays = cases.countP (·.source = .database) ∧
      (ofCases cases).cases =
        (ofCases cases).passed + (ofCases cases).failed + (ofCases cases).gaveUp := by
  induction cases with
  | nil => exact ⟨rfl, rfl, rfl, rfl, rfl⟩
  | cons c rest ih =>
    obtain ⟨hcases, hpassed, hfailed, hreplays, hsum⟩ := ih
    have hstep : ofCases (c :: rest) = (ofCases rest).record c := rfl
    rw [hstep]
    simp only [record, List.countP_cons, List.length_cons, hcases, hpassed, hfailed, hreplays,
      decide_eq_true_eq, true_and]
    rw [← hcases, hsum, ← hpassed, ← hfailed]
    rcases c.outcome with _ | _ | _ <;> simp [Outcome.isFailure, Outcome.failure?] <;> omega

end Statistics

namespace World

variable {σ : Type} {property : Property} {start w w' : World σ} {k n m : Nat} {c : Case}

/-- The accounts of a run since it began in some world: so many trials were executed, so many were
counted, and so many of these have made the failure simpler. -/
structure Booked (property : Property) (start : World σ) (executed counted simpler : Nat)
    (w : World σ) : Prop where
  name : w.runner.name = start.runner.name
  settings : w.runner.settings = start.runner.settings
  runStart : w.runner.runStart = start.runner.runStart
  crash : w.crash = none
  statistics : w.runner.statistics =
    { Statistics.ofCases w.executed with shrinkAttempts := counted, shrinks := simpler }
  trials : w.executed.countP (·.source = .shrinking) = executed
  calls : ∀ c earlier, (c :: earlier) <:+ w.executed → c.CameOf (property earlier)
  delivered : ∃ records : List Observation,
    w.runner.sinks = start.runner.sinks.map (Sink.receiveAll records) ∧
    records.filter Observation.isTestCase = w.executed.reverse.map fun c =>
      c.toObservation start.runner.name start.runner.runStart

/-- Messages are on no account. -/
theorem Booked.spoke (h : Booked property start k n m w) (h' : w.Spoke w') :
    Booked property start k n m w' := by
  obtain ⟨records, hsinks, hrecords⟩ := h.delivered
  obtain ⟨messages, hm, hsinks'⟩ := h'.sinks
  have hs := h'.sheet
  refine ⟨(congrArg Sheet.name hs).trans h.name, (congrArg Sheet.settings hs).trans h.settings,
    (congrArg Sheet.runStart hs).trans h.runStart, (congrArg Sheet.crash hs).trans h.crash, ?_, ?_,
    ?_, records ++ messages, ?_, ?_⟩
  · rw [h'.executed]
    exact (congrArg Sheet.statistics hs).trans h.statistics
  · rw [h'.executed, h.trials]
  · rw [h'.executed]
    exact h.calls
  · rw [hsinks', hsinks, List.map_map, Sink.receiveAll_append]
  · have hnone : messages.filter Observation.isTestCase = [] :=
      List.filter_eq_nil_iff.2 fun o ho => by rw [hm o ho]; decide
    rw [List.filter_append, hnone, List.append_nil, hrecords, h'.executed]

/-- A case goes to every account once. -/
theorem Booked.logged (h : Booked property start k n m w) (h' : Logged property w c w') :
    Booked property start (k + if c.source = .shrinking then 1 else 0) n m w' := by
  obtain ⟨records, hsinks, hrecords⟩ := h.delivered
  obtain ⟨_, -, hs⟩ := h'.sheet
  refine ⟨(congrArg Sheet.name hs).trans h.name, (congrArg Sheet.settings hs).trans h.settings,
    (congrArg Sheet.runStart hs).trans h.runStart, (congrArg Sheet.crash hs).trans h.crash, ?_, ?_,
    ?_, records ++ [c.toObservation start.runner.name start.runner.runStart], ?_, ?_⟩
  · rw [h'.executed]
    refine (congrArg Sheet.statistics hs).trans ?_
    dsimp only
    rw [h.statistics]
    rfl
  · rw [h'.executed, List.countP_cons, h.trials]
    simp only [decide_eq_true_eq]
  · intro c' earlier hc
    rw [h'.executed, List.suffix_cons_iff] at hc
    rcases hc with hc | hc
    · obtain ⟨rfl, rfl⟩ := List.cons.inj hc
      exact h'.called
    · exact h.calls c' earlier hc
  · rw [h'.sinks, hsinks, List.map_map, Sink.receiveAll_append, h.name, h.runStart]
  · rw [List.filter_append, hrecords, h'.executed, List.reverse_cons, List.map_append]
    rfl

/-- The accounts are in order: trials that were executed are counted, and all that are counted were
executed unless somebody has asked the run to stop. -/
def Balanced (property : Property) (start w : World σ) : Prop :=
  ∃ executed counted simpler, Booked property start executed counted simpler w ∧
    executed ≤ counted ∧ (w.runner.interrupted = false → executed = counted) ∧
    simpler ≤ counted ∧ counted ≤ start.runner.settings.maxShrinks

/-- Nothing has been executed, and nothing counted. -/
theorem booked_start (he : start.executed = []) (hc : start.crash = none)
    (hs : start.runner.statistics = {}) : Booked property start 0 0 0 start where
  name := rfl
  settings := rfl
  runStart := rfl
  crash := hc
  statistics := by rw [hs, he]; rfl
  trials := by rw [he]; rfl
  calls := fun c earlier hc => by
    rw [he] at hc
    cases List.suffix_nil.1 hc
  delivered := ⟨[], (List.map_id _).symm, by rw [he]; rfl⟩

theorem Booked.balanced (h : Booked property start 0 0 0 w) : Balanced property start w :=
  ⟨0, 0, 0, h, Nat.le_refl 0, fun _ => rfl, Nat.le_refl 0, Nat.zero_le _⟩

end World

namespace RunM

open World

variable {σ : Type} {start w w' : World σ} {property : Property}

theorem ledger_booked {k n m : Nat} :
    Ledger property (· ≠ .shrinking) (Booked property start k n m) where
  spoke := Booked.spoke
  logged h hs hl := by
    have := h.logged hl
    rwa [if_neg hs] at this

theorem ledger_balanced : Ledger property (· ≠ .shrinking) (Balanced property start) where
  spoke := by
    rintro w w' ⟨k, n, m, h, hk, hi, hm, hn⟩ hw
    exact ⟨k, n, m, h.spoke hw, hk, fun hf => hi (hw.interrupted.symm.trans hf), hm, hn⟩
  logged := by
    rintro w w' c ⟨k, n, m, h, hk, hi, hm, hn⟩ hs hl
    have hbooked := h.logged hl
    rw [if_neg hs, Nat.add_zero] at hbooked
    exact ⟨k, n, m, hbooked, hk, fun hf => hi (hl.interrupted hf), hm, hn⟩

/-! ## The search -/

/-- Unless the run has crashed, so many trials at most were executed in a search, and all of them if
nobody has asked the run to stop. -/
def Trialled (property : Property) (start : World σ) (attempts : Nat) (w : World σ) : Prop :=
  w.crash = none → ∃ executed, Booked property start executed 0 0 w ∧ executed ≤ attempts ∧
    (w.runner.interrupted = false → executed = attempts)

/-- One more trial. It is not executed if somebody has asked the run to stop. -/
theorem trialled_trial (origin : Origin) (began : Duration) (candidate : Draws) {attempts : Nat}
    (h : Trialled property start attempts w) :
    Trialled property start (attempts + 1)
      ((oracle property origin began).trial candidate w).2 := by
  dsimp only [oracle]
  split
  · rename_i hstop
    intro hc
    obtain ⟨k, hbooked, hk, -⟩ := h hc
    rw [hc, Option.isSome_none, Bool.or_false] at hstop
    exact ⟨k, hbooked, by omega, fun hi => absurd (hi.symm.trans hstop) Bool.false_ne_true⟩
  · rename_i hgo
    obtain ⟨hi, hcrash⟩ := Bool.or_eq_false_iff.1 (Bool.eq_false_of_not_eq_true hgo)
    obtain ⟨k, hbooked, hk, heq⟩ := h (by simpa using hcrash)
    rcases hx : execute property candidate .shrinking replaySeed w with ⟨e | c, w'⟩
    · exact fun hc => absurd hc (crash_of_execute hx)
    · obtain ⟨hs, hl⟩ := logged_of_execute hx
      have hbooked := hbooked.logged hl
      rw [if_pos hs] at hbooked
      exact fun _ => ⟨k + 1, hbooked, by omega, fun _ => by rw [heq hi]⟩

/-- The accounts in the middle of a search. -/
structure Searching (property : Property) (start : World σ) (b : ShrinkBudget)
    (s : Search (World σ)) : Prop where
  simpler : s.improvements ≤ s.attempts
  bounded : s.attempts ≤ b.maxAttempts
  trials : Trialled property start s.attempts s.world

theorem Searching.checkBudget {b : ShrinkBudget} {s : Search (World σ)}
    (h : Searching property start b s) (origin : Origin) (began : Duration) :
    Searching property start b (s.checkBudget (oracle property origin began) b) := by
  refine ⟨by simpa using h.simpler, by simpa using h.bounded, ?_⟩
  rw [Search.attempts_checkBudget]
  rcases Search.world_checkBudget (oracle property origin began) b s with hw | hw <;> rw [hw]
  · exact h.trials
  · intro hc
    obtain ⟨k, hbooked, hk⟩ := h.trials hc
    exact ⟨k, hbooked.spoke (spoke_of_same rfl rfl), hk⟩

/-- A trial is counted, and has not made the failure simpler yet. -/
theorem Searching.note {b : ShrinkBudget} {s : Search (World σ)} (h : Searching property start b s)
    (hleft : s.attempts < b.maxAttempts) {origin : Origin} {began : Duration} {candidate : Draws}
    {answer : Option Draws} {world : World σ}
    (ht : (oracle property origin began).trial candidate s.world = (answer, world)) :
    Searching property start b (s.note candidate world) ∧
      (s.note candidate world).improvements < (s.note candidate world).attempts := by
  have htrial := trialled_trial origin began candidate h.trials
  rw [ht] at htrial
  exact ⟨⟨Nat.le_succ_of_le h.simpler, hleft, htrial⟩, Nat.lt_succ_of_le h.simpler⟩

/-- A search keeps its accounts: by induction on its steps. -/
theorem Searching.reaches {b : ShrinkBudget} {s t : Search (World σ)}
    (h : Searching property start b s) {origin : Origin} {began : Duration}
    (hr : Search.Reaches (oracle property origin began) b s t) : Searching property start b t := by
  induction hr with
  | refl => exact h
  | @tail s _ _ hstep ih =>
    obtain ⟨c, -, rfl⟩ := hstep
    have hb := ih.checkBudget origin began
    have hc := Search.considered (oracle property origin began) b c s
    generalize s.consider (oracle property origin began) b c = r at hc
    have hlt : (s.checkBudget (oracle property origin began) b).exhausted = false →
        (s.checkBudget (oracle property origin began) b).attempts < b.maxAttempts := by
      rw [Search.attempts_checkBudget]
      exact Search.lt_of_checkBudget
    cases hc with
    | same => exact ih
    | skipped => exact ih
    | exhausted => exact hb
    | refused answer world _ _ hleft ht => exact (hb.note (hlt hleft) ht).1
    | improved r world _ _ hleft ht =>
      obtain ⟨hnoted, hsimpler⟩ := hb.note (hlt hleft) ht
      exact ⟨hsimpler, hnoted.bounded, hnoted.trials⟩

/-- The numbers of a search go to the statistics, and nothing else does. -/
theorem leads_tellSearch {k : Nat} (search : Search (World σ)) :
    Leads (Booked property start k 0 0) (tellSearch search) fun _ =>
      Booked property start k search.attempts search.improvements := by
  refine (Ends.leads ledger_booked (spoke_tell _ _)).bind fun _ =>
    Leads.bind (Q := fun _ => Booked property start k search.attempts search.improvements) ?_
      fun _ => ?_
  · rintro w _ _ hw ⟨⟩
    refine ⟨hw.name, hw.settings, hw.runStart, hw.crash, ?_, hw.trials, hw.calls, hw.delivered⟩
    dsimp only
    rw [hw.statistics, Nat.zero_add, Nat.zero_add]
  · split
    · exact Ends.leads ledger_booked (spoke_tell _ _)
    · exact leads_pure fun _ => id

/-- A search leaves the accounts in order. -/
theorem leads_shrink (initial : Case) (reason : FailureReason) :
    Leads (Booked property start 0 0 0) (shrink property initial reason : RunM σ Draws) fun _ =>
      Balanced property start := by
  intro w best w' hw h
  rw [shrink_eq] at h
  obtain ⟨⟨⟩, w₁, h₁, h⟩ := (spoke_tellPhase _).bind_eq_ok h
  obtain ⟨⟨⟩, w₂, h₂, h⟩ := (spoke_setMode _).bind_eq_ok h
  have hw₂ : Booked property start 0 0 0 w₂ := (hw.spoke h₁).spoke h₂
  rw [runner_bind] at h
  obtain ⟨began, w₃, h₃, h⟩ := spoke_now.bind_eq_ok h
  obtain ⟨_, _, hget, h⟩ := bind_eq_ok h
  cases hget
  rw [hw₂.settings] at h
  have hsearch : Searching property start start.runner.settings.shrinkBudget
      (Search.start initial.draws w₃) :=
    ⟨Nat.le_refl 0, Nat.zero_le _, fun _ => ⟨0, hw₂.spoke h₃, Nat.le_refl 0, fun _ => rfl⟩⟩
  have hend := hsearch.reaches (Search.reaches_run
    (o := oracle property reason.origin began) (Search.start initial.draws w₃))
  generalize (Search.start initial.draws w₃).run _ _ = search at h hend
  rcases hc : search.world.crash with _ | crash
  · rw [leave_of_no_crash hc] at h
    obtain ⟨k, hbooked, hk, heq⟩ := hend.trials hc
    obtain ⟨⟨⟩, w₄, h₄, h⟩ := bind_eq_ok h
    cases h
    have hi : w'.runner.interrupted = search.world.runner.interrupted :=
      ((ends_tellSearch search).rel h₄).interrupted
    exact ⟨k, _, _, leads_tellSearch search _ _ _ hbooked h₄, hk, fun hf => heq (hi.symm.trans hf),
      hend.simpler, hend.bounded⟩
  · rw [leave_of_crash hc] at h
    cases h

theorem leads_simplify (initial : Case) :
    Leads (Booked property start 0 0 0) (simplify property initial : RunM σ Draws) fun _ =>
      Balanced property start := by
  refine leads_runner_bind fun r => ?_
  split
  · exact leads_shrink initial _
  · exact leads_pure fun _ => Booked.balanced

/-- A case that has failed is among those of the run after the search, too. -/
theorem caught_simplify {initial : Case} {best : Draws} (hc : Caught initial w)
    (h : simplify property initial w = (.ok best, w')) : Caught initial w' := by
  have ho : Onward (· = .shrinking) w w' := (runs_simplify (E := Never) (S := (· = .shrinking))
    onward_frame.toPlayFrame rfl property initial).rel h
  obtain ⟨cases, he, -⟩ := ho.executed
  refine ⟨?_, hc.2⟩
  rw [he]
  exact List.mem_append_right _ hc.1

/-! ## Whole runs -/

/-- A run has given a result: its accounts are in order, the statistics are reported, and if it has
failed a case has. -/
structure Reported (property : Property) (start : World σ) (result : RunResult) (w : World σ) :
    Prop where
  balanced : Balanced property start w
  statistics : result.statistics = w.runner.statistics
  caught : result.outcome.isFailure = true → ∃ c, Caught c w

/-- A run that ends after a failing case. -/
theorem leads_finish_caught (c : Case) (outcome : Outcome) (example? : Option Counterexample)
    (health : Option HealthFailure) (seed : Option UInt64) :
    Leads (fun w => Balanced property start w ∧ Caught c w)
      (finish outcome example? health seed : RunM σ RunResult) (Reported property start) := by
  refine (leads_finish (ledger_balanced.caught c) _ _ _ _).imp ?_
  rintro result w ⟨⟨hb, hc⟩, -, hs⟩
  exact ⟨hb, hs, fun _ => ⟨c, hc⟩⟩

/-- A run that ends without a failing case. -/
theorem leads_finish_unfailed {outcome : Outcome} (ho : outcome.isFailure = false)
    (example? : Option Counterexample) (health : Option HealthFailure) (seed : Option UInt64) :
    Leads (Booked property start 0 0 0) (finish outcome example? health seed : RunM σ RunResult)
      (Reported property start) := by
  refine (leads_finish ledger_booked _ _ _ _).imp ?_
  rintro result w ⟨hb, hout, hs⟩
  refine ⟨hb.balanced, hs, fun hf => ?_⟩
  cases (hout ▸ hf).symm.trans ho

theorem leads_counterexample {P : World σ → Prop} (c : Case) (outcome : Outcome)
    (seed : Option UInt64) :
    Leads P (counterexample c outcome seed : RunM σ Counterexample) fun _ => P :=
  leads_runner_bind fun _ => leads_pure fun _ => id

theorem leads_conclude (initial : Case) (fromDatabase : Bool) (seed : UInt64) :
    Leads (fun w => Booked property start 0 0 0 w ∧ Caught initial w)
      (conclude property initial fromDatabase seed : RunM σ RunResult)
      (Reported property start) := by
  rw [conclude_eq]
  refine Leads.bind (Q := fun _ w => Balanced property start w ∧ Caught initial w) ?_ fun best =>
    (leads_finalReplay (ledger_balanced.caught initial) (by decide) initial best).bind
      fun _ => (leads_counterexample _ _ _).bind fun _ => leads_finish_caught initial _ _ _ _
  intro w best w' hw h
  exact ⟨leads_simplify initial w best w' hw.1 h, caught_simplify hw.2 h⟩

theorem leads_proceed (seed : UInt64) (settings : Settings) (reused : Option Case) :
    Leads (fun w => Booked property start 0 0 0 w ∧ ∀ c ∈ reused, Caught c w)
      (proceed property seed settings reused : RunM σ RunResult) (Reported property start) := by
  unfold proceed
  split
  · exact (leads_conclude _ _ _).weaken fun w hw => ⟨hw.1, hw.2 _ rfl⟩
  · refine Leads.weaken (P := Booked property start 0 0 0) (leads_runner_bind fun r => ?_)
      fun w hw => hw.1
    split
    · exact leads_finish_unfailed rfl _ _ _
    · split
      · refine (leads_generate ledger_booked (by decide) seed).bind fun ending => ?_
        rcases ending with _ | c | reason | failure
        · exact (leads_finish_unfailed rfl _ _ _).weaken fun w hw => hw.1
        · exact (leads_conclude _ _ _).weaken fun w hw => ⟨hw.1, hw.2 _ rfl⟩
        · exact (leads_finish_unfailed rfl _ _ _).weaken fun w hw => hw.1
        · exact (leads_finish_unfailed rfl _ _ _).weaken fun w hw => hw.1
      · exact leads_finish_unfailed rfl _ _ _

theorem leads_search (host : Host σ) :
    Leads (Booked property start 0 0 0) (search host property) (Reported property start) := by
  rw [search_eq]
  refine (Ends.leads ledger_booked (spoke_resolveSeed host)).bind fun seed =>
    leads_runner_bind fun r => (Ends.leads ledger_booked (spoke_tellPhase _)).bind fun _ => ?_
  split
  · exact (leads_reuse ledger_booked (by decide)).bind fun _ => leads_proceed _ _ _
  · exact (leads_pure fun w hw => ⟨hw, nofun⟩).bind fun _ => leads_proceed _ _ _

theorem leads_reproduce (token : String) :
    Leads (Booked property start 0 0 0) (reproduce property token : RunM σ RunResult)
      (Reported property start) := by
  unfold reproduce
  split
  · rintro w _ _ - ⟨⟩
  · refine leads_runner_bind fun r => (Ends.leads ledger_booked (spoke_tellPhase _)).bind fun _ =>
      (Ends.leads ledger_booked (spoke_setMode _)).bind fun _ =>
        (leads_execute ledger_booked _ (by decide) _).bind fun c =>
          (leads_refuseInvalid c).bind fun _ => ?_
    split
    · rename_i hf
      refine Leads.weaken (P := fun w => Balanced property start w ∧ Caught c w) ?_
        fun w hw => ⟨hw.1.balanced, hw.2, hf⟩
      exact (leads_counterexample _ _ _).bind fun _ => leads_finish_caught c _ _ _ _
    · rename_i hf
      exact (leads_finish_unfailed (Bool.eq_false_of_not_eq_true hf) _ _ _).weaken fun w => And.left

/-- A run that gives a result reports what it has counted since it began. -/
theorem reported_of_runProperty {host : Host σ} {result : RunResult}
    (h : runProperty host property w = (.ok result, w')) :
    Reported property (w.begun host) result w' := by
  rw [runProperty_of_valid host property (valid_of_runProperty h)] at h
  obtain ⟨⟨⟩, w₁, h₁, h⟩ := (spoke_openDatabase host).bind_eq_ok h
  have hw₁ : Booked property (w.begun host) 0 0 0 w₁ := (booked_start rfl rfl rfl).spoke h₁
  rw [runner_bind] at h
  rcases hr : w₁.runner.settings.reproduce with _ | token <;> rw [hr] at h
  · exact leads_search host _ _ _ hw₁ h
  · exact leads_reproduce token _ _ _ hw₁ h

end RunM

open World RunM

variable {σ : Type} {w w' : World σ}

/-- Whatever the settings, the database and the body of a run are, and whoever asks it to stop: if
it gives a result, it has called the body for each case that it executed, and never besides. Each
such case was counted once, by its outcome and as what it is, and each receiver was handed its
record in its turn. All trials that were executed were counted, and if nobody has asked the run to
stop all counted ones were executed. -/
theorem books_balance (host : Host σ) (property : Property) {result : RunResult}
    (h : runProperty host property w = (.ok result, w')) :
    let counted := result.statistics
    counted.cases = counted.passed + counted.failed + counted.gaveUp ∧
      counted.cases = w'.executed.length ∧
      (∀ c earlier, (c :: earlier) <:+ w'.executed → c.CameOf (property earlier)) ∧
      (∀ property', property.Matches property' w'.executed →
        runProperty host property' w = (.ok result, w')) ∧
      (∃ records : List Observation,
        w'.runner.sinks = w.runner.sinks.map (Sink.receiveAll records) ∧
        records.filter Observation.isTestCase = w'.executed.reverse.map fun c =>
          c.toObservation w.runner.name (timestamp host.startTime)) ∧
      counted.databaseReplays = w'.executed.countP (·.source = .database) ∧
      w'.executed.countP (·.source = .shrinking) ≤ counted.shrinkAttempts ∧
      (w'.runner.interrupted = false →
        w'.executed.countP (·.source = .shrinking) = counted.shrinkAttempts) ∧
      counted.shrinks ≤ counted.shrinkAttempts ∧
      counted.shrinkAttempts ≤ w.runner.settings.maxShrinks ∧
      (result.outcome.isFailure = true → 1 ≤ counted.failed) := by
  intro counted
  obtain ⟨⟨k, n, m, hbooked, hk, hi, hm, hn⟩, hs, hcaught⟩ := reported_of_runProperty h
  have hcounted : counted =
      { Statistics.ofCases w'.executed with shrinkAttempts := n, shrinks := m } :=
    hs.trans hbooked.statistics
  obtain ⟨hcases, -, hfailed, hreplays, hsum⟩ := Statistics.ofCases_counts w'.executed
  rw [hcounted]
  refine ⟨hsum, hcases, hbooked.calls, fun _ => runProperty_of_matches h, hbooked.delivered,
    hreplays, hbooked.trials ▸ hk, ?_, hm, hn, ?_⟩
  · rw [hbooked.trials]
    exact hi
  · intro hf
    obtain ⟨c, hc, hfail⟩ := hcaught hf
    change 1 ≤ (Statistics.ofCases w'.executed).failed
    rw [hfailed]
    exact List.countP_pos_iff.2 ⟨c, hc, hfail⟩

/-- A test that fails and is replayed, before a receiver that keeps records. -/
theorem books_balance_refusingTrue :
    let settings : Settings := { deadline := none, seed := some 7, phases := [.generate] }
    let w : World Memory := { World.under settings with
      runner := .create "t" settings none [.collecting #[]] }
    ∃ result w', runProperty .bare (fun _ => .refusingTrue) w = (.ok result, w') ∧
      1 ≤ result.statistics.failed ∧
      w'.executed.countP (·.source = .shrinking) = result.statistics.shrinkAttempts ∧
      ∃ records : List Observation, w'.runner.sinks = [.collecting records.toArray] ∧
        (records.filter Observation.isTestCase).length = w'.executed.length := by
  intro settings w
  obtain ⟨hrun, hint⟩ : (runProperty .bare (fun _ => .refusingTrue) w).1.toOption.map
        (·.outcome.isFailure) = some true ∧
      (runProperty .bare (fun _ => .refusingTrue) w).2.runner.interrupted = false := by
    decide +kernel
  rcases h : runProperty .bare (fun _ => .refusingTrue) w with ⟨_ | result, w'⟩ <;>
    rw [h] at hrun hint
  · cases hrun
  · have hf : result.outcome.isFailure = true := Option.some.inj hrun
    obtain ⟨-, -, -, -, ⟨records, hsinks, hrecords⟩, -, -, heq, -, -, hfailed⟩ :=
      books_balance .bare _ h
    refine ⟨result, w', rfl, hfailed hf, heq hint, records, ?_, ?_⟩
    · rw [hsinks]
      change [Sink.receiveAll records (.collecting #[])] = _
      rw [Sink.receiveAll_collecting, Array.empty_append]
    · rw [hrecords, List.length_map, List.length_reverse]

end Falsify
