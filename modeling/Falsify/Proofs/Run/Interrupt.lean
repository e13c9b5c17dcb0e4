import Falsify.Proofs.Run.Recorded

/-!
# Interrupts

A run that was asked to stop does so before its next case. What a call asks for is no matter of
time: it shows when its body is played on the draws that the case recorded.

* `Body.asks`, `Property.asked`: somebody has asked a run to stop, as its cases tell;
* `execute_asks`: an execution tells that of its case;
* `World.Prompt`: no case was executed after the one that asked;
* `prompt_reuse`, `prompt_generate`, `prompt_shrink`: phases keep it so;
* `adds_finalReplay`: at most two cases come after that;
* `exhausted_generateFrom`: a run that was asked to stop makes enough cases only if the last one
  asked;
* `interrupts_stop_runs`: all that for whole runs.
-/

namespace Falsify

/-! ## What a call asks for -/

/-- The body asks the run to stop when it is played on a sequence. -/
def Body.asks (body : Body (Except CaseError Unit)) (limits : Settings) (s : Draws) : Bool :=
  (body.run (.start (.replaying s replaySeed limits.maxDraws) limits.filterAttempts
    (.start fun _ => 0) false)).2.interrupted

/-- Somebody has asked a run to stop, before it began or in one of the calls that made these cases,
the latest first. -/
def Property.asked (property : Property) (limits : Settings) (before : Bool) : List Case → Bool
  | [] => before
  | c :: earlier =>
    property.asked limits before earlier || (property earlier).asks limits c.draws

theorem Property.asked_of_append {property : Property} {limits : Settings} {before : Bool}
    {later earlier : List Case} (h : property.asked limits before earlier = true) :
    property.asked limits before (later ++ earlier) = true := by
  induction later with
  | nil => exact h
  | cons c later ih => exact Bool.or_eq_true_iff.2 (.inl ih)

namespace Body

variable {α : Type}

/-- Two runs that draw the same ask for the same: by induction on the body. -/
theorem interrupted_follows (body : Body α) {final : Draws} {s t : CaseState} {before : Bool}
    (h : s.Follows final t) (hw : (body.run s).2.source.drawn <+: final)
    (hi : s.interrupted = (before || t.interrupted)) :
    (body.run s).2.interrupted = (before || (body.run t).2.interrupted) := by
  induction body generalizing s t with
  | done _ => exact hi
  | crash _ => exact hi
  | draw name strategy next ih =>
    have hd : (s.draw strategy).2.source.drawn <+: final := by
      rw [run_draw] at hw
      split at hw
      · exact hw
      · exact within_of_run _ _ hw
      · exact (within_of_run _ _ hw :)
    obtain ⟨h₁, h₂⟩ := h.draw strategy hd
    have hi₂ : (s.draw strategy).2.interrupted = (before || (t.draw strategy).2.interrupted) := by
      obtain ⟨-, -, -, -, -, -, hs⟩ := CaseState.draw_eq s strategy
      obtain ⟨-, -, -, -, -, -, ht⟩ := CaseState.draw_eq t strategy
      rw [hs, ht, hi]
    rw [run_draw] at hw ⊢
    rw [run_draw, h₁]
    split at hw
    · exact hi₂
    · exact ih _ h₂ hw hi₂
    · exact ih _ (h₂.argue _ _) hw hi₂
  | drawCount next ih =>
    have hc : t.source.drawCount = s.source.drawCount := by
      rw [Source.drawCount, h.source.1, Source.drawCount]
    rw [run, run, hc]
    exact ih _ h hw hi
  | note text next ih =>
    exact ih ⟨h.source, h.attempts, h.arguments, by simp only [h.notes], h.features⟩ hw hi
  | event name value next ih => exact ih (h.mark name value) hw hi
  | sleep _ next ih => exact ih ⟨h.source, h.attempts, h.arguments, h.notes, h.features⟩ hw hi
  | interrupt next ih =>
    exact ih ⟨h.source, h.attempts, h.arguments, h.notes, h.features⟩ hw (Bool.or_true before).symm

/-- What a call asks for shows in what its body asks for when it is played on its draws. -/
theorem interrupted_run_eq (body : Body (Except CaseError Unit)) (limits : Settings)
    (forced : Draws) (seed : UInt64) (clock : Clock) (before : Bool) :
    let r := body.run (.start (.replaying forced seed limits.maxDraws) limits.filterAttempts clock
      before)
    r.2.interrupted = (before || body.asks limits r.2.source.drawn) := by
  intro r
  exact body.interrupted_follows
    (CaseState.follows_start forced r.2.source.drawn seed replaySeed limits.maxDraws
      limits.filterAttempts clock (.start fun _ => 0) before false (List.prefix_refl _))
    (List.prefix_refl _) (Bool.or_false before).symm

end Body

/-! ## Runs that do not go on -/

namespace World

variable {σ : Type} {property : Property} {limits : Settings} {before : Bool} {w w' : World σ}

/-- A run is under these settings, and unless it has crashed its flag tells whether somebody has
asked it to stop. -/
structure Heard (property : Property) (limits : Settings) (before : Bool) (w : World σ) : Prop where
  settings : w.runner.settings = limits
  flag : w.crash = none → w.runner.interrupted = property.asked limits before w.executed

/-- Nobody had asked a run to stop before its last case. -/
structure Prompt (property : Property) (limits : Settings) (before : Bool) (w : World σ) : Prop
    extends Heard property limits before w where
  early : ∀ c earlier, w.executed = c :: earlier → property.asked limits before earlier = false

theorem Heard.continues (h : w.Heard property limits before) (h' : w.Continues w') :
    w'.Heard property limits before := by
  refine ⟨h'.settings.trans h.settings, fun hc => ?_⟩
  rw [h'.interrupted, h'.executed]
  exact h.flag (h'.crash.symm.trans hc)

theorem Prompt.continues (h : w.Prompt property limits before) (h' : w.Continues w') :
    w'.Prompt property limits before :=
  ⟨h.toHeard.continues h', by rw [h'.executed]; exact h.early⟩

end World

namespace RunM

open World

variable {σ α β : Type} {property : Property} {limits : Settings} {before : Bool} {w w' : World σ}

/-- An execution leads to a case and raises the flag if that case asks, or it crashes the run. -/
theorem execute_asks (property : Property) (forced : Draws) (source : CaseSource) (seed : UInt64)
    (w : World σ) :
    (∃ c w', execute property forced source seed w = (.ok c, w') ∧ c.source = source ∧
      w'.executed = c :: w.executed ∧ w'.runner.settings = w.runner.settings ∧
      w'.crash = w.crash ∧ w'.runner.interrupted =
        (w.runner.interrupted || (property w.executed).asks w.runner.settings c.draws)) ∨
    ∃ c w', execute property forced source seed w = (.error (.crashed c), w') ∧
      w'.executed = w.executed ∧ w'.runner.settings = w.runner.settings ∧ w'.crash = some c := by
  have hasks := (property w.executed).interrupted_run_eq w.runner.settings forced seed
    w.clock.read.2 w.runner.interrupted
  rw [execute_apply]
  dsimp only at hasks ⊢
  generalize (property w.executed).run _ = r at hasks ⊢
  rcases outcomeOf w.runner.deadline (r.2.clock.read.1 - w.clock.read.1 - r.2.drawTime) r.1
    with c | outcome
  · exact .inr ⟨c, _, rfl, rfl, rfl, rfl⟩
  · obtain ⟨w', h, s, l, rfl⟩ := account_apply (σ := σ) _ _
    exact .inl ⟨_, _, h, rfl, rfl, rfl, rfl, hasks⟩

/-! ## What parts of a run uphold -/

/-- Something holds after a part of a run, which has not crashed the run if it gave a result. -/
def Upheld (P : World σ → Prop) (r : Except RunError α × World σ) : Prop :=
  P r.2 ∧ ∀ a, r.1 = .ok a → r.2.crash = none

/-- A part of a run upholds something as long as the run has not crashed. -/
def Upholds (P : World σ → Prop) (x : RunM σ α) : Prop :=
  ∀ w, w.crash = none → P w → Upheld P (x w)

variable {P : World σ → Prop} {x : RunM σ α} {f : α → RunM σ β}

theorem Upheld.bind (hx : Upheld P (x w)) (hf : ∀ a, Upholds P (f a)) :
    Upheld P ((x >>= f) w) := by
  obtain ⟨hp, hok⟩ := hx
  rcases h : x w with ⟨e | a, w₁⟩ <;> rw [h] at hp hok
  · rw [bind_of_error h]
    exact ⟨hp, nofun⟩
  · rw [bind_of_ok h]
    exact hf a w₁ (hok a rfl) hp

theorem Upholds.bind (hx : Upholds P x) (hf : ∀ a, Upholds P (f a)) : Upholds P (x >>= f) :=
  fun w hc hw => (hx w hc hw).bind hf

theorem upholds_pure (a : α) : Upholds P (pure a : RunM σ α) := fun _ hc hw => ⟨hw, fun _ _ => hc⟩

theorem upholds_runner_bind {f : Runner σ → RunM σ β} (h : ∀ r, Upholds P (f r)) :
    Upholds P (runner >>= f) := fun w => h w.runner w

theorem upholds_refuseInvalid (c : Case) : Upholds P (refuseInvalid c : RunM σ Unit) := by
  unfold refuseInvalid
  split
  · exact fun w _ hw => ⟨hw, nofun⟩
  · exact upholds_pure ()

/-- What plays no body upholds what does not depend on more than such a part leaves alone. -/
theorem Ends.upholds (hP : ∀ {w w'}, P w → w.Continues w' → P w') (hx : Ends Continues x) :
    Upholds P x := by
  intro w hc hw
  obtain ⟨a, w', h, hi⟩ := hx w
  rw [h]
  exact ⟨hP hw hi, fun _ _ => hi.crash.trans hc⟩

theorem Ends.upholds_told (hP : ∀ {w w'}, P w → w.Continues w' → P w') (hx : Ends Told x) :
    Upholds P x :=
  Ends.upholds hP (hx.mono Told.continues)

theorem heard_execute (forced : Draws) (source : CaseSource) (seed : UInt64) :
    Upholds (Heard property limits before)
      (execute property forced source seed : RunM σ Case) := by
  intro w hc hw
  rcases execute_asks property forced source seed w with
    ⟨c, w', h, -, he, hs, hcrash, hi⟩ | ⟨c, w', h, -, hs, hcrash⟩ <;> rw [h]
  · refine ⟨⟨hs.trans hw.settings, fun _ => ?_⟩, fun _ _ => hcrash.trans hc⟩
    rw [hi, he, hw.flag hc, hw.settings]
    rfl
  · refine ⟨⟨hs.trans hw.settings, fun h => ?_⟩, nofun⟩
    rw [hcrash] at h
    cases h

/-- One more case may be executed if nobody has asked to stop. -/
theorem prompt_execute (forced : Draws) (source : CaseSource) (seed : UInt64)
    (hi : w.runner.interrupted = false) (hc : w.crash = none)
    (hw : w.Prompt property limits before) :
    Upheld (Prompt property limits before) (execute property forced source seed w) := by
  obtain ⟨hheard, hok⟩ := heard_execute forced source seed w hc hw.toHeard
  refine ⟨⟨hheard, ?_⟩, hok⟩
  rcases execute_asks property forced source seed w with
    ⟨c, w', h, -, he, -⟩ | ⟨c, w', h, he, -⟩ <;> rw [h, he]
  · rintro _ _ ⟨⟩
    rw [← hw.flag hc, hi]
  · exact hw.early

/-- A case and what follows, unless somebody has asked to stop. -/
theorem prompt_unless_interrupted {a : α} {f : Case → RunM σ α}
    (hf : ∀ c, Upholds (Prompt property limits before) (f c)) (forced : Draws) (source : CaseSource)
    (seed : UInt64) :
    Upholds (Prompt property limits before) (runner >>= fun r =>
      if r.interrupted then pure a else execute property forced source seed >>= f) := by
  intro w hc hw
  rw [runner_bind]
  split
  · exact upholds_pure a w hc hw
  · rename_i hi
    exact (prompt_execute forced source seed (Bool.eq_false_of_not_eq_true hi) hc hw).bind hf

/-! ## Phases -/

theorem prompt_reuseFrom (entries : List (EntryKind × Draws)) :
    Upholds (Prompt property limits before)
      (reuseFrom property entries : RunM σ (Option Case)) := by
  induction entries with
  | nil => exact upholds_pure none
  | cons entry rest ih =>
    refine prompt_unless_interrupted (fun c => ?_) _ _ _
    split
    · exact upholds_pure _
    · refine (upholds_refuseInvalid c).bind fun _ => ?_
      split
      · exact (Ends.upholds Prompt.continues (ends_withStore _ _)).bind fun _ => ih
      · exact ih

theorem prompt_reuse :
    Upholds (Prompt property limits before) (reuse property : RunM σ (Option Case)) := by
  rw [reuse_eq]
  refine upholds_runner_bind fun r => ?_
  split
  · exact upholds_pure none
  · refine (Ends.upholds Prompt.continues (ends_stored _)).bind fun loaded => ?_
    split
    · exact (Ends.upholds_told Prompt.continues (ends_databaseError _ _)).bind fun _ =>
        upholds_pure none
    · exact (Ends.upholds_told Prompt.continues (ends_tellLoaded _)).bind fun _ =>
        (Ends.upholds Prompt.continues (ends_setMode _)).bind fun _ => prompt_reuseFrom _

/-- By induction on how many cases may still be made. -/
theorem prompt_generateFrom (maxExamples maxInvalid : Nat) (seeds : ChaCha8)
    (monitor : HealthMonitor) (valid invalid : Nat) :
    Upholds (Prompt property limits before)
      (generateFrom property maxExamples maxInvalid seeds monitor valid invalid :
        RunM σ GenerationEnd) := by
  induction hn : (maxExamples - valid) + (maxInvalid - invalid) using Nat.strongRecOn
    generalizing seeds monitor valid invalid with
  | _ n ih =>
    rw [generateFrom_eq]
    split
    · refine prompt_unless_interrupted (fun c => ?_) _ _ _
      split
      · exact (Ends.upholds Prompt.continues (ends_saveFailure c)).bind fun _ => upholds_pure _
      · refine (upholds_refuseInvalid c).bind fun _ =>
          (Ends.upholds Prompt.continues (ends_keep c)).bind fun _ => ?_
        unfold judge
        split
        · exact (Ends.upholds_told Prompt.continues (ends_tellUnhealthy _)).bind fun _ =>
            upholds_pure _
        · split <;> split
          · exact upholds_pure _
          · exact ih _ (by omega) _ _ _ _ rfl
          · exact upholds_pure _
          · exact ih _ (by omega) _ _ _ _ rfl
    · exact upholds_pure _

theorem prompt_generate (seed : UInt64) :
    Upholds (Prompt property limits before) (generate property seed : RunM σ GenerationEnd) :=
  upholds_runner_bind fun _ => (Ends.upholds_told Prompt.continues (ends_tellPhase _)).bind fun _ =>
    (Ends.upholds Prompt.continues (ends_setMode _)).bind fun _ => prompt_generateFrom _ _ _ _ _ _

/-- A trial of a search is another case if nobody has asked to stop, and nothing if somebody has. -/
theorem prompt_trial (origin : Origin) (began : Duration) (candidate : Draws)
    (hw : w.Prompt property limits before) :
    ((oracle property origin began).trial candidate w).2.Prompt property limits before := by
  dsimp only [oracle]
  split
  · exact hw
  · rename_i hstop
    obtain ⟨hi, hcrash⟩ := Bool.or_eq_false_iff.1 (Bool.eq_false_of_not_eq_true hstop)
    have hnone : w.crash = none := by simpa using hcrash
    have hx := (prompt_execute candidate .shrinking replaySeed hi hnone hw).1
    rcases h : execute property candidate .shrinking replaySeed w with ⟨_ | _, _⟩ <;>
      rw [h] at hx <;> exact hx

/-- By induction on the steps of the search. -/
theorem prompt_search {origin : Origin} {began : Duration} {b : ShrinkBudget}
    {s t : Search (World σ)} (h : Search.Reaches (oracle property origin began) b s t)
    (hs : s.world.Prompt property limits before) : t.world.Prompt property limits before := by
  induction h with
  | refl => exact hs
  | @tail s _ _ hstep ih =>
    obtain ⟨c, -, rfl⟩ := hstep
    have hb : (s.checkBudget (oracle property origin began) b).world.Prompt
        property limits before := by
      rcases Search.world_checkBudget (oracle property origin began) b s with hw | hw <;> rw [hw]
      · exact ih
      · exact ih.continues ⟨rfl, rfl, rfl, rfl, rfl⟩
    have hc := Search.considered (oracle property origin began) b c s
    have ho := prompt_trial origin began c hb
    generalize s.consider (oracle property origin began) b c = r at hc
    cases hc with
    | same => exact ih
    | skipped => exact ih
    | exhausted => exact hb
    | refused answer world _ _ _ ht =>
      rw [ht] at ho
      exact ho
    | improved r world _ _ _ ht =>
      rw [ht] at ho
      exact ho

theorem prompt_shrink (initial : Case) (reason : FailureReason) :
    Upholds (Prompt property limits before)
      (shrink property initial reason : RunM σ Draws) := by
  rw [shrink_eq]
  refine (Ends.upholds_told Prompt.continues (ends_tellPhase _)).bind fun _ =>
    (Ends.upholds Prompt.continues (ends_setMode _)).bind fun _ => upholds_runner_bind fun r =>
      (Ends.upholds Prompt.continues ends_now).bind fun began w hc hw => ?_
  have hr := prompt_search (Search.reaches_run (o := oracle property reason.origin began)
    (b := r.settings.shrinkBudget) (Search.start initial.draws w)) hw
  change Upheld _ (leave _ w)
  generalize (Search.start initial.draws w).run (oracle property reason.origin began)
    r.settings.shrinkBudget = search at hr
  rcases hcrash : search.world.crash with _ | c
  · rw [leave_of_no_crash hcrash]
    exact (Ends.upholds Prompt.continues (ends_tellSearch search)).bind
      (fun _ => upholds_pure search.current) search.world hcrash hr
  · rw [leave_of_crash hcrash]
    exact ⟨hr, nofun⟩

theorem prompt_simplify (initial : Case) :
    Upholds (Prompt property limits before) (simplify property initial : RunM σ Draws) := by
  refine upholds_runner_bind fun r => ?_
  split
  · exact prompt_shrink initial _
  · exact upholds_pure _

/-! ## The final replay -/

/-- A part of a run executes at most so many cases, all of them final replays. -/
def Adds (n : Nat) (x : RunM σ α) : Prop :=
  ∀ w, ∃ cases, (x w).2.executed = cases ++ w.executed ∧ cases.length ≤ n ∧
    ∀ c ∈ cases, c.source = .finalReplay

theorem Adds.bind {m n : Nat} (hx : Adds m x) (hf : ∀ a, Adds n (f a)) :
    Adds (m + n) (x >>= f) := by
  intro w
  obtain ⟨cases, he, hl, hs⟩ := hx w
  rcases h : x w with ⟨e | a, w₁⟩ <;> rw [h] at he
  · rw [bind_of_error h]
    exact ⟨cases, he, by omega, hs⟩
  · obtain ⟨later, he', hl', hs'⟩ := hf a w₁
    rw [bind_of_ok h]
    refine ⟨later ++ cases, by rw [he', he, List.append_assoc], ?_, ?_⟩
    · rw [List.length_append]
      omega
    · exact fun c hm => (List.mem_append.1 hm).elim (hs' c) (hs c)

theorem adds_runner_bind {n : Nat} {f : Runner σ → RunM σ β} (h : ∀ r, Adds n (f r)) :
    Adds n (runner >>= f) := fun w => h w.runner w

theorem Ends.adds (hx : Ends Continues x) : Adds 0 x := by
  intro w
  obtain ⟨a, w', h, hi⟩ := hx w
  exact ⟨[], by rw [h]; exact hi.executed, Nat.le_refl 0, nofun⟩

theorem adds_pure (a : α) : Adds 0 (pure a : RunM σ α) :=
  Ends.adds (ends_pure continues_frame a)

theorem adds_execute (forced : Draws) (seed : UInt64) :
    Adds 1 (execute property forced .finalReplay seed : RunM σ Case) := by
  intro w
  rcases execute_asks property forced .finalReplay seed w with
    ⟨c, w', h, hs, he, -⟩ | ⟨c, w', h, he, -⟩ <;> rw [h]
  · exact ⟨[c], he, Nat.le_refl 1, by simpa using hs⟩
  · exact ⟨[], he, Nat.zero_le 1, nofun⟩

theorem Adds.mono {m n : Nat} (hx : Adds m x) (h : m ≤ n) : Adds n x := fun w =>
  let ⟨cases, he, hl, hs⟩ := hx w
  ⟨cases, he, hl.trans h, hs⟩

theorem adds_retry (initial : Case) (best : Draws) (name : String) :
    Adds 1 (retry property initial best name : RunM σ (Option Case)) := by
  unfold retry
  split
  · exact (adds_pure none).mono (Nat.zero_le 1)
  · exact (Ends.adds ((ends_tell _ _).mono Told.continues)).bind fun _ =>
      (adds_execute _ _).bind fun _ => adds_pure _

theorem ends_settle (initial : Case) (name : String) (again : Option Case) :
    Ends Told (settle initial name again : RunM σ (Outcome × Case)) := by
  rcases again with _ | first
  · exact (ends_tell _ _).bind told_frame fun _ => ends_pure told_frame _
  · exact ends_pure told_frame _

/-- The simplest case is replayed, and the first one if that does not fail. -/
theorem adds_finalReplay (initial : Case) (best : Draws) :
    Adds 2 (finalReplay property initial best : RunM σ (Outcome × Case)) := by
  rw [finalReplay_eq]
  refine (Ends.adds (ends_setMode _)).bind fun _ => (adds_execute _ _).bind (n := 1) fun c => ?_
  split
  · exact ((Ends.adds (ends_withStore _ _)).bind fun _ => adds_pure _).mono (Nat.zero_le 1)
  · exact adds_runner_bind fun r => (adds_retry initial best r.name).bind fun _ =>
      Ends.adds ((ends_settle initial r.name _).mono Told.continues)

theorem heard_finalReplay (initial : Case) (best : Draws) :
    Upholds (Heard property limits before)
      (finalReplay property initial best : RunM σ (Outcome × Case)) := by
  rw [finalReplay_eq]
  refine (Ends.upholds Heard.continues (ends_setMode _)).bind fun _ =>
    (heard_execute _ _ _).bind fun c => ?_
  split
  · exact (Ends.upholds Heard.continues (ends_withStore _ _)).bind fun _ => upholds_pure _
  · refine upholds_runner_bind fun r => Upholds.bind ?_ fun _ =>
      Ends.upholds_told Heard.continues (ends_settle initial r.name _)
    unfold retry
    split
    · exact upholds_pure none
    · exact (Ends.upholds_told Heard.continues (ends_tell _ _)).bind fun _ =>
        (heard_execute _ _ _).bind fun _ => upholds_pure _

/-! ## Whole runs -/

theorem ends_finish (outcome : Outcome) (example? : Option Counterexample)
    (health : Option HealthFailure) (seed : Option UInt64) :
    Ends Told (finish outcome example? health seed : RunM σ RunResult) := by
  intro w
  obtain ⟨w', h, t⟩ := finish_apply outcome example? health seed w
  exact ⟨_, w', h, t⟩

theorem ends_report (outcome : Outcome) (c : Case) (origin : Option UInt64) (seed : UInt64) :
    Ends Told (report outcome c origin seed : RunM σ RunResult) :=
  Ends.bind told_frame (ends_runner_bind fun _ => ends_pure told_frame _) fun _ =>
    ends_finish _ _ _ _

end RunM

namespace World

variable {σ : Type} {property : Property} {limits : Settings} {before : Bool} {w : World σ}

/-- Nobody had asked a run to stop before its last case, up to two final replays. -/
structure Stopped (property : Property) (limits : Settings) (before : Bool) (w : World σ) : Prop
    extends Heard property limits before w where
  replays : ∃ replays cases, w.executed = replays ++ cases ∧ replays.length ≤ 2 ∧
    (∀ c ∈ replays, c.source = .finalReplay) ∧
    ∀ c earlier, cases = c :: earlier → property.asked limits before earlier = false

theorem Prompt.stopped (h : w.Prompt property limits before) : w.Stopped property limits before :=
  ⟨h.toHeard, [], w.executed, rfl, Nat.zero_le 2, nofun, h.early⟩

/-- Whatever follows a moment at which somebody had asked is among the final replays. -/
theorem Stopped.later (h : w.Stopped property limits before) {later earlier : List Case}
    (he : w.executed = later ++ earlier) (ha : property.asked limits before earlier = true) :
    later.length ≤ 2 ∧ ∀ c ∈ later, c.source = .finalReplay := by
  obtain ⟨replays, cases, hr, hl, hs, hearly⟩ := h.replays
  rcases List.append_eq_append_iff.1 (he.symm.trans hr) with ⟨rest, rfl, -⟩ | ⟨rest, rfl, rfl⟩
  · rw [List.length_append] at hl
    exact ⟨by omega, fun c hc => hs c (List.mem_append_left _ hc)⟩
  · rcases rest with _ | ⟨c, rest⟩
    · rw [List.append_nil]
      exact ⟨hl, hs⟩
    · -- Otherwise somebody had asked before the last case that is no final replay.
      cases (hearly c (rest ++ earlier) rfl).symm.trans (Property.asked_of_append ha)

end World

namespace RunM

open World

variable {σ α β : Type} {property : Property} {limits : Settings} {before : Bool} {w w' : World σ}
  {x : RunM σ α} {f : α → RunM σ β}

/-- A part of a run after which nothing is done. -/
def Stops (property : Property) (limits : Settings) (before : Bool) (x : RunM σ α) : Prop :=
  ∀ w, w.crash = none → w.Prompt property limits before → (x w).2.Stopped property limits before

theorem Upholds.stops (hx : Upholds (Prompt property limits before) x) :
    Stops property limits before x := fun w hc hw => (hx w hc hw).1.stopped

theorem Upholds.bind_stops (hx : Upholds (Prompt property limits before) x)
    (hf : ∀ a, Stops property limits before (f a)) : Stops property limits before (x >>= f) := by
  intro w hc hw
  obtain ⟨hp, hok⟩ := hx w hc hw
  rcases h : x w with ⟨e | a, w₁⟩ <;> rw [h] at hp hok
  · rw [bind_of_error h]
    exact hp.stopped
  · rw [bind_of_ok h]
    exact hf a w₁ (hok a rfl) hp

theorem Ends.stops_told (hx : Ends Told x) : Stops property limits before x :=
  (Ends.upholds_told Prompt.continues hx).stops

theorem stops_conclude (initial : Case) (fromDatabase : Bool) (seed : UInt64) :
    Stops property limits before
      (conclude property initial fromDatabase seed : RunM σ RunResult) := by
  rw [conclude_eq]
  refine (prompt_simplify initial).bind_stops fun best w hc hw => ?_
  have hreport : ∀ r : Outcome × Case, Ends Told
      (report r.1 r.2 (if fromDatabase then none else some seed) seed : RunM σ RunResult) :=
    fun r => ends_report _ _ _ _
  obtain ⟨hheard, -⟩ := ((heard_finalReplay initial best).bind fun r =>
    Ends.upholds_told Heard.continues (hreport r)) w hc hw.toHeard
  obtain ⟨cases, he, hl, hs⟩ := ((adds_finalReplay initial best).bind fun r =>
    Ends.adds ((hreport r).mono Told.continues)) w
  exact ⟨hheard, cases, w.executed, he, hl, hs, hw.early⟩

theorem stops_proceed (seed : UInt64) (settings : Settings) (reused : Option Case) :
    Stops property limits before
      (proceed property seed settings reused : RunM σ RunResult) := by
  unfold proceed
  split
  · exact stops_conclude _ _ _
  · intro w
    rw [runner_bind]
    split
    · exact Ends.stops_told (ends_finish _ _ _ _) w
    · split
      · refine (prompt_generate seed).bind_stops (fun ending => ?_) w
        split
        · exact Ends.stops_told (ends_finish _ _ _ _)
        · exact stops_conclude _ _ _
        · exact Ends.stops_told (ends_finish _ _ _ _)
        · exact Ends.stops_told (ends_finish _ _ _ _)
      · exact Ends.stops_told (ends_finish _ _ _ _) w

theorem stops_search (host : Host σ) :
    Stops property limits before (search host property) := by
  rw [search_eq]
  refine (Ends.upholds_told Prompt.continues (ends_resolveSeed host)).bind_stops fun seed w => ?_
  rw [runner_bind]
  refine (Ends.upholds_told Prompt.continues (ends_tellPhase _)).bind_stops (fun _ => ?_) w
  split
  · exact prompt_reuse.bind_stops fun _ => stops_proceed _ _ _
  · exact (upholds_pure none).bind_stops fun _ => stops_proceed _ _ _

/-! ## Runs that pass -/

/-- If a part of a run gives a result, it is such a one. -/
def Gives (Q : α → Prop) (x : RunM σ α) : Prop :=
  ∀ w a w', x w = (.ok a, w') → Q a

variable {Q : α → Prop} {T : β → Prop}

theorem gives_pure {a : α} (h : Q a) : Gives Q (pure a : RunM σ α) := by
  rintro w _ _ ⟨⟩
  exact h

theorem Gives.bind (hx : Gives Q x) (hf : ∀ a, Q a → Gives T (f a)) : Gives T (x >>= f) := by
  intro w b w' h
  obtain ⟨a, w₁, hw, h⟩ := bind_eq_ok h
  exact hf a (hx w a w₁ hw) w₁ b w' h

theorem gives_bind (hf : ∀ a, Gives T (f a)) : Gives T (x >>= f) :=
  Gives.bind (Q := fun _ => True) (fun _ _ _ _ => trivial) fun a _ => hf a

/-- What is reported after a failing case is a failure. -/
theorem gives_finalReplay (initial : Case) (best : Draws) :
    Gives (fun r => r.1.isFailure = true)
      (finalReplay property initial best : RunM σ (Outcome × Case)) := by
  rw [finalReplay_eq]
  refine gives_bind fun _ => gives_bind fun c => ?_
  split
  · rename_i hc
    exact gives_bind fun _ => gives_pure hc
  · refine gives_bind fun r => Gives.bind (Q := fun again => ∀ first ∈ again,
      Outcome.isFailure (Case.outcome first) = true) ?_ fun again ha => ?_
    · unfold retry
      split
      · exact gives_pure nofun
      · refine gives_bind fun _ => gives_bind fun first => gives_pure ?_
        split
        · rename_i hf
          rintro _ ⟨⟩
          exact hf
        · nofun
    · rcases again with _ | first
      · exact gives_bind fun _ => gives_pure rfl
      · exact gives_pure (ha first rfl)

theorem gives_conclude (initial : Case) (fromDatabase : Bool) (seed : UInt64) :
    Gives (fun result => result.outcome ≠ .passed)
      (conclude property initial fromDatabase seed : RunM σ RunResult) := by
  rw [conclude_eq]
  refine gives_bind fun best => (gives_finalReplay initial best).bind fun r hr => gives_bind ?_
  intro e w result w' h hpass
  rw [finish_outcome h] at hpass
  rw [hpass] at hr
  cases hr

/-- The phase is complete once enough cases have passed, and the last case is one of them: by
induction on how many may still be made. -/
theorem exhausted_generateFrom {maxExamples maxInvalid : Nat} {seeds : ChaCha8}
    {monitor : HealthMonitor} {valid invalid : Nat} (hv : valid ≤ maxExamples)
    (hg : generateFrom property maxExamples maxInvalid seeds monitor valid invalid w =
      (.ok .exhausted, w')) :
    w'.executed.countP Case.mayCover + valid = w.executed.countP Case.mayCover + maxExamples ∧
      (valid = maxExamples ∧ w'.executed = w.executed ∨
        ∃ c earlier, w'.executed = c :: earlier ∧ c.mayCover = true) := by
  induction hn : (maxExamples - valid) + (maxInvalid - invalid) using Nat.strongRecOn
    generalizing seeds monitor valid invalid w with
  | _ n ih =>
    rw [generateFrom_eq] at hg
    split at hg
    · rename_i hlt
      rw [runner_bind] at hg
      split at hg
      · cases hg
      · obtain ⟨c, w₁, hx, hg⟩ := bind_eq_ok hg
        obtain ⟨hs, _, _, _, _, -, rfl⟩ := ran_of_execute hx
        split at hg
        · obtain ⟨_, _, -, hg⟩ := bind_eq_ok hg
          cases hg
        · obtain ⟨⟨⟩, w₂, hk, hg⟩ := (ends_keep c).bind_eq_ok (refuseInvalid_bind hg)
          have he : w₂.executed = c :: w.executed := hk.executed
          unfold judge at hg
          rcases hmo : monitor.observe c with ⟨_ | failure, monitor'⟩ <;> rw [hmo] at hg
          · dsimp only at hg
            split at hg
            · rename_i hpass
              have hmay : c.mayCover = true := by simp [Case.mayCover, hs, hpass]
              split at hg
              · cases hg
              · obtain ⟨hcount, hlast⟩ := ih _ (by omega) hlt hg rfl
                rw [he, List.countP_cons_of_pos hmay] at hcount
                refine ⟨by omega, .inr ?_⟩
                rcases hlast with ⟨-, hsame⟩ | hlast
                · exact ⟨c, w.executed, hsame.trans he, hmay⟩
                · exact hlast
            · rename_i hpass
              have hmay : ¬ c.mayCover = true := by simp [Case.mayCover, hpass]
              split at hg
              · cases hg
              · obtain ⟨hcount, hlast⟩ := ih _ (by omega) hv hg rfl
                rw [he, List.countP_cons_of_neg hmay] at hcount
                rcases hlast with ⟨hfull, -⟩ | hlast
                · omega
                · exact ⟨hcount, .inr hlast⟩
          · obtain ⟨_, _, -, hg⟩ := bind_eq_ok hg
            cases hg
    · cases hg
      have : valid = maxExamples := by omega
      exact ⟨by omega, .inl ⟨this, rfl⟩⟩

/-- A run passes after the cases in the database if it makes no new cases, or if it makes enough of
them. -/
theorem proceed_passed {seed : UInt64} {settings : Settings} {reused : Option Case}
    {result : RunResult} (h : proceed property seed settings reused w = (.ok result, w'))
    (ho : result.outcome = .passed) :
    w.runner.interrupted = false ∧ (w'.executed = w.executed ∨
      w'.executed.countP Case.mayCover =
        w.executed.countP Case.mayCover + w.runner.settings.maxExamples ∧
      ∃ c earlier, w'.executed = c :: earlier ∧ c.mayCover = true) := by
  rcases reused with _ | c
  · rw [proceed, runner_bind] at h
    split at h
    · cases (finish_outcome h).symm.trans ho
    · rename_i hi
      refine ⟨Bool.eq_false_of_not_eq_true hi, ?_⟩
      split at h
      · obtain ⟨ending, w₁, hg, h⟩ := bind_eq_ok h
        rcases ending with _ | c | reason | failure
        · rw [((ends_finish _ _ _ _).rel h).continues.executed]
          rw [generate, runner_bind] at hg
          obtain ⟨_, w₂, h₂, hg⟩ := (ends_tellPhase _).bind_eq_ok hg
          obtain ⟨_, w₃, h₃, hg⟩ := (ends_setMode _).bind_eq_ok hg
          obtain ⟨hcount, hlast⟩ := exhausted_generateFrom (Nat.zero_le _) hg
          rw [h₃.executed, h₂.continues.executed] at hcount hlast
          rcases hlast with ⟨-, hsame⟩ | hlast
          · exact .inl hsame
          · exact .inr ⟨hcount, hlast⟩
        · exact (gives_conclude _ _ _ _ _ _ h ho).elim
        · cases (finish_outcome h).symm.trans ho
        · cases (finish_outcome h).symm.trans ho
      · exact .inl ((ends_finish _ _ _ _).rel h).continues.executed
  · exact (gives_conclude _ _ _ _ _ _ h ho).elim

/-- A search passes in the same ways. Before new cases are made there are none but those from the
database. -/
theorem search_passed {host : Host σ} (hc : w.crash = none) (hw : w.Prompt property limits before)
    (he : w.executed = []) {result : RunResult}
    (h : search host property w = (.ok result, w')) (ho : result.outcome = .passed) :
    property.asked limits before w'.executed = false ∨
      w'.executed.countP Case.mayCover = limits.maxExamples ∧
      ∃ c earlier, w'.executed = c :: earlier ∧ c.mayCover = true := by
  rw [search_eq] at h
  obtain ⟨seed, w₁, h₁, h⟩ := (ends_resolveSeed host).bind_eq_ok h
  rw [runner_bind] at h
  obtain ⟨_, w₂, h₂, h⟩ := (ends_tellPhase _).bind_eq_ok h
  have hcont := continues_frame.trans h₁.continues h₂.continues
  have hc₂ : w₂.crash = none := hcont.crash.trans hc
  have hw₂ := hw.continues hcont
  -- The cases before new ones are made, and what is known then.
  obtain ⟨reused, w₃, hp, hc₃, hcount, h⟩ : ∃ reused w₃, w₃.Prompt property limits before ∧
      w₃.crash = none ∧ w₃.executed.countP Case.mayCover = 0 ∧
      proceed property seed w₁.runner.settings reused w₃ = (.ok result, w') := by
    have he₂ : w₂.executed = [] := hcont.executed.trans he
    split at h
    · obtain ⟨reused, w₃, hr, h⟩ := bind_eq_ok h
      obtain ⟨hp, hok⟩ := prompt_reuse w₂ hc₂ hw₂
      rw [hr] at hp hok
      obtain ⟨cases, hcases, hs, -⟩ := ((runs_reuse (E := fun _ => True)
        (onward_frame (S := (· = .database))).toStoreFrame rfl (fun _ => trivial)
        property).rel hr).executed
      refine ⟨reused, w₃, hp, hok reused rfl, ?_, h⟩
      rw [hcases, he₂, List.append_nil, List.countP_eq_zero]
      intro c hm
      rw [Case.mayCover_of_source (by rw [hs c hm]; decide)]
      exact Bool.false_ne_true
    · exact ⟨none, w₂, hw₂, hc₂, by rw [he₂]; rfl, h⟩
  obtain ⟨hi, hsame | ⟨hall, hlast⟩⟩ := proceed_passed h ho
  · rw [hsame, ← hp.flag hc₃]
    exact .inl hi
  · rw [hcount, hp.settings, Nat.zero_add] at hall
    exact .inr ⟨hall, hlast⟩

end RunM

open World RunM

/-- An interrupt takes effect between two cases. Say that somebody has asked a run to stop, before
it began or in one of its calls. Then no case follows but up to two final replays, and the run
passes only if the call that asked was the last one, its case was a new one, and it was the last of
as many passing ones as the run was meant to make. -/
theorem interrupts_stop_runs {σ : Type} (host : Host σ) (property : Property) {w : World σ}
    (hr : w.runner.settings.reproduce = none) :
    let r := runProperty host property w
    let asked := property.asked w.runner.settings w.runner.interrupted
    (r.2.crash = none → r.2.runner.interrupted = asked r.2.executed) ∧
      (∀ later earlier, r.2.executed = later ++ earlier → asked earlier = true →
        later.length ≤ 2 ∧ ∀ c ∈ later, c.source = .finalReplay) ∧
      ∀ result, r.1 = .ok result → result.outcome = .passed → asked r.2.executed = true →
        ∃ c earlier, r.2.executed = c :: earlier ∧ asked earlier = false ∧
          c.source = .generated ∧ c.outcome = .passed ∧
          r.2.executed.countP Case.mayCover = w.runner.settings.maxExamples := by
  rcases h : runProperty host property w with ⟨answer, w'⟩
  intro r asked
  rcases hv : w.runner.settings.validate with e | ⟨⟩
  · cases h.symm.trans (runProperty_invalid host property hv)
    refine ⟨fun _ => rfl, fun later earlier he _ => ?_, by rintro _ ⟨⟩⟩
    obtain ⟨rfl, -⟩ := List.append_eq_nil_iff.1 he.symm
    exact ⟨Nat.zero_le 2, nofun⟩
  · obtain ⟨w₁, hb, h₁⟩ := runProperty_begun host property hv
    rw [hr] at h₁
    have hsearch : search host property w₁ = (answer, w') := h₁.symm.trans h
    have hw₁ : w₁.Prompt property w.runner.settings w.runner.interrupted := by
      refine ⟨⟨hb.settings, fun _ => ?_⟩, ?_⟩
      · rw [hb.executed, hb.interrupted]
        rfl
      · rw [hb.executed]
        nofun
    have hstop : w'.Stopped property w.runner.settings w.runner.interrupted := by
      have := stops_search host w₁ hb.crash hw₁
      rwa [hsearch] at this
    refine ⟨hstop.flag, fun _ _ => hstop.later, ?_⟩
    rintro result rfl hpass hasked
    rcases search_passed hb.crash hw₁ hb.executed hsearch hpass with
      hnot | ⟨hcount, c, earlier, he, hmay⟩
    · cases hasked.symm.trans hnot
    · obtain ⟨hs, ho⟩ := of_decide_eq_true hmay
      refine ⟨c, earlier, he, ?_, hs, ho, hcount⟩
      -- The last case is no final replay, so nobody had asked before it.
      cases hearly : asked earlier with
      | false => rfl
      | true =>
        have hc : w'.executed = [c] ++ earlier := he
        have := (hstop.later hc hearly).2 c List.mem_cons_self
        cases hs.symm.trans this

/-- A run whose first call asks it to stop and fails: the failure is replayed once more. -/
theorem interrupts_stop_runs_failing :
    let property : Property := fun _ => .interrupt (.done (.error (.failed "no")))
    let w : World Memory := .stocked [.generate] 7 .empty
    let r := runProperty .bare property w
    w.runner.settings.reproduce = none ∧ r.2.executed.length = 2 ∧
      property.asked w.runner.settings w.runner.interrupted (r.2.executed.drop 1) = true ∧
      ∀ c ∈ r.2.executed.take 1, c.source = .finalReplay := by
  intro property w r
  obtain ⟨hl, ha⟩ : r.2.executed.length = 2 ∧
      property.asked w.runner.settings w.runner.interrupted (r.2.executed.drop 1) = true := by
    decide +kernel
  obtain ⟨-, hlater, -⟩ := interrupts_stop_runs .bare property (w := w) rfl
  exact ⟨rfl, hl, ha, (hlater _ _ (List.take_append_drop 1 _).symm ha).2⟩

end Falsify
