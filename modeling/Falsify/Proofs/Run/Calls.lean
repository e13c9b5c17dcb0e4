import Falsify.Proofs.Run.Delivery
import Falsify.Proofs.Shrink.Mirror

/-!
# A run calls the body for its cases only

A property may give each call another body. A run that gives a result has made one call for each
case that it executed, and no other one: it is the same run for any property that has the same
bodies at these calls.

* `Property.Matches`: properties that have the same bodies at the calls for some cases;
* `Echoes`: what one part of a run does for one property, another does for another;
* `echoes_shrink`: a search does, unless it crashes the run;
* `runProperty_of_matches`: whole runs do.
-/

namespace Falsify

/-- At the calls for some cases, the latest of which comes first, two properties have the same
bodies. -/
def Property.Matches (property property' : Property) (cases : List Case) : Prop :=
  ∀ c earlier, (c :: earlier) <:+ cases → property' earlier = property earlier

namespace RunM

open World

variable {σ α β : Type} {property property' : Property} {cases : List Case}

/-- An execution depends on the body of its own call. -/
theorem execute_congr {w : World σ} (h : property' w.executed = property w.executed)
    (forced : Draws) (source : CaseSource) (seed : UInt64) :
    execute property' forced source seed w = execute property forced source seed w := by
  rw [execute_apply, execute_apply, h]

/-- Whenever a part of a run gives a result and has executed none but some cases, so had the run
before it, and another part does the same. -/
def Echoes (cases : List Case) (x y : RunM σ α) : Prop :=
  ∀ w a w', x w = (.ok a, w') → w'.executed <:+ cases → w.executed <:+ cases ∧ y w = (.ok a, w')

theorem Echoes.bind {x y : RunM σ α} {f g : α → RunM σ β} (hx : Echoes cases x y)
    (hf : ∀ a, Echoes cases (f a) (g a)) : Echoes cases (x >>= f) (y >>= g) := by
  intro w b w' h he
  obtain ⟨a, w₁, h₁, h₂⟩ := bind_eq_ok h
  obtain ⟨he₁, hg⟩ := hf a w₁ b w' h₂ he
  obtain ⟨he₀, hy⟩ := hx w a w₁ h₁ he₁
  exact ⟨he₀, (bind_of_ok hy).trans hg⟩

theorem Ends.echoes {x : RunM σ α} (hx : Ends Continues x) : Echoes cases x x :=
  fun _ _ _ h he => ⟨(hx.rel h).executed ▸ he, h⟩

theorem Ends.echoes_told {x : RunM σ α} (hx : Ends Told x) : Echoes cases x x :=
  Ends.echoes (hx.mono Told.continues)

theorem echoes_pure (a : α) : Echoes cases (pure a : RunM σ α) (pure a) :=
  Ends.echoes (ends_pure continues_frame a)

theorem echoes_throw (e : RunError) : Echoes cases (throw e : RunM σ α) (throw e) := by
  rintro _ _ _ ⟨⟩

theorem echoes_runner_bind {f g : Runner σ → RunM σ β} (h : ∀ r, Echoes cases (f r) (g r)) :
    Echoes cases (runner >>= f) (runner >>= g) := fun w => h w.runner w

theorem echoes_refuseInvalid (c : Case) :
    Echoes cases (refuseInvalid c : RunM σ Unit) (refuseInvalid c) := by
  unfold refuseInvalid
  split
  · exact echoes_throw _
  · exact echoes_pure ()

section Phases

variable (hm : property.Matches property' cases)

include hm

theorem echoes_execute (forced : Draws) (source : CaseSource) (seed : UInt64) :
    Echoes cases (execute property forced source seed : RunM σ Case)
      (execute property' forced source seed) := by
  intro w c w' h he
  obtain ⟨-, _, _, _, _, -, rfl⟩ := ran_of_execute h
  exact ⟨(List.suffix_cons c w.executed).trans he,
    (execute_congr (hm c w.executed he) forced source seed).trans h⟩

/-! ## Cases from the database, and new ones -/

theorem echoes_reuseFrom (entries : List (EntryKind × Draws)) :
    Echoes cases (reuseFrom property entries : RunM σ (Option Case))
      (reuseFrom property' entries) := by
  induction entries with
  | nil => exact echoes_pure none
  | cons entry rest ih =>
    refine echoes_runner_bind fun r => ?_
    split
    · exact echoes_pure none
    · refine (echoes_execute hm _ _ _).bind fun c => ?_
      split
      · exact echoes_pure _
      · refine (echoes_refuseInvalid c).bind fun _ => ?_
        split
        · exact (Ends.echoes (ends_withStore _ _)).bind fun _ => ih
        · exact ih

theorem echoes_reuse :
    Echoes cases (reuse property : RunM σ (Option Case)) (reuse property') := by
  rw [reuse_eq, reuse_eq]
  refine echoes_runner_bind fun r => ?_
  split
  · exact echoes_pure none
  · refine (Ends.echoes (ends_stored _)).bind fun loaded => ?_
    split
    · exact (Ends.echoes_told (ends_databaseError _ _)).bind fun _ => echoes_pure none
    · exact (Ends.echoes_told (ends_tellLoaded _)).bind fun _ =>
        (Ends.echoes (ends_setMode _)).bind fun _ => echoes_reuseFrom hm _

/-- By induction on how many cases may still be made. -/
theorem echoes_generateFrom (maxExamples maxInvalid : Nat) (seeds : ChaCha8)
    (monitor : HealthMonitor) (valid invalid : Nat) :
    Echoes cases
      (generateFrom property maxExamples maxInvalid seeds monitor valid invalid :
        RunM σ GenerationEnd)
      (generateFrom property' maxExamples maxInvalid seeds monitor valid invalid) := by
  induction hn : (maxExamples - valid) + (maxInvalid - invalid) using Nat.strongRecOn
    generalizing seeds monitor valid invalid with
  | _ n ih =>
    rw [generateFrom_eq, generateFrom_eq]
    split
    · refine echoes_runner_bind fun r => ?_
      split
      · exact echoes_pure _
      · refine (echoes_execute hm _ _ _).bind fun c => ?_
        split
        · exact (Ends.echoes (ends_saveFailure c)).bind fun _ => echoes_pure _
        · refine (echoes_refuseInvalid c).bind fun _ =>
            (Ends.echoes (ends_keep c)).bind fun _ => ?_
          unfold judge
          split
          · exact (Ends.echoes_told (ends_tellUnhealthy _)).bind fun _ => echoes_pure _
          · split <;> split
            · exact echoes_pure _
            · exact ih _ (by omega) _ _ _ _ rfl
            · exact echoes_pure _
            · exact ih _ (by omega) _ _ _ _ rfl
    · exact echoes_pure _

theorem echoes_generate (seed : UInt64) :
    Echoes cases (generate property seed : RunM σ GenerationEnd) (generate property' seed) :=
  echoes_runner_bind fun _ => (Ends.echoes_told (ends_tellPhase _)).bind fun _ =>
    (Ends.echoes (ends_setMode _)).bind fun _ => echoes_generateFrom hm _ _ _ _ _ _

/-! ## Simpler failures -/

omit hm in
/-- Worlds as they are, if the run has not crashed and has executed none but some cases. -/
def unspoilt (cases : List Case) : Mirror (World σ) (World σ) where
  good w := w.crash = none ∧ w.executed <:+ cases
  image := id

theorem reflects_trial_of_matches (origin : Origin) (began : Duration) (candidate : Draws) :
    (unspoilt cases).Reflects
      ((oracle property origin began).trial candidate : StateM (World σ) _)
      ((oracle property' origin began).trial candidate) := by
  intro w
  dsimp only [unspoilt, oracle, id]
  by_cases hstop : (w.runner.interrupted || w.crash.isSome) = true
  · simp only [if_pos hstop]
    exact fun hw => ⟨hw, trivial⟩
  · have hnone : w.crash = none := by
      have := (Bool.or_eq_false_iff.1 (Bool.eq_false_of_not_eq_true hstop)).2
      simpa using this
    simp only [if_neg hstop]
    rcases hx : execute property candidate .shrinking replaySeed w with ⟨e | c, w₁⟩ <;> intro hw
    · exact absurd hw.1 (crash_of_execute hx)
    · obtain ⟨he, hy⟩ := echoes_execute hm candidate .shrinking replaySeed w c w₁ hx hw.2
      rw [hy]
      exact ⟨⟨hnone, he⟩, rfl⟩

/-- A search that has not crashed the run is the same for both properties. -/
theorem echoes_shrink (initial : Case) (reason : FailureReason) :
    Echoes cases (shrink property initial reason : RunM σ Draws)
      (shrink property' initial reason) := by
  rw [shrink_eq, shrink_eq]
  refine (Ends.echoes_told (ends_tellPhase _)).bind fun _ =>
    (Ends.echoes (ends_setMode _)).bind fun _ => echoes_runner_bind fun r =>
      (Ends.echoes ends_now).bind fun began => ?_
  have hsearch := Mirror.follows_run (m := unspoilt cases)
    (reflects_trial_of_matches (σ := σ) hm reason.origin began) (b := r.settings.shrinkBudget)
    (.inr fun _ hw => ⟨hw, rfl⟩)
  intro w best w' h he
  change leave _ w = _ at h
  change _ ∧ leave _ w = _
  have hstart := hsearch (Search.start initial.draws w)
  generalize (Search.start initial.draws w).run (oracle property reason.origin began) _ = s
    at h hstart
  rcases hc : s.world.crash with _ | crash
  · have hleave := h
    rw [leave_of_no_crash hc] at hleave
    have hexecuted : s.world.executed <:+ cases :=
      (((Ends.echoes (ends_tellSearch s)).bind fun _ => echoes_pure s.current) _ _ _ hleave he).1
    obtain ⟨⟨-, hw⟩, himage⟩ := hstart ⟨hc, hexecuted⟩
    exact ⟨hw, (congrArg (fun t => leave t w) himage).trans h⟩
  · rw [leave_of_crash hc] at h
    cases h

theorem echoes_simplify (initial : Case) :
    Echoes cases (simplify property initial : RunM σ Draws) (simplify property' initial) := by
  refine echoes_runner_bind fun r => ?_
  split
  · exact echoes_shrink hm initial _
  · exact echoes_pure _

/-! ## The final replay -/

theorem echoes_retry (initial : Case) (best : Draws) (name : String) :
    Echoes cases (retry property initial best name : RunM σ (Option Case))
      (retry property' initial best name) := by
  unfold retry
  split
  · exact echoes_pure none
  · exact (Ends.echoes_told (ends_tell _ _)).bind fun _ => (echoes_execute hm _ _ _).bind fun _ =>
      echoes_pure _

omit hm in
theorem echoes_settle (initial : Case) (name : String) (again : Option Case) :
    Echoes cases (settle initial name again : RunM σ (Outcome × Case))
      (settle initial name again) := by
  rcases again with _ | first
  · exact (Ends.echoes_told (ends_tell _ _)).bind fun _ => echoes_pure _
  · exact echoes_pure _

theorem echoes_finalReplay (initial : Case) (best : Draws) :
    Echoes cases (finalReplay property initial best : RunM σ (Outcome × Case))
      (finalReplay property' initial best) := by
  rw [finalReplay_eq, finalReplay_eq]
  refine (Ends.echoes (ends_setMode _)).bind fun _ => (echoes_execute hm _ _ _).bind fun c => ?_
  split
  · exact (Ends.echoes (ends_withStore _ _)).bind fun _ => echoes_pure _
  · exact echoes_runner_bind fun r => (echoes_retry hm initial best r.name).bind fun _ =>
      echoes_settle initial r.name _

/-! ## Whole runs -/

omit hm in
theorem echoes_finish (outcome : Outcome) (example? : Option Counterexample)
    (health : Option HealthFailure) (seed : Option UInt64) :
    Echoes cases (finish outcome example? health seed : RunM σ RunResult)
      (finish outcome example? health seed) := by
  refine Ends.echoes_told fun w => ?_
  obtain ⟨w', h, t⟩ := finish_apply outcome example? health seed w
  exact ⟨_, w', h, t⟩

omit hm in
theorem echoes_counterexample (c : Case) (outcome : Outcome) (seed : Option UInt64) :
    Echoes cases (counterexample c outcome seed : RunM σ Counterexample)
      (counterexample c outcome seed) :=
  echoes_runner_bind fun _ => echoes_pure _

theorem echoes_conclude (initial : Case) (fromDatabase : Bool) (seed : UInt64) :
    Echoes cases (conclude property initial fromDatabase seed : RunM σ RunResult)
      (conclude property' initial fromDatabase seed) := by
  rw [conclude_eq, conclude_eq]
  exact (echoes_simplify hm initial).bind fun best => (echoes_finalReplay hm initial best).bind
    fun _ => (echoes_counterexample _ _ _).bind fun _ => echoes_finish _ _ _ _

theorem echoes_proceed (seed : UInt64) (settings : Settings) (reused : Option Case) :
    Echoes cases (proceed property seed settings reused : RunM σ RunResult)
      (proceed property' seed settings reused) := by
  unfold proceed
  split
  · exact echoes_conclude hm _ _ _
  · refine echoes_runner_bind fun r => ?_
    split
    · exact echoes_finish _ _ _ _
    · split
      · refine (echoes_generate hm seed).bind fun ending => ?_
        split
        · exact echoes_finish _ _ _ _
        · exact echoes_conclude hm _ _ _
        · exact echoes_finish _ _ _ _
        · exact echoes_finish _ _ _ _
      · exact echoes_finish _ _ _ _

theorem echoes_search (host : Host σ) :
    Echoes cases (search host property) (search host property') := by
  rw [search_eq, search_eq]
  refine (Ends.echoes_told (ends_resolveSeed host)).bind fun seed => echoes_runner_bind fun r =>
    (Ends.echoes_told (ends_tellPhase _)).bind fun _ => ?_
  split
  · exact (echoes_reuse hm).bind fun _ => echoes_proceed hm _ _ _
  · exact (echoes_pure none).bind fun _ => echoes_proceed hm _ _ _

theorem echoes_reproduce (token : String) :
    Echoes cases (reproduce property token : RunM σ RunResult) (reproduce property' token) := by
  unfold reproduce
  split
  · exact echoes_throw _
  · refine echoes_runner_bind fun r => (Ends.echoes_told (ends_tellPhase _)).bind fun _ =>
      (Ends.echoes (ends_setMode _)).bind fun _ => (echoes_execute hm _ _ _).bind fun c =>
        (echoes_refuseInvalid c).bind fun _ => ?_
    split
    · exact (echoes_counterexample _ _ _).bind fun _ => echoes_finish _ _ _ _
    · exact echoes_finish _ _ _ _

end Phases

/-- A run that gives a result is the same for any property that has the same bodies at the calls for
the cases that it executed. -/
theorem runProperty_of_matches {host : Host σ} {w w' : World σ} {result : RunResult}
    (h : runProperty host property w = (.ok result, w'))
    (hm : property.Matches property' w'.executed) :
    runProperty host property' w = (.ok result, w') := by
  have hv := valid_of_runProperty h
  rw [runProperty_of_valid host property hv] at h
  rw [runProperty_of_valid host property' hv]
  obtain ⟨w₁, hopen, -⟩ := openDatabase_apply host (w.begun host)
  rw [bind_of_ok hopen] at h ⊢
  refine (echoes_runner_bind (fun r => ?_) w₁ result w' h (List.suffix_refl _)).2
  split
  · exact echoes_reproduce hm _
  · exact echoes_search hm host

end RunM

end Falsify
