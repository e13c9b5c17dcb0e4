import Falsify.Proofs.Run.Books
import Falsify.Proofs.Run.Generation
import Falsify.Proofs.Run.Independence

/-!
# Properties that always pass

A run of a property whose cases all pass makes as many of them as the settings ask for, and passes.
There is one exception: if not even one case may be turned down, the run is given up after the first
case, though nothing was turned down.

* `World.Bare`: nothing of the test is stored;
* `generate_passing`: new cases that pass are made until there are enough;
* `passing_run_passes`: the theorem, and `passing_run_given_up`, the exception.
-/

namespace Falsify

namespace World

variable {σ : Type} {w : World σ}

/-- There is no database, or one from which no case of the test can be loaded. -/
def Bare (w : World σ) : Prop :=
  ∀ backend ∈ w.runner.store, ∀ log loaded storage,
    Examples.load backend w.runner.key ⟨w.storage.contents, log⟩ = (.ok loaded, storage) →
      loaded.entries = []

/-- A database that gives no values under the keys of the test is such a one. -/
theorem bare_of_fetch_nil (h : ∀ backend ∈ w.runner.store, ∀ (kind : EntryKind) (log : Log),
    ∃ log', backend.fetch (kind.keyOf w.runner.key) ⟨w.storage.contents, log⟩ =
      (.ok [], ⟨w.storage.contents, log'⟩)) : w.Bare := by
  intro backend hb log loaded storage hload
  have hkind : ∀ (kind : EntryKind) (log : Log), ∃ log',
      Examples.loadKind backend w.runner.key kind ⟨w.storage.contents, log⟩ =
        (.ok ([], 0), ⟨w.storage.contents, log'⟩) := by
    intro kind log
    obtain ⟨log', hf⟩ := h backend hb kind log
    have hsorted : sortDraws [] = [] := List.mergeSort_nil
    refine ⟨log', ?_⟩
    rw [Examples.loadKind, StoreM.bind_of_ok hf]
    change (Except.ok (sortDraws [], 0), _) = _
    rw [hsorted]
  obtain ⟨log₁, h₁⟩ := hkind .failing log
  obtain ⟨log₂, h₂⟩ := hkind .covering log₁
  rw [Examples.load, StoreM.bind_of_ok h₁] at hload
  dsimp only at hload
  rw [StoreM.bind_of_ok h₂] at hload
  cases hload
  rfl

end World

theorem Property.Makes.sources {property : Property} {limits : Settings} {seeds : ChaCha8}
    {before cases : List Case} (h : property.Makes limits seeds before cases) :
    ∀ c ∈ cases, c.source = .generated := by
  induction cases with
  | nil => nofun
  | cons c earlier ih => exact List.forall_mem_cons.2 ⟨h.1, ih h.2.2⟩

namespace RunM

open World

variable {σ : Type} {property : Property} {w w' : World σ}

/-- Where nothing is stored nothing is tried. -/
theorem tryStored_bare (hb : w.Bare) (property : Property) (settings : Settings) :
    ∃ w', tryStored property settings w = (.ok none, w') ∧ w.Continues w' := by
  unfold tryStored
  split
  · rw [reuse_eq, runner_bind]
    rcases hs : w.runner.store with _ | backend
    · exact ⟨w, rfl, continues_frame.refl w⟩
    · have hload := hb backend hs w.storage.log
      dsimp only
      rw [stored_bind]
      rcases hl : Examples.load backend w.runner.key w.storage with ⟨e | loaded, storage⟩
      · obtain ⟨⟨⟩, w₁, h₁, t₁⟩ := ends_databaseError "loading saved examples" e
          { w with storage := storage }
        refine ⟨w₁, bind_of_ok h₁, continues_frame.trans ?_ t₁.continues⟩
        exact ⟨rfl, rfl, rfl, rfl, rfl⟩
      · obtain ⟨⟨⟩, w₁, h₁, t₁⟩ := ends_tellLoaded loaded { w with storage := storage }
        obtain ⟨⟨⟩, w₂, h₂, t₂⟩ := ends_setMode .relaxed w₁
        dsimp only
        rw [bind_of_ok h₁, bind_of_ok h₂, hload loaded storage hl]
        refine ⟨w₂, rfl, continues_frame.trans ?_ (continues_frame.trans t₁.continues t₂)⟩
        exact ⟨rfl, rfl, rfl, rfl, rfl⟩
  · exact ⟨w, rfl, continues_frame.refl w⟩

/-- New cases that pass are made until there are enough. -/
theorem generate_passing {seed : UInt64} (hq : ∀ check, check ∈ w.runner.settings.suppressed)
    (hd : w.runner.deadline.deadline = none) (hN : 1 ≤ w.runner.settings.maxExamples)
    (hM : 1 ≤ w.runner.settings.maxFilterRetries) (he : w.executed = [])
    (hi : Calm (generate property seed w))
    (hp : ∀ c ∈ (generate property seed w).2.executed, c.source = .generated →
      c.outcome = .passed) :
    ∃ w', generate property seed w = (.ok .exhausted, w') ∧
      w'.executed.length = w.runner.settings.maxExamples ∧
      ∀ c ∈ w'.executed, c.source = .generated := by
  obtain ⟨c, earlier, v, r, w', hu, hmade, hr, hx, hc⟩ := generate_closes hq hd hN hM hi
  have hall : w'.executed = c :: earlier := by rw [hx, hu.executed, he, List.append_nil]
  rw [hr, hall] at hp
  have hpassed : ∀ c' ∈ c :: earlier, c'.outcome = .passed := fun c' hm =>
    hp c' hm (hmade.sources c' hm)
  have hcp := hpassed c List.mem_cons_self
  rw [hr]
  cases hc with
  | failed failure =>
    rw [hcp] at failure
    cases failure
  | invalid sense => cases hcp.symm.trans sense
  | refused refusal =>
    rw [hcp] at refusal
    cases refusal
  | exhausted passed enough =>
    refine ⟨w', rfl, ?_, hall.symm ▸ hmade.sources⟩
    rw [hall, ← enough, List.countP_eq_length.2 fun c' hm => decide_eq_true (hpassed c' hm)]

/-- A search on a world without stored cases makes new ones, and passes if they do. -/
theorem search_passing {host : Host σ} (hb : w.Bare) (he : w.executed = [])
    (hd : w.runner.deadline.deadline = none) (hg : w.runner.settings.hasPhase .generate = true)
    (hN : 1 ≤ w.runner.settings.maxExamples) (hM : 1 ≤ w.runner.settings.maxFilterRetries)
    (hq : ∀ check, check ∈ w.runner.settings.suppressed)
    (hi : Calm (search host property w))
    (hp : ∀ c ∈ (search host property w).2.executed, c.source = .generated →
      c.outcome = .passed) :
    ∃ result w', search host property w = (.ok result, w') ∧ result.outcome = .passed ∧
      result.counterexample = none ∧ w'.executed.length = w.runner.settings.maxExamples ∧
      ∀ c ∈ w'.executed, c.outcome = .passed := by
  obtain ⟨v, t, hsearch⟩ := search_apply host property w
  have hbv : v.Bare := by
    obtain ⟨sinks, log, rfl⟩ := t
    exact hb
  obtain ⟨v₁, h₁, hc₁⟩ := tryStored_bare hbv property w.runner.settings
  have hc : w.Continues v₁ := continues_frame.trans t.continues hc₁
  rw [bind_of_ok h₁] at hsearch
  rw [hsearch] at hi hp ⊢
  have hi₁ := hi.before (plain_proceed property _ _ none)
  rw [proceed_of_calm property _ _ hi₁, if_pos hg] at hi hp ⊢
  have hgen := hi.of_bind (plain_respond property _)
  have hlater := onward_of_bind (x := generate property (w.runSeed host)) (w := v₁)
    (plain_respond property (w.runSeed host))
  obtain ⟨later, hexec, -, -⟩ := hlater.executed
  have hpg : ∀ c ∈ (generate property (w.runSeed host) v₁).2.executed, c.source = .generated →
      c.outcome = .passed := fun c hm => hp c (hexec ▸ List.mem_append_right _ hm)
  rw [← hc.settings] at hq hN hM
  obtain ⟨v₂, h₂, hlength, hsources⟩ := generate_passing hq (hc.deadline.trans hd) hN hM
    (hc.executed.trans he) hgen hpg
  obtain ⟨w', h', t'⟩ := finish_apply .passed none none (some (w.runSeed host)) v₂
  have hx' : w'.executed = v₂.executed := t'.continues.executed
  rw [bind_of_ok h₂]
  refine ⟨_, w', h', rfl, rfl, ?_, ?_⟩
  · rw [hx', hlength, hc.settings]
  · rw [h₂] at hpg
    rw [hx']
    exact fun c hm => hpg c hm (hsources c hm)

end RunM

open World RunM

variable {σ : Type} {w : World σ}

/-- Without a deadline, without health checks and with nothing stored, a run of which each new case
passes makes as many as it is to make and passes, unless somebody asks it to stop. All that is
asked of the settings besides is that one case may be turned down. -/
theorem passing_run_passes (host : Host σ) (property : Property)
    (hv : w.runner.settings.validate = .ok ()) (hM : 1 ≤ w.runner.settings.maxFilterRetries)
    (hg : w.runner.settings.hasPhase .generate = true) (hr : w.runner.settings.reproduce = none)
    (hq : ∀ check, check ∈ w.runner.settings.suppressed)
    (hd : w.runner.deadline.deadline = none) (hb : (openDatabase host (w.begun host)).2.Bare)
    (hi : (runProperty host property w).2.runner.interrupted = false)
    (hp : ∀ c ∈ (runProperty host property w).2.executed, c.source = .generated →
      c.outcome = .passed) :
    ∃ result w', runProperty host property w = (.ok result, w') ∧ result.outcome = .passed ∧
      result.statistics.passed = w.runner.settings.maxExamples ∧ result.counterexample = none := by
  obtain ⟨w₁, hopen, ⟨store, sinks, storage, hsame⟩, -⟩ := openDatabase_apply host (w.begun host)
  have hset : w₁.runner.settings = w.runner.settings := by rw [hsame]; rfl
  have hdead : w₁.runner.deadline.deadline = none := by rw [hsame]; exact hd
  have hnone : w₁.executed = [] := by rw [hsame]; rfl
  have hN : 1 ≤ w.runner.settings.maxExamples := by
    by_contra hN
    rw [Settings.validate, if_pos (by omega)] at hv
    cases hv
  have hrun : runProperty host property w = search host property w₁ := by
    rw [runProperty_of_valid host property hv, bind_of_ok hopen, runner_bind, hset, hr]
  rw [hopen] at hb
  rw [hrun] at hi hp
  rw [← hset] at hM hg hq hN
  obtain ⟨result, w', h, ho, hc, hlength, hpassed⟩ :=
    search_passing hb hnone hdead hg hN hM hq hi hp
  have hdone := hrun.trans h
  obtain ⟨⟨_, _, _, hbooked, -⟩, hs, -⟩ := reported_of_runProperty hdone
  refine ⟨result, w', hdone, ho, ?_, hc⟩
  rw [hs, hbooked.statistics]
  change (Statistics.ofCases w'.executed).passed = _
  rw [(Statistics.ofCases_counts w'.executed).2.1, ← hset, ← hlength]
  exact List.countP_eq_length.2 fun c hm => decide_eq_true (hpassed c hm)

/-- A body that draws and passes, before an empty store in memory. -/
theorem passing_run_passes_drawing :
    let property : Property := fun _ => .draw none .booleans fun _ => .done (.ok ())
    let w : World Memory := .under { deadline := none, suppressed := HealthCheck.all, seed := some 7
                                     maxExamples := 5, maxFilterRetries := 1 }
    ∃ result w', runProperty .bare property w = (.ok result, w') ∧ result.outcome = .passed ∧
      result.statistics.passed = 5 ∧ result.counterexample = none := by
  intro property w
  obtain ⟨hi, hp⟩ : (runProperty .bare property w).2.runner.interrupted = false ∧
      ∀ c ∈ (runProperty .bare property w).2.executed, c.source = .generated →
        c.outcome = .passed := by
    decide +kernel
  have hq : ∀ check, check ∈ w.runner.settings.suppressed := by
    intro check
    cases check <;> decide
  have hb : (openDatabase .bare (w.begun .bare)).2.Bare := by
    refine bare_of_fetch_nil fun backend hb _ log => ?_
    cases hb
    exact ⟨log, rfl⟩
  exact passing_run_passes .bare property rfl (by decide) (by decide) rfl hq rfl hb hi hp

/-- If no case may be turned down, a run is given up after its first case though that has passed. -/
theorem passing_run_given_up :
    ¬ ∀ (settings : Settings) (property : Property), settings.validate = .ok () →
      settings.hasPhase .generate = true → settings.reproduce = none →
      (∀ check, check ∈ settings.suppressed) → settings.deadline = none →
      (runProperty .bare property (.under settings)).2.runner.interrupted = false →
      (∀ c ∈ (runProperty .bare property (.under settings)).2.executed, c.source = .generated →
        c.outcome = .passed) →
      ∃ result w', runProperty .bare property (.under settings) = (.ok result, w') ∧
        result.outcome = .passed ∧ result.statistics.passed = settings.maxExamples ∧
        result.counterexample = none := by
  intro hclaim
  let settings : Settings := {
    deadline := none, suppressed := HealthCheck.all, seed := some 1, maxFilterRetries := 0 }
  obtain ⟨hi, hp, hgaveUp⟩ : (runProperty .bare (fun _ => .done (.ok ()))
        (.under settings)).2.runner.interrupted = false ∧
      (∀ c ∈ (runProperty .bare (fun _ => .done (.ok ())) (.under settings)).2.executed,
        c.source = .generated → c.outcome = .passed) ∧
      (runProperty .bare (fun _ => .done (.ok ())) (.under settings)).1.toOption.map
        RunResult.outcome = some (.gaveUp (.tooMuchFiltering 0 1)) := by
    decide +kernel
  have hq : ∀ check, check ∈ settings.suppressed := by
    intro check
    cases check <;> decide
  obtain ⟨result, w', h, ho, -⟩ :=
    hclaim settings (fun _ => .done (.ok ())) rfl (by decide) rfl hq rfl hi hp
  rw [h] at hgaveUp
  cases ho.symm.trans (Option.some.inj hgaveUp)

end Falsify
