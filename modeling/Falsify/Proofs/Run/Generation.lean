import Falsify.Proofs.Run.Pace
import Falsify.Proofs.Run.Recorded

/-!
# Where the making of new cases stops

Without health checks and without a deadline the phase stops at the first case that fails, that has
an argument which makes no sense, that is the last one which had to pass, or that is the last one
which may be turned down. There is such a case, because each other one passes or is turned down.

* `Body.fresh`, `Property.Makes`: the cases that a body makes of the seeds in a stream;
* `Outcome.Halts`: the number of a case that ends the phase;
* `Backend.Remembers`: a store in which a failing case is found again;
* `World.Underway`, `World.Closes`: the phase goes on, or a case has ended it;
* `judge_after`, `generateAfter_step`, `generateAfter_closes`: one case of the phase, and all of
  them;
* `generate_stops`: the theorem.
-/

namespace Falsify

namespace ChaCha8

/-- A stream behind its first words. -/
def after (seeds : ChaCha8) : Nat → ChaCha8
  | 0 => seeds
  | n + 1 => (seeds.after n).next.2

/-- The words of a stream, numbered from zero. -/
def output (seeds : ChaCha8) (n : Nat) : UInt64 :=
  (seeds.after n).next.1

end ChaCha8

/-- The case that a body makes of fresh draws alone, with one of the seeds in a stream. -/
def Body.fresh (body : Body (Except CaseError Unit)) (limits : Settings) (seeds : ChaCha8)
    (i : Nat) : Case :=
  body.result [] (seeds.output i) limits.maxDraws limits.filterAttempts

/-! ## Cases that end the phase -/

namespace Outcome

/-- An argument of the case made no sense. -/
def isInvalid : Outcome → Bool
  | .gaveUp (.invalidArgument _) => true
  | .gaveUp _ | .passed | .failed _ => false

/-- The case was turned down, though its arguments made sense. -/
def isRefusal : Outcome → Bool
  | .gaveUp (.invalidArgument _) => false
  | .gaveUp _ => true
  | .passed | .failed _ => false

theorem ne_passed_of_isRefusal {o : Outcome} (h : o.isRefusal = true) : o ≠ .passed := by
  rintro rfl
  cases h

theorem exists_of_isInvalid {o : Outcome} (h : o.isInvalid = true) :
    ∃ message, o = .gaveUp (.invalidArgument message) := by
  rcases o with _ | _ | (_ | _ | message | _ | _ | _) <;> cases h
  exact ⟨message, rfl⟩

/-- How many of the first outcomes are of a kind. -/
def tally (kind : Outcome → Bool) (o : Nat → Outcome) (n : Nat) : Nat :=
  (List.range n).countP fun i => kind (o i)

theorem tally_succ (kind : Outcome → Bool) (o : Nat → Outcome) (n : Nat) :
    tally kind o (n + 1) = tally kind o n + if kind (o n) then 1 else 0 := by
  rw [tally, List.range_succ, List.countP_append, List.countP_singleton]
  rfl

/-- Of more outcomes at least as many are of a kind: by induction on how many there are. -/
theorem tally_mono (kind : Outcome → Bool) (o : Nat → Outcome) : Monotone (tally kind o) :=
  monotone_nat_of_le_succ fun n => by
    rw [tally_succ]
    exact Nat.le_add_right _ _

/-- The outcome of this number ends the phase. -/
def Halts (maxExamples maxInvalid : Nat) (o : Nat → Outcome) (i : Nat) : Prop :=
  (o i).isFailure = true ∨ (o i).isInvalid = true ∨
    (o i = .passed ∧ tally (· = .passed) o (i + 1) = maxExamples) ∨
    ((o i).isRefusal = true ∧ tally isRefusal o (i + 1) = maxInvalid)

/-- What is neither a failure nor invalid passed or was turned down. -/
theorem passed_or_refusal_iff {o : Outcome} :
    (o = .passed ∨ o.isRefusal = true) ↔ o.isFailure = false ∧ o.isInvalid = false := by
  rcases o with _ | _ | (_ | _ | _ | _ | _ | _) <;>
    simp [isRefusal, isInvalid, isFailure, failure?]

end Outcome

/-- If all checks are suppressed none fires. -/
theorem HealthMonitor.observe_of_suppressed {m : HealthMonitor}
    (h : ∀ check, check ∈ m.suppressed) (c : Case) : (m.observe c).1 = none := by
  unfold observe
  split
  · rfl
  · have hcount : (m.count c).suppressed = m.suppressed := by
      have hp := congrArg suppressed (paceless_count m c)
      exact hp.trans (m.suppressed_tally c)
    refine Option.map_eq_none_iff.2 (List.find?_eq_none.2 fun check _ => ?_)
    simp [hcount, h check]

/-- What is saved in such a store is there when it is looked for. -/
def Backend.Remembers {σ : Type} (backend : Backend σ) : Prop :=
  ∀ key value storage, ∃ storage' values storage'',
    backend.save key value storage = (.ok (), storage') ∧
      backend.fetch key storage' = (.ok values, storage'') ∧ value ∈ values

theorem remembers_memoryBackend : memoryBackend.Remembers := fun _ _ _ =>
  ⟨_, _, _, rfl, rfl, Memory.mem_valuesOf_insert.2 (.inr ⟨rfl, rfl⟩)⟩

/-- The cases, the latest first, were made one after another after some others, each by the next
call of the body on fresh draws with the next seed from a stream. -/
def Property.Makes (property : Property) (limits : Settings) (seeds : ChaCha8)
    (before : List Case) : List Case → Prop
  | [] => True
  | c :: earlier =>
    c.source = .generated ∧
      c.timeless = (property (earlier ++ before)).untimed.fresh limits seeds earlier.length ∧
      property.Makes limits seeds before earlier

namespace Property

variable {property : Property} {body : Body (Except CaseError Unit)} {limits : Settings}
  {seeds : ChaCha8} {before cases : List Case}

/-- If all calls play one body, these are the cases that it makes of the seeds: by induction on the
cases. -/
theorem Makes.fresh (hp : property.Plays body) (h : property.Makes limits seeds before cases) :
    cases.reverse.map (fun c => (c.source, c.timeless)) =
      (List.range cases.length).map fun i => (.generated, body.fresh limits seeds i) := by
  induction cases with
  | nil => rfl
  | cons c earlier ih =>
    obtain ⟨hs, hc, h⟩ := h
    rw [hp] at hc
    rw [List.reverse_cons, List.map_append, ih h, List.length_cons, List.range_succ,
      List.map_append, List.map_singleton, List.map_singleton, hs, hc]

theorem Makes.outcomes (hp : property.Plays body)
    (h : property.Makes limits seeds before cases) :
    cases.reverse.map Case.outcome =
      (List.range cases.length).map fun i => (body.fresh limits seeds i).outcome := by
  have := congrArg (List.map fun p : CaseSource × Case => p.2.outcome) (h.fresh hp)
  rwa [List.map_map, List.map_map] at this

theorem Makes.countP (hp : property.Plays body) (h : property.Makes limits seeds before cases)
    (kind : Outcome → Bool) : cases.countP (fun c => kind c.outcome) =
      Outcome.tally kind (fun i => (body.fresh limits seeds i).outcome) cases.length := by
  have := congrArg (List.countP kind) (h.outcomes hp)
  rwa [List.countP_map, List.countP_map, List.countP_reverse] at this

end Property

namespace World

variable {σ : Type}

/-- The phase has made some cases, and none of them has ended it. -/
structure Underway (property : Property) (maxExamples maxInvalid : Nat) (seeds : ChaCha8)
    (start : World σ) (cases : List Case) (w : World σ) : Prop where
  onward : Onward (· = .generated) start w
  executed : w.executed = cases ++ start.executed
  made : property.Makes start.runner.settings seeds start.executed cases
  live : ∀ c ∈ cases, c.outcome = .passed ∨ c.outcome.isRefusal = true
  valid : cases.countP (·.outcome = .passed) < maxExamples
  invalid : cases.countP (·.outcome.isRefusal) < maxInvalid

/-- Each case has passed or was turned down. -/
theorem Underway.length {property : Property} {maxExamples maxInvalid : Nat} {seeds : ChaCha8}
    {start w : World σ} {cases : List Case}
    (h : Underway property maxExamples maxInvalid seeds start cases w) :
    cases.length = cases.countP (·.outcome = .passed) + cases.countP (·.outcome.isRefusal) := by
  rw [List.length_eq_countP_add_countP fun c : Case => c.outcome = .passed]
  refine congrArg _ (List.countP_congr fun c hc => ?_)
  rcases h.live c hc with ho | ho
  · simp [ho, Outcome.isRefusal]
  · have hne : c.outcome ≠ .passed := Outcome.ne_passed_of_isRefusal ho
    simp [ho, hne]

/-- None of them was to end it, if all calls play one body. -/
theorem Underway.not_halts {property : Property} {body : Body (Except CaseError Unit)}
    {maxExamples maxInvalid : Nat} {seeds : ChaCha8} {start w : World σ} {cases : List Case}
    (hp : property.Plays body)
    (h : Underway property maxExamples maxInvalid seeds start cases w) {j : Nat}
    (hj : j < cases.length) : ¬ Outcome.Halts maxExamples maxInvalid
      (fun i => (body.fresh start.runner.settings seeds i).outcome) j := by
  have hvalid := h.valid
  have hinvalid := h.invalid
  rw [h.made.countP hp fun o => o = .passed] at hvalid
  rw [h.made.countP hp Outcome.isRefusal] at hinvalid
  generalize ho : (fun i => (body.fresh start.runner.settings seeds i).outcome) = o at *
  have hlive : o j = .passed ∨ (o j).isRefusal = true := by
    have hmem : o j ∈ cases.reverse.map Case.outcome := by
      rw [h.made.outcomes hp, ← ho]
      exact List.mem_map_of_mem (List.mem_range.2 hj)
    obtain ⟨c, hc, hcj⟩ := List.mem_map.1 hmem
    exact hcj ▸ h.live c (List.mem_reverse.1 hc)
  obtain ⟨hf, hv⟩ := Outcome.passed_or_refusal_iff.1 hlive
  rintro (hj' | hj' | ⟨-, hj'⟩ | ⟨-, hj'⟩)
  · exact Bool.false_ne_true (hf.symm.trans hj')
  · exact Bool.false_ne_true (hv.symm.trans hj')
  · exact (Outcome.tally_mono _ o hj).not_gt (hj' ▸ hvalid)
  · exact (Outcome.tally_mono _ o hj).not_gt (hj' ▸ hinvalid)

/-- The case is found again in the store of a run, unless the store forgets. -/
def Recalled (start : World σ) (c : Case) (w : World σ) : Prop :=
  ∀ backend ∈ start.runner.store, backend.Remembers → ∃ values storage,
    backend.fetch (EntryKind.failing.keyOf start.runner.key) w.storage = (.ok values, storage) ∧
      Encoding.serialize c.draws ∈ values

/-- A case has ended the phase after earlier ones. -/
inductive Closes (maxExamples maxInvalid : Nat) (start : World σ) (c : Case) (earlier : List Case) :
    Except RunError GenerationEnd → World σ → Prop
  | failed {w : World σ} (failure : c.outcome.isFailure = true) (recalled : Recalled start c w) :
    Closes maxExamples maxInvalid start c earlier (.ok (.failed c)) w
  | invalid {w : World σ} {message : String}
    (sense : c.outcome = .gaveUp (.invalidArgument message)) :
    Closes maxExamples maxInvalid start c earlier (.error (.invalidArgument message)) w
  | exhausted {w : World σ} (passed : c.outcome = .passed)
    (enough : (c :: earlier).countP (·.outcome = .passed) = maxExamples) :
    Closes maxExamples maxInvalid start c earlier (.ok .exhausted) w
  | refused {w : World σ} (refusal : c.outcome.isRefusal = true)
    (many : (c :: earlier).countP (·.outcome.isRefusal) = maxInvalid) :
    Closes maxExamples maxInvalid start c earlier
      (.ok (.gaveUp (.tooMuchFiltering maxInvalid (earlier.countP (·.outcome = .passed))))) w

end World

namespace RunM

open World

variable {σ : Type} {property : Property} {maxExamples maxInvalid : Nat} {seeds : ChaCha8}
  {monitor : HealthMonitor} {start w w' : World σ} {cases : List Case} {c : Case}

/-- The phase goes on after some cases. -/
def generateAfter (property : Property) (maxExamples maxInvalid : Nat) (seeds : ChaCha8)
    (monitor : HealthMonitor) (cases : List Case) : RunM σ GenerationEnd :=
  generateFrom property maxExamples maxInvalid (seeds.after cases.length) monitor
    (cases.countP (·.outcome = .passed)) (cases.countP (·.outcome.isRefusal))

theorem saveFailure_recalled (c : Case) (w : World σ) :
    ∃ w', saveFailure c w = (.ok (), w') ∧ Recalled w c w' := by
  obtain ⟨⟨⟩, w₁, h₁, s, l, rfl⟩ :=
    ends_tell .info s!"found a failing example: {c.outcome.reason}" w
  obtain ⟨⟨⟩, w', h', -⟩ := ends_withStore "saving a failing example"
    (fun b key => Examples.save b key c.draws .failing) _
  rw [saveFailure, bind_of_ok h₁]
  refine ⟨w', h', fun backend hb hr => ?_⟩
  obtain ⟨storage, values, storage', hsave, hfetch, hmem⟩ :=
    hr (EntryKind.failing.keyOf w.runner.key) (Encoding.serialize c.draws) ⟨w.storage.contents, l⟩
  rw [withStore, runner_bind] at h'
  dsimp only at h'
  rw [Option.mem_def.1 hb] at h'
  dsimp only at h'
  rw [stored_bind, Examples.save, hsave] at h'
  cases h'
  exact ⟨values, storage', hfetch, hmem⟩

theorem refuseInvalid_of_invalid {message : String}
    (h : c.outcome = .gaveUp (.invalidArgument message)) (w : World σ) :
    refuseInvalid c w = (.error (.invalidArgument message), w) := by
  rw [refuseInvalid, h]
  rfl

theorem refuseInvalid_apply (h : c.outcome.isInvalid = false) (w : World σ) :
    refuseInvalid c w = (.ok (), w) := by
  rcases refuseInvalid_cases c w with hc | ⟨message, ho, -⟩
  · exact hc
  · rw [ho] at h
    cases h

/-- Without health checks nothing but the limits stops the phase after a case that did not fail. -/
theorem judge_of_suppressed (h : ∀ check, check ∈ monitor.suppressed) (property : Property)
    (maxExamples maxInvalid : Nat) (seeds : ChaCha8) (valid invalid : Nat) (c : Case) :
    judge property maxExamples maxInvalid seeds monitor valid invalid c =
      if c.outcome = .passed then
        if maxInvalid ≤ invalid then return .gaveUp (.tooMuchFiltering invalid (valid + 1))
        else generateFrom property maxExamples maxInvalid seeds (monitor.observe c).2 (valid + 1)
          invalid
      else
        if maxInvalid ≤ invalid + 1 then return .gaveUp (.tooMuchFiltering (invalid + 1) valid)
        else (generateFrom property maxExamples maxInvalid seeds (monitor.observe c).2 valid
          (invalid + 1) : RunM σ GenerationEnd) := by
  have hnone := HealthMonitor.observe_of_suppressed h c
  unfold judge
  generalize monitor.observe c = r at hnone
  obtain ⟨_ | failure, monitor'⟩ := r
  · rfl
  · cases hnone

/-- A case that has passed or was turned down ends the phase, or there is room for one more of both
kinds after it, and the phase goes on. -/
theorem judge_after (hq : ∀ check, check ∈ monitor.suppressed)
    (hv : cases.countP (·.outcome = .passed) < maxExamples)
    (hm : cases.countP (·.outcome.isRefusal) < maxInvalid)
    (hc : c.outcome = .passed ∨ c.outcome.isRefusal = true) (start w : World σ) :
    let judged : RunM σ GenerationEnd :=
      judge property maxExamples maxInvalid (seeds.after (c :: cases).length) monitor
        (cases.countP (·.outcome = .passed)) (cases.countP (·.outcome.isRefusal)) c
    (∃ r, judged w = (r, w) ∧ Closes maxExamples maxInvalid start c cases r w) ∨
      (c :: cases).countP (·.outcome = .passed) < maxExamples ∧
        (c :: cases).countP (·.outcome.isRefusal) < maxInvalid ∧
        judged w = generateAfter property maxExamples maxInvalid seeds (monitor.observe c).2
          (c :: cases) w := by
  intro judged
  have hjudged : judged = _ := judge_of_suppressed hq _ _ _ _ _ _ c
  rw [hjudged]
  rcases hc with ho | ho
  · have hp : (c :: cases).countP (·.outcome = .passed) = cases.countP (·.outcome = .passed) + 1 :=
      List.countP_cons_of_pos (decide_eq_true ho)
    have hr : (c :: cases).countP (·.outcome.isRefusal) = cases.countP (·.outcome.isRefusal) :=
      List.countP_cons_of_neg (by rw [ho]; exact Bool.false_ne_true)
    rw [if_pos ho, if_neg (Nat.not_le.2 hm), ← hp, ← hr]
    by_cases hN : (c :: cases).countP (·.outcome = .passed) < maxExamples
    · exact .inr ⟨hN, hr ▸ hm, rfl⟩
    · have hfull : (c :: cases).countP (·.outcome = .passed) = maxExamples :=
        Nat.le_antisymm (hp ▸ hv) (Nat.not_lt.1 hN)
      rw [generateFrom_eq, if_neg hN]
      exact .inl ⟨_, rfl, .exhausted ho hfull⟩
  · have hne := Outcome.ne_passed_of_isRefusal ho
    have hp : (c :: cases).countP (·.outcome = .passed) = cases.countP (·.outcome = .passed) :=
      List.countP_cons_of_neg (by simpa using hne)
    have hr : (c :: cases).countP (·.outcome.isRefusal) = cases.countP (·.outcome.isRefusal) + 1 :=
      List.countP_cons_of_pos ho
    rw [if_neg hne, ← hr]
    by_cases hM : (c :: cases).countP (·.outcome.isRefusal) < maxInvalid
    · rw [if_neg (Nat.not_le.2 hM), ← hp]
      exact .inr ⟨hp ▸ hv, hM, rfl⟩
    · have hfull : (c :: cases).countP (·.outcome.isRefusal) = maxInvalid :=
        Nat.le_antisymm (hr ▸ hm) (Nat.not_lt.1 hM)
      rw [if_pos (Nat.not_lt.1 hM), hfull]
      exact .inl ⟨_, rfl, .refused ho hfull⟩

/-- One case of the phase: it ends the phase, or the phase goes on after it. -/
theorem generateAfter_step (hq : ∀ check, check ∈ monitor.suppressed)
    (hd : start.runner.deadline.deadline = none)
    (h : Underway property maxExamples maxInvalid seeds start cases w)
    (hi : w.runner.interrupted = false) :
    ∃ c, property.Makes start.runner.settings seeds start.executed (c :: cases) ∧
      ((∃ r w', generateAfter property maxExamples maxInvalid seeds monitor cases w = (r, w') ∧
        w'.executed = c :: w.executed ∧ Closes maxExamples maxInvalid start c cases r w') ∨
      ∃ w', Underway property maxExamples maxInvalid seeds start (c :: cases) w' ∧
        generateAfter property maxExamples maxInvalid seeds monitor cases w =
          generateAfter property maxExamples maxInvalid seeds (monitor.observe c).2 (c :: cases)
            w') := by
  obtain ⟨c, w₁, hx, he⟩ := execute_untimed property [] .generated
    (seeds.after cases.length).next.1 (h.onward.deadline.trans hd)
  obtain ⟨hs, hran⟩ := ran_of_execute hx
  have ho₁ : Onward (· = .generated) start w₁ := h.onward.trans (onward_frame.ran hs hran)
  have hmade : property.Makes start.runner.settings seeds start.executed (c :: cases) := by
    refine ⟨hs, ?_, h.made⟩
    rw [he.result, h.executed, h.onward.settings]
    rfl
  refine ⟨c, hmade, ?_⟩
  rw [generateAfter, generateFrom_eq, if_pos h.valid, runner_bind, hi, if_neg Bool.false_ne_true,
    bind_of_ok hx]
  cases hf : c.outcome.isFailure with
  | true =>
    obtain ⟨w₂, h₂, hrecalled⟩ := saveFailure_recalled c w₁
    have hrecalled' : Recalled start c w₂ := by
      rw [Recalled, ← ho₁.store, ← ho₁.key]
      exact hrecalled
    refine .inl ⟨_, w₂, bind_of_ok h₂, ?_, .failed hf hrecalled'⟩
    rw [((ends_saveFailure c).rel h₂).executed, he.executed]
  | false =>
    rw [if_neg Bool.false_ne_true]
    cases hv : c.outcome.isInvalid with
    | true =>
      obtain ⟨message, ho⟩ := Outcome.exists_of_isInvalid hv
      exact .inl ⟨_, w₁, bind_of_error (refuseInvalid_of_invalid ho w₁), he.executed, .invalid ho⟩
    | false =>
      obtain ⟨⟨⟩, w₂, h₂, hcont⟩ := ends_keep c w₁
      have ho₂ : Onward (· = .generated) start w₂ :=
        ho₁.trans ((runs_keep (E := Never) onward_frame c).rel h₂)
      have hx₂ : w₂.executed = c :: w.executed := hcont.executed.trans he.executed
      have hlive := Outcome.passed_or_refusal_iff.2 ⟨hf, hv⟩
      rw [bind_of_ok (refuseInvalid_apply hv w₁), bind_of_ok h₂]
      rcases judge_after hq h.valid h.invalid hlive start w₂ with
        ⟨r, hr, hclose⟩ | ⟨hvalid, hinvalid, hgoes⟩
      · exact .inl ⟨r, w₂, hr, hx₂, hclose⟩
      · refine .inr ⟨w₂, ⟨ho₂, ?_, hmade, List.forall_mem_cons.2 ⟨hlive, h.live⟩, hvalid, hinvalid⟩,
          hgoes⟩
        rw [hx₂, h.executed]
        rfl

/-- A run that has been asked to stop makes no more cases. -/
theorem generateAfter_of_interrupted (hi : w.runner.interrupted = true)
    (hv : cases.countP (·.outcome = .passed) < maxExamples) :
    generateAfter property maxExamples maxInvalid seeds monitor cases w =
      (.ok (.gaveUp .interrupted), w) := by
  rw [generateAfter, generateFrom_eq, if_pos hv, runner_bind, hi]
  rfl

/-- Unless somebody asks it to stop, the phase goes on until a case ends it: by induction on how
many more cases the limits allow. -/
theorem generateAfter_closes (hq : ∀ check, check ∈ monitor.suppressed)
    (hd : start.runner.deadline.deadline = none)
    (h : Underway property maxExamples maxInvalid seeds start cases w)
    (hi : (generateAfter property maxExamples maxInvalid seeds monitor cases w).2.runner.interrupted
      = false) :
    ∃ c earlier v r w', Underway property maxExamples maxInvalid seeds start earlier v ∧
      property.Makes start.runner.settings seeds start.executed (c :: earlier) ∧
      generateAfter property maxExamples maxInvalid seeds monitor cases w = (r, w') ∧
      w'.executed = c :: v.executed ∧ Closes maxExamples maxInvalid start c earlier r w' := by
  induction hn : maxExamples + maxInvalid - cases.length using Nat.strongRecOn
    generalizing cases monitor w with
  | _ n ih =>
    have hw : w.runner.interrupted = false := by
      refine Bool.eq_false_of_not_eq_true fun hw => ?_
      rw [generateAfter_of_interrupted hw h.valid] at hi
      exact Bool.false_ne_true (hi.symm.trans hw)
    obtain ⟨c, hmade, ⟨r, w', hr, hx, hc⟩ | ⟨w', hu, heq⟩⟩ := generateAfter_step hq hd h hw
    · exact ⟨c, cases, w, r, w', h, hmade, hr, hx, hc⟩
    · have hq' : ∀ check, check ∈ (monitor.observe c).2.suppressed := by
        rw [HealthMonitor.suppressed_observe]
        exact hq
      rw [heq] at hi ⊢
      refine ih _ ?_ hq' hu hi rfl
      have hlength := h.length
      have hvalid := h.valid
      have hinvalid := h.invalid
      rw [← hn, List.length_cons]
      omega

/-- The whole phase is ended by a case. -/
theorem generate_closes {seed : UInt64} (hq : ∀ check, check ∈ w.runner.settings.suppressed)
    (hd : w.runner.deadline.deadline = none) (hN : 1 ≤ w.runner.settings.maxExamples)
    (hM : 1 ≤ w.runner.settings.maxFilterRetries)
    (hi : (generate property seed w).2.runner.interrupted = false) :
    let settings := w.runner.settings
    let seeds := ChaCha8.ofSeed seed
    ∃ c earlier v r w',
      Underway property settings.maxExamples settings.maxFilterRetries seeds w earlier v ∧
      property.Makes settings seeds w.executed (c :: earlier) ∧
      generate property seed w = (r, w') ∧ w'.executed = c :: v.executed ∧
      Closes settings.maxExamples settings.maxFilterRetries w c earlier r w' := by
  intro settings seeds
  obtain ⟨⟨⟩, w₁, h₁, t₁⟩ := ends_tellPhase s!"generating up to {settings.maxExamples} examples" w
  obtain ⟨⟨⟩, w₂, h₂, i₂⟩ := idle_setMode .relaxed w₁
  have hidle := idle_frame.trans t₁.idle i₂
  have heq : generate property seed w = generateAfter property settings.maxExamples
      settings.maxFilterRetries seeds
      { limits := settings.healthLimits, suppressed := settings.suppressed } [] w₂ := by
    rw [generate, runner_bind, bind_of_ok h₁, bind_of_ok h₂]
    rfl
  have hbegun : Underway property settings.maxExamples settings.maxFilterRetries seeds w [] w₂ := by
    obtain ⟨_, _, _, _, _, _, rfl⟩ := hidle
    exact ⟨onward_frame.idle ⟨_, _, _, _, _, _, rfl⟩, rfl, trivial, List.forall_mem_nil _, hN,
      hM⟩
  rw [heq] at hi ⊢
  exact generateAfter_closes hq hd hbegun hi

end RunM

open World RunM Outcome

variable {σ : Type} {property : Property} {body : Body (Except CaseError Unit)} {w : World σ}

/-- With no deadline and no health check, and unless somebody asks it to stop, the phase executes
the body on one source after another, each seeded by the next word of the stream of its seed, up to
the first case that fails, is invalid, is the last one that had to pass, or is the last one that may
be turned down. Such a case there is, and what it was is how the phase ends. -/
theorem generate_stops (hp : property.Plays body) (seed : UInt64)
    (hq : ∀ check, check ∈ w.runner.settings.suppressed)
    (hd : w.runner.deadline.deadline = none) (hN : 1 ≤ w.runner.settings.maxExamples)
    (hM : 1 ≤ w.runner.settings.maxFilterRetries)
    (hi : (generate property seed w).2.runner.interrupted = false) :
    let settings := w.runner.settings
    let made := body.fresh settings (.ofSeed seed)
    let o := fun i => (made i).outcome
    ∃ (i : Nat) (cases : List Case) (r : Except RunError GenerationEnd) (w' : World σ),
      Halts settings.maxExamples settings.maxFilterRetries o i ∧
      (∀ j < i, ¬ Halts settings.maxExamples settings.maxFilterRetries o j) ∧
      i + 1 ≤ settings.maxExamples + settings.maxFilterRetries - 1 ∧
      generate property seed w = (r, w') ∧
      w'.executed = cases.reverse ++ w.executed ∧
      cases.map (fun c => (c.source, c.timeless)) =
        (List.range (i + 1)).map (fun j => (.generated, made j)) ∧
      match o i with
      | .failed _ => ∃ c, r = .ok (.failed c) ∧ w'.executed.head? = some c ∧ Recalled w c w'
      | .gaveUp (.invalidArgument message) => r = .error (.invalidArgument message)
      | .passed => r = .ok .exhausted
      | .gaveUp _ =>
        r = .ok (.gaveUp (.tooMuchFiltering settings.maxFilterRetries
          (tally (· = .passed) o (i + 1)))) ∧
        tally (· = .passed) o (i + 1) < settings.maxExamples := by
  intro settings made o
  obtain ⟨c, earlier, v, r, w', hu, hmade, hr, hx, hc⟩ := generate_closes hq hd hN hM hi
  have hout : c.outcome = o earlier.length := by
    have := hmade.2.1
    rw [hp] at this
    exact (congrArg Case.outcome this :)
  have hpassed := hmade.countP hp fun o => o = .passed
  have hrefused := hmade.countP hp isRefusal
  have hlength := hu.length
  have hvalid := hu.valid
  have hinvalid := hu.invalid
  refine ⟨earlier.length, (c :: earlier).reverse, r, w', ?_, fun j => hu.not_halts hp,
    by dsimp only [settings]; omega, hr, ?_, hmade.fresh hp, ?_⟩
  · rw [Halts, ← hout]
    cases hc with
    | failed failure => exact .inl failure
    | invalid sense => exact .inr (.inl (by rw [sense]; rfl))
    | exhausted passed enough => exact .inr (.inr (.inl ⟨passed, hpassed.symm.trans enough⟩))
    | refused refusal many => exact .inr (.inr (.inr ⟨refusal, hrefused.symm.trans many⟩))
  · rw [hx, hu.executed, List.reverse_reverse, List.cons_append]
  · rw [← hout]
    cases hc with
    | failed failure recalled =>
      obtain ⟨reason, ho⟩ := exists_of_isFailure failure
      rw [ho]
      exact ⟨c, rfl, by rw [hx]; rfl, recalled⟩
    | invalid sense => rw [sense]
    | exhausted passed enough => rw [passed]
    | refused refusal many =>
      have hsame : tally (· = .passed) o (earlier.length + 1) =
          earlier.countP (·.outcome = .passed) :=
        hpassed.symm.trans
          (List.countP_cons_of_neg (by simpa using ne_passed_of_isRefusal refusal))
      rw [hsame]
      split
      case h_4 => exact ⟨rfl, hvalid⟩
      all_goals
        rename_i ho
        rw [ho] at refusal
        cases refusal

/-- A body that fails sooner or later, before a store in memory. -/
theorem generate_stops_refusingTrue :
    let w : World Memory := .under { deadline := none, suppressed := HealthCheck.all }
    ∃ c w', generate (fun _ => .refusingTrue) 7 w = (.ok (.failed c), w') ∧
      w'.executed.head? = some c ∧ Encoding.serialize c.draws ∈ w'.corpus .failing := by
  intro w
  obtain ⟨hfails, hint⟩ : (generate (fun _ => .refusingTrue) 7 w).1.toOption.map
        (fun | .failed _ => true | _ => false) = some true ∧
      (generate (fun _ => .refusingTrue) 7 w).2.runner.interrupted = false := by
    decide +kernel
  have hall : ∀ check, check ∈ w.runner.settings.suppressed := by
    intro check
    cases check <;> decide
  obtain ⟨i, cases, r, w', -, -, -, hr, -, -, hend⟩ :=
    generate_stops Body.plays_refusingTrue 7 hall rfl (by decide) (by decide) hint
  rw [hr] at hfails
  split at hend
  · obtain ⟨c, rfl, hx, hrecalled⟩ := hend
    obtain ⟨values, storage, hfetch, hmem⟩ := hrecalled memoryBackend rfl remembers_memoryBackend
    have hkey : w'.runner.key = w.runner.key := ((runs_generate (E := fun _ => True)
      (S := fun _ => True) onward_frame trivial (fun _ => trivial) _ 7).rel hr).key
    refine ⟨c, w', hr, hx, ?_⟩
    cases hfetch
    rw [World.corpus, hkey]
    exact hmem
  · subst hend
    cases hfails
  · subst hend
    cases hfails
  · obtain ⟨rfl, -⟩ := hend
    cases hfails

end Falsify
