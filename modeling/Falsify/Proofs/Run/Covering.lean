import Falsify.Proofs.Run.Reuse

/-!
# Covering cases

While new cases are made, those that pass and show a feature for the first time are saved, up
to so many. Which these are depends on nothing but the cases.

* `coveringCases`: the cases that are saved, and `coveringCases_concat`, what one more case
  adds to them;
* `Runner.Knows`, `saveIfCovering_knows`: what a runner knows of features, and when it saves a case;
* `World.Covered`: the corpora of a test in the middle of the phase;
* `keep_memory`, `generateFrom_memory`: one case, and the phase up to a failure.
-/

namespace Falsify

/-- The cases among some that show a feature which is not a given one and which no case before them
has shown. -/
def novel (seen : List (String × String)) : List Case → List Case
  | [] => []
  | c :: rest =>
    if ∃ f ∈ c.features, f ∉ seen then c :: novel (c.features ++ seen) rest
    else novel (c.features ++ seen) rest

theorem novel_concat (seen : List (String × String)) (cases : List Case) (c : Case) :
    novel seen (cases ++ [c]) = novel seen cases ++
      if ∃ f ∈ c.features, f ∉ seen ∧ ∀ c' ∈ cases, f ∉ c'.features then [c] else [] := by
  induction cases generalizing seen with
  | nil =>
    have hiff : (∃ f ∈ c.features, f ∉ seen ∧ ∀ c' ∈ [], f ∉ Case.features c') ↔
        ∃ f ∈ c.features, f ∉ seen :=
      exists_congr fun f => and_congr_right fun _ => and_iff_left (by simp)
    simp only [novel, List.nil_append, hiff]
  | cons c₀ rest ih =>
    have hiff : (∃ f ∈ c.features, f ∉ c₀.features ++ seen ∧ ∀ c' ∈ rest, f ∉ c'.features) ↔
        ∃ f ∈ c.features, f ∉ seen ∧ ∀ c' ∈ c₀ :: rest, f ∉ c'.features :=
      exists_congr fun f => and_congr_right fun _ => by
        rw [List.mem_append, List.forall_mem_cons, not_or]
        exact ⟨fun h => ⟨h.1.2, h.1.1, h.2⟩, fun h => ⟨⟨h.2.1, h.1⟩, h.2.2⟩⟩
    rw [List.cons_append, novel, novel]
    split <;> simp only [ih, hiff, List.cons_append]

/-- A case that may be saved as covering. -/
def Case.mayCover (c : Case) : Bool :=
  c.source = .generated ∧ c.outcome = .passed

theorem Case.mayCover_of_source {c : Case} (h : c.source ≠ .generated) : c.mayCover = false := by
  simp [mayCover, h]

theorem Case.mayCover_of_isFailure {c : Case} (h : c.outcome.isFailure = true) :
    c.mayCover = false := by
  rw [mayCover, decide_eq_false_iff_not]
  rintro ⟨-, hpassed⟩
  rw [hpassed] at h
  cases h

/-- The covering cases among those of a run: the first ones, up to a limit, of the generated cases
that passed and show a feature for the first time. -/
def coveringCases (limit : Nat) (cases : List Case) : List Case :=
  (novel [] (cases.filter Case.mayCover)).take limit

@[simp]
theorem coveringCases_nil (limit : Nat) : coveringCases limit [] = [] :=
  List.take_nil

/-- The first case with a feature shows something new. -/
theorem novel_nil_eq_nil {cases : List Case} (h : novel [] cases = []) :
    ∀ c ∈ cases, c.features = [] := by
  induction cases with
  | nil => nofun
  | cons c rest ih =>
    rw [novel] at h
    split at h
    · cases h
    · rename_i hf
      have hnil : c.features = [] := by
        rw [List.eq_nil_iff_forall_not_mem]
        exact fun f hf' => hf ⟨f, hf', List.not_mem_nil⟩
      rw [hnil] at h
      exact List.forall_mem_cons.2 ⟨hnil, ih h⟩

/-- If no case is a covering one, then none may be saved, or none that could be shows a feature. -/
theorem coveringCases_eq_nil {limit : Nat} {cases : List Case}
    (h : coveringCases limit cases = []) :
    limit = 0 ∨ ∀ c ∈ cases, c.mayCover = true → c.features = [] :=
  (List.take_eq_nil_iff.1 h).imp_right fun h c hc hm =>
    novel_nil_eq_nil h c (List.mem_filter.2 ⟨hc, hm⟩)

/-- A case shows a feature that no case before it has shown that could be saved. -/
def Case.Novel (c : Case) (cases : List Case) : Prop :=
  ∃ f ∈ c.features, ∀ c' ∈ cases, c'.mayCover = true → f ∉ c'.features

instance (c : Case) (cases : List Case) : Decidable (c.Novel cases) :=
  inferInstanceAs (Decidable (∃ f ∈ c.features, ∀ c' ∈ cases, c'.mayCover = true → f ∉ c'.features))

theorem coveringCases_append (limit : Nat) (cases : List Case) {later : List Case}
    (h : ∀ c ∈ later, c.mayCover = false) :
    coveringCases limit (cases ++ later) = coveringCases limit cases := by
  have hlater : later.filter Case.mayCover = [] := by
    rw [List.filter_eq_nil_iff]
    intro c hc
    rw [h c hc]
    exact Bool.false_ne_true
  rw [coveringCases, List.filter_append, hlater, List.append_nil]
  rfl

/-- A case that may be saved is, if it shows something new and there is room. -/
theorem coveringCases_concat (limit : Nat) (cases : List Case) {c : Case}
    (h : c.mayCover = true) :
    coveringCases limit (cases ++ [c]) = coveringCases limit cases ++
      if (coveringCases limit cases).length < limit ∧ c.Novel cases then [c] else [] := by
  have hfilter : (cases ++ [c]).filter Case.mayCover = cases.filter Case.mayCover ++ [c] := by
    rw [List.filter_append, List.filter_cons_of_pos h]
    rfl
  have hnovel : (∃ f ∈ c.features, f ∉ [] ∧ ∀ c' ∈ cases.filter Case.mayCover, f ∉ c'.features) ↔
      c.Novel cases :=
    exists_congr fun f => and_congr_right fun _ => by simp [List.mem_filter, and_imp]
  rw [coveringCases, hfilter, novel_concat]
  simp only [hnovel]
  rw [List.take_append, ← coveringCases]
  refine congrArg _ ?_
  rw [coveringCases, List.length_take]
  generalize (novel [] (cases.filter Case.mayCover)).length = n
  by_cases hn : n < limit
  · have : min limit n < limit := by omega
    obtain ⟨k, hk⟩ : ∃ k, limit - n = k + 1 := ⟨limit - n - 1, by omega⟩
    by_cases hc : c.Novel cases <;> simp [hc, this, hk]
  · have : ¬ min limit n < limit := by omega
    simp [this, Nat.sub_eq_zero_of_le (Nat.not_lt.1 hn)]

/-! ## What a runner knows -/

/-- A runner has saved the covering cases among some. As long as there is room, it knows which
features the cases show that may be saved. -/
structure Runner.Knows {σ : Type} (limit : Nat) (cases : List Case) (r : Runner σ) : Prop where
  saved : r.coveringSaved = (coveringCases limit cases).length
  seen : r.coveringSaved < limit → ∀ f, f ∈ r.seenFeatures ↔
    ∃ c ∈ cases, c.mayCover = true ∧ f ∈ c.features

namespace Runner.Knows

variable {σ : Type} {limit : Nat} {cases : List Case} {r r' : Runner σ}

theorem congr (h : Knows limit cases r) (hn : r'.coveringSaved = r.coveringSaved)
    (hf : r'.seenFeatures = r.seenFeatures) : Knows limit cases r' where
  saved := hn.trans h.saved
  seen hl := by
    rw [hf]
    exact h.seen (hn ▸ hl)

/-- A case that may not be saved changes nothing. -/
theorem append (h : Knows limit cases r) {later : List Case}
    (hl : ∀ c ∈ later, c.mayCover = false) : Knows limit (cases ++ later) r := by
  refine ⟨coveringCases_append limit cases hl ▸ h.saved, fun hlt f => (h.seen hlt f).trans ?_⟩
  refine ⟨fun ⟨c, hm, hf⟩ => ⟨c, List.mem_append_left _ hm, hf⟩, fun ⟨c, hm, hc, hf⟩ => ?_⟩
  rcases List.mem_append.1 hm with hm | hm
  · exact ⟨c, hm, hc, hf⟩
  · rw [hl c hm] at hc
    cases hc

/-- A runner that knows of no feature has saved nothing. -/
theorem start (hf : ∀ f, f ∉ r.seenFeatures) (hn : r.coveringSaved = 0) : Knows limit [] r where
  saved := by
    rw [hn, coveringCases_nil]
    rfl
  seen _ f := ⟨fun h => absurd h (hf f), fun ⟨_, h, _⟩ => absurd h List.not_mem_nil⟩

/-- What a runner knows of features is what it takes to tell what is new. -/
theorem any_iff (h : Knows limit cases r) (hlt : r.coveringSaved < limit) (c : Case) :
    (c.features.any fun f => !r.seenFeatures.contains f) = true ↔ c.Novel cases := by
  rw [List.any_eq_true]
  refine exists_congr fun f => and_congr_right fun _ => ?_
  rw [Bool.not_eq_true', Bool.eq_false_iff, Ne, ← Std.HashSet.mem_iff_contains, h.seen hlt]
  simp only [not_exists, not_and]

theorem mem_insertMany (h : Knows limit cases r) (hlt : r.coveringSaved < limit) {c : Case}
    (hc : c.mayCover = true) (f : String × String) :
    f ∈ r.seenFeatures.insertMany c.features ↔
      ∃ c' ∈ cases ++ [c], c'.mayCover = true ∧ f ∈ c'.features := by
  rw [Std.HashSet.mem_insertMany_list, h.seen hlt]
  simp [or_and_right, exists_or, hc]

end Runner.Knows

/-- A world whose runner knows something else of features. -/
def World.taught {σ : Type} (w : World σ) (features : Std.HashSet (String × String)) (saved : Nat) :
    World σ :=
  { w with runner := { w.runner with seenFeatures := features, coveringSaved := saved } }

/-- A case that may be saved is saved exactly if that makes it a covering one. -/
theorem RunM.saveIfCovering_knows {σ : Type} {limit : Nat} {cases : List Case} {w : World σ}
    {c : Case} (h : w.runner.Knows limit cases)
    (hl : w.runner.settings.maxCoveringExamples = limit) (hc : c.mayCover = true) :
    ∃ features saved, (w.taught features saved).runner.Knows limit (cases ++ [c]) ∧
      (coveringCases limit (cases ++ [c]) = coveringCases limit cases ∧
          saveIfCovering c w = (.ok (), w.taught features saved) ∨
        coveringCases limit (cases ++ [c]) = coveringCases limit cases ++ [c] ∧
          saveIfCovering c w = withStore "saving a covering example"
            (fun b key => Examples.save b key c.draws .covering) (w.taught features saved)) := by
  have hconcat := coveringCases_concat limit cases hc
  rw [← h.saved] at hconcat
  rw [saveIfCovering, runner_bind]
  by_cases hlt : w.runner.coveringSaved < limit
  · have hnovel := h.any_iff hlt c
    have hfeatures := h.mem_insertMany hlt hc
    rw [if_pos (hl ▸ hlt), modifyRunner, modify_bind]
    by_cases hn : c.Novel cases
    · rw [if_pos ⟨hlt, hn⟩] at hconcat
      rw [if_pos (hnovel.2 hn)]
      refine ⟨w.runner.seenFeatures.insertMany c.features, w.runner.coveringSaved + 1,
        ⟨?_, fun _ => hfeatures⟩, .inr ⟨hconcat, rfl⟩⟩
      rw [hconcat, List.length_append, ← h.saved]
      rfl
    · rw [if_neg fun h => hn h.2, List.append_nil] at hconcat
      rw [if_neg (mt hnovel.1 hn)]
      exact ⟨_, _, ⟨hconcat ▸ h.saved, fun _ => hfeatures⟩, .inl ⟨hconcat, rfl⟩⟩
  · rw [if_neg fun hn => hlt hn.1, List.append_nil] at hconcat
    rw [if_neg (hl ▸ hlt)]
    exact ⟨_, _, ⟨hconcat ▸ h.saved, fun hn => absurd hn hlt⟩, .inl ⟨hconcat, rfl⟩⟩

/-- The draws of some cases, as bytes. -/
def savedBytes (cases : List Case) : Set Bytes :=
  {b | ∃ c ∈ cases, b = Encoding.serialize c.draws}

theorem savedBytes_concat (cases : List Case) (c : Case) :
    savedBytes (cases ++ [c]) = savedBytes cases ∪ {Encoding.serialize c.draws} := by
  ext b
  simp [savedBytes, or_and_right, exists_or, or_comm]

namespace World

/-- The cases made so far have left the corpora of the test as they were, but for the covering ones
among these cases. As long as there is room, the features that they show are known. -/
structure Covered (limit : Nat) (before : EntryKind → Set Bytes) (cases : List Case)
    (w : World Memory) : Prop where
  saved : w.runner.coveringSaved = (coveringCases limit cases).length
  seen : w.runner.coveringSaved < limit → ∀ f, f ∈ w.runner.seenFeatures ↔
    ∃ c ∈ cases, c.mayCover = true ∧ f ∈ c.features
  failing : w.corpus .failing = before .failing
  covering : w.corpus .covering = before .covering ∪ savedBytes (coveringCases limit cases)

variable {limit : Nat} {before : EntryKind → Set Bytes} {cases : List Case} {w w' : World Memory}

theorem Covered.knows (h : Covered limit before cases w) : w.runner.Knows limit cases :=
  ⟨h.saved, h.seen⟩

/-- Nothing of that is touched. -/
theorem Covered.congr (h : Covered limit before cases w)
    (hn : w'.runner.coveringSaved = w.runner.coveringSaved)
    (hf : w'.runner.seenFeatures = w.runner.seenFeatures) (hc : w'.corpus = w.corpus) :
    Covered limit before cases w' where
  saved := hn.trans h.saved
  seen := (h.knows.congr hn hf).seen
  failing := hc ▸ h.failing
  covering := hc ▸ h.covering

/-- Executing a case touches nothing of that either. -/
theorem Covered.ran {c : Case} (h : Covered limit before cases w) (hr : w.Ran c w') :
    Covered limit before cases w' := by
  obtain ⟨_, _, _, _, -, rfl⟩ := hr
  exact h.congr rfl rfl rfl

theorem Covered.append (h : Covered limit before cases w) {later : List Case}
    (hl : ∀ c ∈ later, c.mayCover = false) : Covered limit before (cases ++ later) w where
  saved := (h.knows.append hl).saved
  seen := (h.knows.append hl).seen
  failing := h.failing
  covering := coveringCases_append limit cases hl ▸ h.covering

/-- A run that knows of no feature has saved nothing, as long as no case may be saved. -/
theorem Covered.start (hf : ∀ f, f ∉ w.runner.seenFeatures) (hn : w.runner.coveringSaved = 0)
    (hc : ∀ c ∈ cases, c.mayCover = false) : Covered limit w.corpus cases w := by
  have hk : w.runner.Knows limit [] := .start hf hn
  refine List.nil_append cases ▸ Covered.append ⟨hk.saved, hk.seen, rfl, ?_⟩ hc
  rw [coveringCases_nil]
  ext b
  simp [savedBytes]

end World

namespace RunM

open World

variable {limit : Nat} {before : EntryKind → Set Bytes} {cases : List Case} {w w' : World Memory}

/-- What is saved of a case is what makes it a covering one. -/
theorem saveIfCovering_memory (hm : w.InMemory)
    (hl : w.runner.settings.maxCoveringExamples = limit) {c : Case} (hc : c.mayCover = true)
    (h : Covered limit before cases w) :
    ∃ w', saveIfCovering c w = (.ok (), w') ∧ Covered limit before (cases ++ [c]) w' := by
  obtain ⟨features, saved, hk, ⟨hsame, hw⟩ | ⟨hconcat, hw⟩⟩ := saveIfCovering_knows h.knows hl hc
  · exact ⟨_, hw, hk.saved, hk.seen, h.failing, hsame ▸ h.covering⟩
  · obtain ⟨w', hw', hr, hcorpus⟩ := save_memory (w := w.taught features saved)
      ⟨hm.store, hm.main⟩ "saving a covering example" c.draws .covering
    refine ⟨w', hw.trans hw', hr ▸ hk.saved, hr ▸ hk.seen, ?_, ?_⟩
    · rw [hcorpus, Function.update_of_ne (by decide : EntryKind.failing ≠ .covering)]
      exact h.failing
    · rw [hcorpus, Function.update_self, hconcat, savedBytes_concat, ← Set.union_assoc,
        ← h.covering]
      rfl

/-- What is done with a case that did not fail. -/
theorem keep_memory (hm : w.InMemory) (hl : w.runner.settings.maxCoveringExamples = limit)
    {c : Case} (hc : c.source = .generated) (h : Covered limit before cases w) :
    ∃ w', keep c w = (.ok (), w') ∧ Covered limit before (cases ++ [c]) w' := by
  unfold keep
  split
  · rename_i ho
    exact saveIfCovering_memory hm hl (by simp [Case.mayCover, hc, ho]) h
  · rename_i ho
    exact ⟨w, rfl, h.append (by simp [Case.mayCover, ho])⟩

/-- A failing case is saved at once. -/
theorem saveFailure_memory (hm : w.InMemory) (c : Case) :
    ∃ w', saveFailure c w = (.ok (), w') ∧ w'.corpus =
      Function.update w.corpus .failing (w.corpus .failing ∪ {Encoding.serialize c.draws}) := by
  obtain ⟨⟨⟩, w₁, h₁, t₁⟩ := ends_tell .info s!"found a failing example: {c.outcome.reason}" w
  have ho : Onward (· = .generated) w w₁ := onward_frame.idle t₁.idle
  obtain ⟨w₂, h₂, -, hc⟩ := save_memory (hm.onward ho) "saving a failing example" c.draws .failing
  rw [saveFailure, bind_of_ok h₁]
  rw [ho.corpus_eq t₁.idle.unstored] at hc
  exact ⟨w₂, h₂, hc⟩

/-- Cases are made until one fails, which is saved: by induction on how many may still be made. -/
theorem generateFrom_memory {property : Property} {body : Body (Except CaseError Unit)}
    (hp : property.Plays body) (maxExamples maxInvalid : Nat) (seeds : ChaCha8)
    (monitor : HealthMonitor) (valid invalid : Nat) (hd : w.runner.deadline.deadline = none)
    (hm : w.InMemory) (hl : w.runner.settings.maxCoveringExamples = limit)
    (h : Covered limit before w.executed.reverse w) {c : Case}
    (hg : generateFrom property maxExamples maxInvalid seeds monitor valid invalid w =
      (.ok (.failed c), w')) :
    c.source = .generated ∧
      w'.corpus .failing = before .failing ∪ {Encoding.serialize c.draws} ∧
      w'.corpus .covering =
        before .covering ∪ savedBytes (coveringCases limit w'.executed.reverse) := by
  induction hn : (maxExamples - valid) + (maxInvalid - invalid) using Nat.strongRecOn
    generalizing seeds monitor valid invalid w with
  | _ n ih =>
    rw [generateFrom_eq] at hg
    split at hg
    · rw [runner_bind] at hg
      split at hg
      · cases hg
      · obtain ⟨c', w₁, hx, he⟩ := execute_ok hp [] .generated seeds.next.1 hd
        rw [bind_of_ok hx] at hg
        obtain ⟨hs, hran⟩ := ran_of_execute hx
        have ho : Onward (· = .generated) w w₁ := onward_frame.ran hs hran
        have h₁ := h.ran hran
        have hr₁ : w₁.executed.reverse = w.executed.reverse ++ [c'] := by
          rw [he.executed, List.reverse_cons]
        split at hg
        · rename_i hf
          obtain ⟨w₂, h₂, hc⟩ := saveFailure_memory (hm.onward ho) c'
          have hcont := ((ends_saveFailure c').rel h₂).executed
          rw [bind_of_ok h₂] at hg
          cases hg
          have hmay : c.mayCover = false := Case.mayCover_of_isFailure hf
          refine ⟨hs, ?_, ?_⟩
          · rw [hc, Function.update_self, h₁.failing]
          · rw [hc, Function.update_of_ne (by decide : EntryKind.covering ≠ .failing), h₁.covering,
              hcont, hr₁, coveringCases_append _ _ (by simpa using hmay)]
        · have hg := refuseInvalid_bind hg
          obtain ⟨w₂, hk, h₂⟩ := keep_memory (hm.onward ho) (ho.settings ▸ hl) hs h₁
          have ho₂ : Onward (· = .generated) w₁ w₂ :=
            (runs_keep (E := Never) onward_frame c').rel hk
          have he₂ := ((ends_keep c').rel hk).executed
          rw [bind_of_ok hk] at hg
          rw [← hr₁, ← he₂] at h₂
          have hd₂ : w₂.runner.deadline.deadline = none :=
            ho₂.deadline.trans (ho.deadline.trans hd)
          have hm₂ := (hm.onward ho).onward ho₂
          have hl₂ : w₂.runner.settings.maxCoveringExamples = limit := by
            rw [ho₂.settings, ho.settings, hl]
          unfold judge at hg
          rcases hmo : monitor.observe c' with ⟨_ | failure, monitor'⟩ <;> rw [hmo] at hg
          · dsimp only at hg
            split at hg <;> split at hg
            · cases hg
            · exact ih _ (by omega) _ _ _ _ hd₂ hm₂ hl₂ h₂ hg rfl
            · cases hg
            · exact ih _ (by omega) _ _ _ _ hd₂ hm₂ hl₂ h₂ hg rfl
          · obtain ⟨⟨⟩, w₃, -, hg⟩ := (ends_tellUnhealthy _).bind_eq_ok hg
            cases hg
    · cases hg

/-- The phase changes the corpora in that way. -/
theorem generate_memory {property : Property} {body : Body (Except CaseError Unit)}
    (hp : property.Plays body) (seed : UInt64) (hd : w.runner.deadline.deadline = none)
    (hm : w.InMemory)
    (h : Covered w.runner.settings.maxCoveringExamples before w.executed.reverse w) {c : Case}
    (hg : generate property seed w = (.ok (.failed c), w')) :
    c.source = .generated ∧
      w'.corpus .failing = before .failing ∪ {Encoding.serialize c.draws} ∧
      w'.corpus .covering = before .covering ∪
        savedBytes (coveringCases w.runner.settings.maxCoveringExamples w'.executed.reverse) := by
  rw [generate, runner_bind] at hg
  obtain ⟨⟨⟩, w₁, ⟨sinks, log, rfl⟩, hg⟩ := (ends_tellPhase _).bind_eq_ok hg
  rw [setMode, modifyRunner, modify_bind] at hg
  refine generateFrom_memory hp _ _ _ _ _ _ ?_ ?_ ?_ ?_ hg
  · exact hd
  · exact ⟨hm.store, hm.main⟩
  · rfl
  · exact h.congr rfl rfl rfl

end RunM

end Falsify
