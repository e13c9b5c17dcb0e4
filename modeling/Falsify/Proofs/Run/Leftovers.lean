import Falsify.Proofs.Run.Interrupt
import Falsify.Proofs.Run.Lockstep

/-!
# What one run leaves to the next

A runner that has made a run can make another one. It counts from zero again, and sets the mode
of its deadline whenever that matters. But it still knows which features it has seen, and how many
covering cases it has saved.

* `Stock.Apart`, `Stock.Matches`: what may differ between a runner that was used and a new one;
* `Stock.keepAll`, `World.Generated`: what making new cases does to what is stored and known;
* `World.Untaught`, `runs_untaught`: a run with no case to keep learns nothing;
* `rerun_as_fresh`: another run finds what a new runner would have found, files the same failures,
  and the same covering cases too if the runner has saved none before;
* `leftovers_keep_cases`: otherwise a covering case may be missing.
-/

namespace Falsify

namespace Stock

variable {s t : Stock} {key : Key}

/-- Nothing but covering cases of a test is stored on one side only. -/
def Apart (key : Key) (s t : Stock) : Prop :=
  ∀ k, k ≠ EntryKind.covering.keyOf key → t.contents.valuesOf k = s.contents.valuesOf k

/-- The same is stored, and the same cases are of use. -/
structure Matches (s t : Stock) : Prop where
  contents : t.contents = s.contents
  room : t.room = s.room
  seen : 0 < s.room → t.seen = s.seen

theorem apart_of_contents (key : Key) (h : t.contents = s.contents) : Apart key s t := fun k _ => by
  rw [h]

/-- Keeping a case may only add to the covering cases. -/
theorem keep_apart (key : Key) (c : Case) (s : Stock) : Apart key s (s.keep key c) := by
  intro k hk
  unfold keep
  split
  · split
    · show (s.contents.insert _ _).valuesOf k = _
      rw [Memory.valuesOf_insert, if_neg fun h => hk h.1]
    · rfl
  · rfl

theorem apart_keeping (key : Key) : Keeping key (Apart key) where
  insert kind bytes h k hk := by
    show (Memory.insert _ _ _).valuesOf k = (Memory.insert _ _ _).valuesOf k
    rw [Memory.valuesOf_insert, Memory.valuesOf_insert, h k hk]
  erase kind bytes h k hk := by
    show (Memory.erase _ _ _).valuesOf k = (Memory.erase _ _ _).valuesOf k
    rw [Memory.valuesOf_erase, Memory.valuesOf_erase, h k hk]
  keep c h k hk := by rw [keep_apart key c _ k hk, keep_apart key c _ k hk, h k hk]

theorem contents_sharing : Sharing fun s t => t.contents = s.contents where
  contents := id
  withContents _ _ := rfl

theorem matches_sharing : Sharing Matches where
  contents := Matches.contents
  withContents _ h := ⟨rfl, h.room, h.seen⟩

theorem matches_keeping (key : Key) : Keeping key Matches where
  toFiling := matches_sharing.filing
  keep {s t} c h := by
    obtain ⟨hc, hr, hs⟩ := h
    unfold keep
    rw [hr]
    split
    · rename_i hroom
      rw [hs hroom, hc]
      split <;> exact ⟨rfl, rfl, fun _ => rfl⟩
    · exact ⟨hc, hr, hs⟩

/-- Keeps those of some cases that are to be kept, one after another. -/
def keepAll (key : Key) (cases : List Case) (s : Stock) : Stock :=
  (cases.filter Case.mayCover).foldl (fun s c => s.keep key c) s

theorem keepAll_append (key : Key) (cases later : List Case) (s : Stock) :
    s.keepAll key (cases ++ later) = (s.keepAll key cases).keepAll key later := by
  rw [keepAll, List.filter_append, List.foldl_append]
  rfl

theorem keepAll_singleton (key : Key) (c : Case) (s : Stock) :
    s.keepAll key [c] = if c.mayCover = true then s.keep key c else s := by
  unfold keepAll
  split
  · rename_i h
    rw [List.filter_cons_of_pos h]
    rfl
  · rename_i h
    rw [List.filter_cons_of_neg h]
    rfl

theorem keep_of_novel {c : Case} (hr : 0 < s.room) (h : ∃ f ∈ c.features, f ∉ s.seen) :
    s.keep key c =
      ⟨s.contents.insert (EntryKind.covering.keyOf key) (Encoding.serialize c.draws),
        s.seen.insertMany c.features, s.room - 1⟩ := by
  have hany : (c.features.any fun f => !s.seen.contains f) = true := by
    simpa using h
  unfold keep
  rw [if_pos hr, if_pos hany]

theorem keep_contents_of_known {c : Case} (h : ∀ f ∈ c.features, f ∈ s.seen) :
    (s.keep key c).contents = s.contents := by
  have hany : ¬ (c.features.any fun f => !s.seen.contains f) = true := by
    simpa using h
  unfold keep
  rw [if_neg hany]
  split <;> rfl

/-- A case that shows nothing is never of use. -/
theorem keep_of_no_features {c : Case} (h : c.features = []) (s : Stock) : s.keep key c = s := by
  unfold keep
  rw [h]
  split <;> rfl

theorem keep_of_no_room (c : Case) (h : s.room = 0) : s.keep key c = s :=
  if_neg (by omega)

/-- Nothing is kept if nothing may be, or nothing shows a feature. -/
theorem keepAll_of_idle {cases : List Case}
    (h : s.room = 0 ∨ ∀ c ∈ cases, c.mayCover = true → c.features = []) :
    s.keepAll key cases = s := by
  unfold keepAll
  induction cases with
  | nil => rfl
  | cons c rest ih =>
    have hrest := ih (h.imp_right fun h c' hc' => h c' (List.mem_cons_of_mem _ hc'))
    rcases hm : c.mayCover with _ | _
    · rwa [List.filter_cons_of_neg (by simp [hm])]
    · have hkeep : s.keep key c = s := h.elim (keep_of_no_room c) fun h =>
        keep_of_no_features (h c List.mem_cons_self hm) s
      rwa [List.filter_cons_of_pos hm, List.foldl_cons, hkeep]

end Stock

namespace World

variable {w w' w₁ : World Memory} {c : Case} {cases later : List Case} {f : Memory → Memory}

/-! ## What is kept of new cases -/

/-- From one point of a run to another cases were executed, and those that are to be kept were, one
after another. What else was done to the store is done to it at last. -/
structure Filed (w w' : World Memory) (cases : List Case) (f : Memory → Memory) : Prop where
  key : w'.runner.key = w.runner.key
  store : w'.runner.store = w.runner.store
  executed : w'.executed = cases.reverse ++ w.executed
  stock : w'.stock = (w.stock.keepAll w.runner.key cases).withContents f

theorem Filed.of_unstocked (h : w.Unstocked w') (he : w'.executed = w.executed) :
    Filed w w' [] id :=
  ⟨h.key, h.store, he, h.stock⟩

theorem Filed.trans (h : Filed w w₁ cases id) (h' : Filed w₁ w' later f) :
    Filed w w' (cases ++ later) f where
  key := h'.key.trans h.key
  store := h'.store.trans h.store
  executed := by rw [h'.executed, h.executed, List.reverse_append, List.append_assoc]
  stock := by
    rw [h'.stock, h.stock, h.key, Stock.keepAll_append]
    rfl

theorem Idle.filed (h : w.Idle w') : Filed w w' [] id :=
  .of_unstocked ((unstocked_frame (S := fun _ => True)).idle h) h.executed

theorem Broke.filed (h : w.Broke w') : Filed w w' [] id :=
  .of_unstocked ((unstocked_frame (S := fun _ => True)).broke h) h.executed

theorem Ran.unstocked (h : w.Ran c w') : w.Unstocked w' :=
  (unstocked_frame (S := fun _ => True)).ran trivial h

/-- A case that is not to be kept leaves nothing. -/
theorem Ran.filed (h : w.Ran c w') (hc : c.mayCover = false) : Filed w w' [c] id := by
  refine ⟨h.unstocked.key, h.unstocked.store, h.executed, ?_⟩
  rw [h.unstocked.stock, Stock.keepAll_singleton, hc]
  rfl

/-- What making new cases comes to: those that are to be kept are, and a case that failed is filed
in some way. -/
def Generated (w : World Memory) (r : Except RunError GenerationEnd × World Memory) : Prop :=
  ∃ cases f, Filed w r.2 cases f ∧ ((∀ c, r.1 ≠ .ok (.failed c)) → f = id)

theorem Filed.generated (h : Filed w w' cases id) (r : Except RunError GenerationEnd) :
    w.Generated (r, w') :=
  ⟨cases, id, h, fun _ => rfl⟩

theorem Generated.after {r : Except RunError GenerationEnd × World Memory}
    (h : w₁.Generated r) (hk : Filed w w₁ cases id) : w.Generated r := by
  obtain ⟨later, f, hk', hf⟩ := h
  exact ⟨cases ++ later, f, hk.trans hk', hf⟩

end World

namespace RunM

open World

variable {property : Property} {w w' w₁ : World Memory} {c : Case}

/-- Executing a case that does not fail, and keeping it if it is of use. -/
theorem keep_filed (hs : w.runner.store = some memoryBackend) (h : w.Ran c w₁)
    (hc : c.source = .generated) : ∃ w', keep c w₁ = (.ok (), w') ∧ Filed w w' [c] id := by
  obtain ⟨w', hk, ho, hs', ht⟩ := keep_stock (h.unstocked.store.trans hs) c
  refine ⟨w', hk, (congrArg (·.runner.key) ho :).trans h.unstocked.key, hs'.trans hs.symm,
    (congrArg World.executed ho :).trans h.executed, ?_⟩
  have hmay : c.mayCover = true ↔ c.outcome = .passed := by simp [Case.mayCover, hc]
  rw [ht, h.unstocked.stock, h.unstocked.key, Stock.keepAll_singleton]
  simp only [hmay]
  rfl

/-- A failing case is filed as one. -/
theorem saveFailure_filed (hs : w.runner.store = some memoryBackend) (h : w.Ran c w₁)
    (hc : c.outcome.isFailure = true) :
    ∃ w' f, saveFailure c w₁ = (.ok (), w') ∧ Filed w w' [c] f := by
  obtain ⟨⟨⟩, w₂, h₂, sinks, log, rfl⟩ :=
    ends_tell .info s!"found a failing example: {c.outcome.reason}" w₁
  have hk := h.filed (Case.mayCover_of_isFailure hc)
  let f (m : Memory) :=
    m.insert (EntryKind.failing.keyOf w₁.runner.key) (Encoding.serialize c.draws)
  rw [saveFailure, bind_of_ok h₂]
  exact ⟨_, f, withStore_memory (by exact hk.store.trans hs) _ (Examples.save_memory _ _ _ _),
    hk.key, hk.store, hk.executed, congrArg (fun s : Stock => s.withContents f) hk.stock⟩

/-- By induction on how many cases may still be made. -/
theorem generated_generateFrom (property : Property) (maxExamples maxInvalid : Nat)
    (seeds : ChaCha8) (monitor : HealthMonitor) (valid invalid : Nat)
    (hs : w.runner.store = some memoryBackend) :
    w.Generated (generateFrom property maxExamples maxInvalid seeds monitor valid invalid w) := by
  induction hn : (maxExamples - valid) + (maxInvalid - invalid) using Nat.strongRecOn
    generalizing seeds monitor valid invalid w with
  | _ n ih =>
    have hsame : Filed w w [] id := .of_unstocked ⟨rfl, rfl, rfl⟩ rfl
    rw [generateFrom_eq]
    split
    · rw [runner_bind]
      split
      · exact hsame.generated _
      · rcases execute_cases property [] .generated seeds.next.1 w with
          ⟨c, w₁, hx, hc, hran⟩ | ⟨c, w₁, hx, -, hbroke⟩
        · rw [bind_of_ok hx]
          split
          · rename_i hf
            obtain ⟨w₂, f, h₂, hk⟩ := saveFailure_filed hs hran hf
            rw [bind_of_ok h₂]
            exact ⟨[c], f, hk, fun h => absurd rfl (h c)⟩
          · unfold refuseInvalid
            split
            · rename_i hinvalid
              exact (hran.filed (by simp [Case.mayCover, hinvalid])).generated _
            · obtain ⟨w₂, h₂, hk⟩ := keep_filed hs hran hc
              have hs₂ := hk.store.trans hs
              rw [pure_bind, bind_of_ok h₂]
              refine Generated.after ?_ hk
              have hstop : Filed w₂ w₂ [] id := .of_unstocked ⟨rfl, rfl, rfl⟩ rfl
              unfold judge
              rcases monitor.observe c with ⟨_ | failure, monitor'⟩
              · dsimp only
                split <;> split
                · exact hstop.generated _
                · exact ih _ (by omega) _ _ _ _ hs₂ rfl
                · exact hstop.generated _
                · exact ih _ (by omega) _ _ _ _ hs₂ rfl
              · obtain ⟨⟨⟩, w₃, h₃, t₃⟩ := ends_tellUnhealthy failure w₂
                dsimp only
                rw [bind_of_ok h₃]
                exact t₃.idle.filed.generated _
        · rw [bind_of_error hx]
          exact (hbroke.filed).generated _
    · exact hsame.generated _

theorem generated_generate (property : Property) (seed : UInt64)
    (hs : w.runner.store = some memoryBackend) : w.Generated (generate property seed w) := by
  rw [generate, runner_bind]
  obtain ⟨⟨⟩, w₁, h₁, t₁⟩ :=
    ends_tellPhase s!"generating up to {w.runner.settings.maxExamples} examples" w
  obtain ⟨⟨⟩, w₂, h₂, i₂⟩ := idle_setMode .relaxed w₁
  have hf := t₁.idle.filed.trans i₂.filed
  rw [bind_of_ok h₁, bind_of_ok h₂]
  exact (generated_generateFrom property _ _ _ _ _ _ (hf.store.trans hs)).after hf

/-- A run that tries no cases from the database and passes has done nothing else to what is stored
and known. -/
theorem stock_of_passed {host : Host Memory} (hs : w.runner.store = some memoryBackend)
    (hv : w.runner.settings.validate = .ok ()) (hr : w.runner.settings.reproduce = none)
    (hp : w.runner.settings.hasPhase .reuse = false) {result : RunResult}
    (h : runProperty host property w = (.ok result, w')) (ho : result.outcome = .passed) :
    w'.stock = w.stock.keepAll w.runner.key w'.executed.reverse := by
  obtain ⟨w₁, t₁, hrun⟩ := runProperty_apply host property hs hv hr
  have hnone : tryStored property w.runner.settings = (pure none : RunM Memory _) :=
    if_neg (by rw [hp]; decide)
  rw [hrun, hnone, pure_bind, proceed, runner_bind] at h
  have hfiled : ∃ cases, Filed (w.begun host) w' cases id := by
    split at h
    · cases (finish_outcome h).symm.trans ho
    · split at h
      · obtain ⟨ending, w₂, hg, h⟩ := bind_eq_ok h
        rcases ending with _ | c | reason | failure
        · have hgen := generated_generate property (w.runSeed host) (t₁.idle.filed.store.trans hs)
          rw [hg] at hgen
          obtain ⟨cases, f, hf, hid⟩ := hgen
          obtain rfl := hid fun c hc => by cases hc
          exact ⟨_, (t₁.idle.filed.trans hf).trans ((ends_finish _ _ _ _).rel h).idle.filed⟩
        · exact (gives_conclude _ _ _ _ _ _ h ho).elim
        · cases (finish_outcome h).symm.trans ho
        · cases (finish_outcome h).symm.trans ho
      · exact ⟨_, t₁.idle.filed.trans ((ends_finish _ _ _ _).rel h).idle.filed⟩
  obtain ⟨cases, hf⟩ := hfiled
  have he : w'.executed = cases.reverse := hf.executed.trans (List.append_nil _)
  rw [he, List.reverse_reverse]
  exact hf.stock

end RunM

/-! ## What a run learns -/

namespace World

variable {σ : Type} {S : CaseSource → Prop} {w w' : World Memory}

/-- No case so far was one to keep: none may be kept, or none that could be has shown a feature. -/
def Barren (w : World σ) : Prop :=
  w.runner.settings.maxCoveringExamples = 0 ∨
    ∀ c ∈ w.executed, c.mayCover = true → c.features = []

theorem Barren.before {w w' : World σ} (h : w'.Barren) (ho : w.Onward S w') : w.Barren := by
  obtain ⟨cases, he, -, -⟩ := ho.executed
  unfold Barren at h
  rw [ho.settings, he] at h
  exact h.imp_right fun h c hc => h c (List.mem_append_right _ hc)

/-- Unless some case was to be kept, what the run knows of features is as it was. -/
structure Untaught (w w' : World Memory) : Prop where
  onward : w.Onward (fun _ => True) w'
  known : w.runner.store = some memoryBackend → w'.Barren →
    w'.stock.room = w.stock.room ∧ w'.stock.seen = w.stock.seen

theorem untaught_frame : RunM.StoreFrame (fun _ => True) Untaught where
  refl w := ⟨onward_frame.refl w, fun _ _ => ⟨rfl, rfl⟩⟩
  trans h h' := ⟨h.onward.trans h'.onward, fun hs hb => by
    obtain ⟨hr, hk⟩ := h.known hs (hb.before h'.onward)
    obtain ⟨hr', hk'⟩ := h'.known (h.onward.store.trans hs) hb
    exact ⟨hr'.trans hr, hk'.trans hk⟩⟩
  idle h := ⟨onward_frame.idle h, fun _ _ => by
    obtain ⟨_, _, _, _, _, _, rfl⟩ := h
    exact ⟨rfl, rfl⟩⟩
  ran hs h := ⟨onward_frame.ran hs h, fun _ _ => by
    obtain ⟨_, _, _, _, -, rfl⟩ := h
    exact ⟨rfl, rfl⟩⟩
  broke h := ⟨onward_frame.broke h, fun _ _ => by
    obtain ⟨_, _, _, -, rfl⟩ := h
    exact ⟨rfl, rfl⟩⟩
  stored h := ⟨onward_frame.stored h, fun _ _ => by
    obtain ⟨_, rfl⟩ := h
    exact ⟨rfl, rfl⟩⟩

/-- Making new cases teaches a run nothing if none of them is to be kept. -/
theorem Generated.untaught {r : Except RunError GenerationEnd × World Memory}
    (h : w.Generated r) (hb : r.2.Barren) (hl : r.2.runner.settings = w.runner.settings) :
    r.2.stock.room = w.stock.room ∧ r.2.stock.seen = w.stock.seen := by
  obtain ⟨cases, f, hf, -⟩ := h
  have hidle : w.stock.keepAll w.runner.key cases = w.stock := by
    refine Stock.keepAll_of_idle (hb.imp (fun hn => ?_) fun hf' c hc => hf' c ?_)
    · rw [hl] at hn
      show w.runner.settings.maxCoveringExamples - w.runner.coveringSaved = 0
      omega
    · rw [hf.executed]
      exact List.mem_append_left _ (List.mem_reverse.2 hc)
  rw [hf.stock, hidle]
  exact ⟨rfl, rfl⟩

end World

namespace RunM

open World

theorem runs_untaught_generate (property : Property) (seed : UInt64) :
    Runs Untaught (fun _ => True) (generate property seed) := by
  intro w
  obtain ⟨ho, hsteady⟩ := runs_generate (E := fun _ => True)
    (onward_frame (σ := Memory) (S := fun _ => True)) trivial (fun _ => trivial) property seed w
  refine ⟨⟨ho, fun hs hb => ?_⟩, hsteady⟩
  exact (generated_generate property seed hs).untaught hb ho.settings

theorem runs_untaught (host : Host Memory) (property : Property) :
    Runs Untaught (fun _ => True) (search host property) :=
  runs_search_of_generate untaught_frame (fun _ => trivial) (fun _ => trivial) host
    (runs_untaught_generate property)

end RunM

open World RunM

/-! ## The next run -/

/-- The same world with a new runner under some name and settings. -/
def World.renewed (name : String) (settings : Settings) (sinks : List Sink) (w : World Memory) :
    World Memory :=
  { w with runner := .create name settings (some memoryBackend) sinks }

section Renewed

variable {name : String} {settings : Settings} {sinks : List Sink} {w₀ w : World Memory}
  {host : Host Memory}

/-- A runner that was new before a run begins the next one as a new one does. -/
theorem abreast_renewed {S : CaseSource → Prop} {C : Stock → Stock → Prop}
    (hr : w₀.runner = .create name settings (some memoryBackend) sinks)
    (ho : (w₀.begun host).Onward S w) (hi : w.runner.interrupted = false)
    (host₁ host₂ : Host Memory) (sinks' : List Sink)
    (hC : C w.stock (w.renewed name settings sinks').stock) :
    Abreast (.ofFunction name []) C (w.begun host₁)
      ((w.renewed name settings sinks').begun host₂) := by
  have hname : w.runner.name = name := ho.name.trans (congrArg Runner.name hr :)
  have hset : w.runner.settings = settings := ho.settings.trans (congrArg Runner.settings hr :)
  have hkey : w.runner.key = .ofFunction name [] := ho.key.trans (congrArg Runner.key hr :)
  have hstore : w.runner.store = some memoryBackend := ho.store.trans (congrArg Runner.store hr :)
  have hdeadline : w.runner.deadline.deadline = settings.deadline :=
    ho.deadline.trans (congrArg (·.deadline.deadline) hr :)
  refine ⟨?_, hkey, hstore, rfl, hC⟩
  unfold World.outline World.withMode World.begun World.renewed Deadline.withMode
  dsimp only [Runner.create, Deadline.ofDeadline]
  rw [hname, hset, hkey, hi, hdeadline]
  rfl

/-- What it knows is of as much use if no case was to be kept. -/
theorem matches_renewed (hr : w₀.runner = .create name settings (some memoryBackend) sinks)
    (h : (w₀.begun host).Untaught w)
    (hb : coveringCases settings.maxCoveringExamples w.executed.reverse = [])
    (sinks' : List Sink) : w.stock.Matches (w.renewed name settings sinks').stock := by
  have hset : w.runner.settings = settings :=
    h.onward.settings.trans (congrArg Runner.settings hr :)
  have hbarren : w.Barren := by
    unfold World.Barren
    rw [hset]
    exact (coveringCases_eq_nil hb).imp_right fun hf c hc => hf c (List.mem_reverse.2 hc)
  obtain ⟨hroom, hseen⟩ := h.known (congrArg Runner.store hr :) hbarren
  have hstock : (w₀.begun host).stock =
      ⟨w₀.storage.contents, .emptyWithCapacity, settings.maxCoveringExamples⟩ := by
    unfold World.stock World.begun
    rw [hr]
    rfl
  rw [hstock] at hroom hseen
  exact ⟨rfl, hroom.symm, fun _ => hseen.symm⟩

/-- What a run on a new runner keeps of that. -/
theorem untaught_of_create (hr : w₀.runner = .create name settings (some memoryBackend) sinks)
    (hv : settings.validate = .ok ()) (hrep : settings.reproduce = none) (first : Property) :
    (w₀.begun host).Untaught (runProperty host first w₀).2 := by
  have hset : w₀.runner.settings = settings := by rw [hr]; rfl
  rw [runProperty_of_store (by rw [hr]; rfl) (hset ▸ hv) (hset ▸ hrep)]
  exact (runs_untaught host first _).1

/-- The next run goes as it would on a new runner. -/
theorem lockstep_renewed {S : CaseSource → Prop} {C D : Stock → Stock → Prop} {seed : UInt64}
    {second : Property}
    (ht : Lockstep (Abreast (.ofFunction name []) C) (tryStored second settings)
      (tryStored second settings))
    (hD : Stock.Keeping (.ofFunction name []) D) (hCD : ∀ {s t}, C s t → D s t)
    (hr : w₀.runner = .create name settings (some memoryBackend) sinks)
    (ho : (w₀.begun host).Onward S w) (hv : settings.validate = .ok ())
    (hrep : settings.reproduce = none) (hs : settings.seed = some seed)
    (hi : w.runner.interrupted = false) (host₁ host₂ : Host Memory) (sinks' : List Sink)
    (hC : C w.stock (w.renewed name settings sinks').stock) :
    let again := runProperty host₁ second w
    let fresh := runProperty host₂ second (w.renewed name settings sinks')
    fresh.1 = again.1 ∧ Abreast (.ofFunction name []) D again.2 fresh.2 := by
  have hset : w.runner.settings = settings := ho.settings.trans (congrArg Runner.settings hr :)
  subst hset
  exact lockstep_runProperty second ht hD hCD (abreast_renewed hr ho hi host₁ host₂ sinks' hC) hv
    hrep hs

end Renewed

/-- Another run on a runner finds what it would have found on a new one, and files the same but for
covering cases. It files the same of these as well if the first run had none to keep. -/
theorem rerun_as_fresh {name : String} {settings : Settings} {seed : UInt64} {sinks : List Sink}
    (host host₁ host₂ : Host Memory) (first second : Property) (sinks' : List Sink)
    {w₀ : World Memory} (hr : w₀.runner = .create name settings (some memoryBackend) sinks)
    (hs : settings.seed = some seed) (hrep : settings.reproduce = none)
    (hi : (runProperty host first w₀).2.runner.interrupted = false) :
    let w := (runProperty host first w₀).2
    let again := runProperty host₁ second w
    let fresh := runProperty host₂ second (w.renewed name settings sinks')
    fresh.1 = again.1 ∧ fresh.2.executed = again.2.executed ∧
      (∀ k, k ≠ EntryKind.covering.keyOf (.ofFunction name []) →
        fresh.2.storage.contents.valuesOf k = again.2.storage.contents.valuesOf k) ∧
      (coveringCases settings.maxCoveringExamples w.executed.reverse = [] →
        fresh.2.storage.contents = again.2.storage.contents) := by
  intro w again fresh
  rcases hv : settings.validate with e | ⟨⟩
  · have hset : w₀.runner.settings = settings := by rw [hr]; rfl
    have hw : w = { w₀ with executed := [], crash := none } :=
      congrArg Prod.snd (runProperty_invalid host first (hset ▸ hv))
    have hagain : again = (.error (.settings e), { w with executed := [], crash := none }) :=
      runProperty_invalid host₁ second (by rw [hw]; exact hset ▸ hv)
    have hfresh : fresh = (.error (.settings e), _) := runProperty_invalid host₂ second hv
    rw [hagain, hfresh]
    exact ⟨rfl, rfl, fun _ _ => rfl, fun _ => rfl⟩
  · have hu : (w₀.begun host).Untaught w := untaught_of_create hr hv hrep first
    obtain ⟨hresult, hapart⟩ := lockstep_renewed
      (lockstep_tryStored Stock.contents_sharing second settings)
      (Stock.apart_keeping _) (Stock.apart_of_contents _) hr hu.onward hv hrep hs hi host₁ host₂
      sinks' rfl
    refine ⟨hresult, (congrArg World.executed hapart.outline :), hapart.stock, fun hb => ?_⟩
    obtain ⟨-, hmatches⟩ := lockstep_renewed
      (lockstep_tryStored Stock.matches_sharing second settings)
      (Stock.matches_keeping _) id hr hu.onward hv hrep hs hi host₁ host₂ sinks'
      (matches_renewed hr hu hb sinks')
    exact hmatches.stock.contents

/-- Settings under which a run makes one new case. -/
def Settings.once (phases : List Phase) : Settings :=
  { seed := some 7, phases := phases, maxExamples := 1 }

/-- The entry that the first run files fails the second one, on either runner. -/
theorem rerun_as_fresh_failing :
    let second : Property := fun _ => .done (.error (.failed "again"))
    let w := (runProperty .bare (fun _ => .refusingTrue) (.under (.once [.reuse, .generate]))).2
    let again := runProperty .bare second w
    let fresh := runProperty .bare second (w.renewed "t" (.once [.reuse, .generate]) [])
    w.runner.interrupted = false ∧ again.2.executed.length = 2 ∧ fresh.1 = again.1 ∧
      fresh.2.storage.contents = again.2.storage.contents := by
  intro second w again fresh
  have hr : (World.under (.once [.reuse, .generate])).runner =
    .create "t" (.once [.reuse, .generate]) (some memoryBackend) [] := rfl
  obtain ⟨hi, hl, hb⟩ : w.runner.interrupted = false ∧ again.2.executed.length = 2 ∧
      coveringCases (Settings.once [.reuse, .generate]).maxCoveringExamples
        w.executed.reverse = [] := by
    decide +kernel
  obtain ⟨hresult, -, -, hcontents⟩ := rerun_as_fresh .bare .bare .bare (fun _ => .refusingTrue)
    second [] hr rfl rfl hi
  exact ⟨hi, hl, hresult, hcontents hb⟩

/-! ## What is left over -/

/-- A body that draws, and shows a feature. -/
def Body.markingDraw : Body (Except CaseError Unit) :=
  .draw none .booleans fun _ => .event "k" "v" (.done (.ok ()))

/-- A body that shows the same without a draw. -/
def Body.marking : Body (Except CaseError Unit) :=
  .event "k" "v" (.done (.ok ()))

/-- The same world with no room for covering cases. -/
def World.full (w : World Memory) : World Memory :=
  { w with runner := { w.runner with coveringSaved := w.runner.settings.maxCoveringExamples } }

theorem Stock.any_keeping (key : Key) : Stock.Keeping key fun _ _ => True :=
  ⟨⟨fun _ _ _ => trivial, fun _ _ _ => trivial⟩, fun _ _ => trivial⟩

/-- What a run that passes stores can be told from any other one that begins alike. -/
theorem stock_of_abreast {key : Key} {host host' : Host Memory} {property : Property}
    {w v : World Memory} {seed : UInt64}
    (h : Abreast key (fun _ _ => True) (w.begun host) (v.begun host'))
    (hv : w.runner.settings.validate = .ok ()) (hr : w.runner.settings.reproduce = none)
    (hs : w.runner.settings.seed = some seed) (hp : w.runner.settings.hasPhase .reuse = false)
    (ho : (runProperty host' property v).1.toOption.map RunResult.outcome = some .passed) :
    Abreast key (fun _ _ => True) (runProperty host property w).2 (runProperty host' property v).2 ∧
      (runProperty host property w).2.stock =
        w.stock.keepAll key (runProperty host' property v).2.executed.reverse := by
  have hnone : tryStored property w.runner.settings = (pure none : RunM Memory _) :=
    if_neg (by rw [hp]; decide)
  obtain ⟨hresult, habreast⟩ := lockstep_runProperty property
    (by rw [hnone]; exact lockstep_pure none) (Stock.any_keeping key) id h hv hr hs
  refine ⟨habreast, ?_⟩
  have hexecuted := congrArg World.executed habreast.outline
  have hkey : w.runner.key = key := h.key
  rw [hresult] at ho
  rcases hrun : runProperty host property w with ⟨_ | result, w'⟩ <;> rw [hrun] at ho hexecuted
  · cases ho
  · have hexecuted : (runProperty host' property v).2.executed = w'.executed := hexecuted
    rw [hexecuted, ← hkey]
    exact stock_of_passed h.left hv hr hp hrun (Option.some.inj ho)

/-- A run has made one case, which may be kept, with these features and draws. -/
def MadeOne (features : List (String × String)) (draws : Draws)
    (r : Except RunError RunResult × World Memory) : Prop :=
  r.1.toOption.map RunResult.outcome = some .passed ∧ r.2.runner.interrupted = false ∧
    r.2.executed.map (fun c => (c.mayCover, c.features, c.draws)) = [(true, features, draws)]

instance (features : List (String × String)) (draws : Draws)
    (r : Except RunError RunResult × World Memory) : Decidable (MadeOne features draws r) :=
  inferInstanceAs (Decidable (_ ∧ _ ∧ _))

/-- What becomes of the case depends on what the runner knows. -/
theorem MadeOne.stock {key : Key} {property : Property} {w v : World Memory}
    {features : List (String × String)} {draws : Draws}
    (h : MadeOne features draws (runProperty .bare property v))
    (ha : Abreast key (fun _ _ => True) (w.begun .bare) (v.begun .bare))
    (hset : w.runner.settings = .once [.generate]) :
    let r := runProperty .bare property w
    Abreast key (fun _ _ => True) r.2 (runProperty .bare property v).2 ∧
      r.2.runner.interrupted = false ∧
      ∃ c, c.features = features ∧ c.draws = draws ∧ r.2.stock = w.stock.keep key c := by
  obtain ⟨hpass, hi, hcases⟩ := h
  obtain ⟨habreast, hstock⟩ := stock_of_abreast ha (by rw [hset]; rfl) (by rw [hset]; rfl)
    (by rw [hset]; rfl) (by rw [hset]; rfl) hpass
  obtain ⟨c, hc, he⟩ := List.map_eq_singleton_iff.1 hcases
  simp only [Prod.mk.injEq] at he
  obtain ⟨hmay, hfeatures, hdraws⟩ := he
  refine ⟨habreast, (pairing_abreast.alike habreast).interrupted.symm.trans hi, c, hfeatures,
    hdraws, ?_⟩
  rw [hstock, hc]
  exact (Stock.keepAll_singleton key c _).trans (if_pos hmay)

/-- The two bodies one after another, on one runner and on two. -/
theorem stock_of_marking :
    let w := (runProperty .bare (fun _ => .markingDraw) (.under (.once [.generate]))).2
    let again := runProperty .bare (fun _ => .marking) w
    let fresh := runProperty .bare (fun _ => .marking) (w.renewed "t" (.once [.generate]) [])
    w.runner.interrupted = false ∧ again.2.runner.interrupted = false ∧
      ∃ c c₁ c₂ : Case, c.features = [("k", "v")] ∧ c₁.features = [("k", "v")] ∧
        c₂.features = [("k", "v")] ∧ c.draws = [⟨1, 1⟩] ∧ c₂.draws = [] ∧
        w.stock = Stock.keep (.ofFunction "t" []) c ⟨.empty, .emptyWithCapacity, 50⟩ ∧
        again.2.stock = Stock.keep (.ofFunction "t" []) c₁ w.stock ∧
        fresh.2.stock =
          Stock.keep (.ofFunction "t" []) c₂ ⟨w.stock.contents, .emptyWithCapacity, 50⟩ := by
  intro w again fresh
  let w₀ : World Memory := .under (.once [.generate])
  have hr : w₀.runner = .create "t" (.once [.generate]) (some memoryBackend) [] := rfl
  -- With no room for covering cases nothing is looked up, and so these two runs can be computed.
  have hone : MadeOne [("k", "v")] [⟨1, 1⟩]
      (runProperty .bare (fun _ => .markingDraw) w₀.full) := by
    decide +kernel
  have hone' : MadeOne [("k", "v")] [] (runProperty .bare (fun _ => .marking)
      (runProperty .bare (fun _ => .markingDraw) w₀.full).2) := by
    decide +kernel
  have hstart : Abreast (.ofFunction "t" []) (fun _ _ => True) (w₀.begun .bare)
      (w₀.full.begun .bare) := ⟨rfl, rfl, rfl, rfl, trivial⟩
  obtain ⟨hfirst, hi, c, hf, hd, hstock⟩ := hone.stock hstart rfl
  have hu : (w₀.begun .bare).Untaught w := untaught_of_create hr rfl rfl fun _ => .markingDraw
  have hbegun := Abreast.begun hfirst .bare .bare
  have hrenewed : Abreast (.ofFunction "t" []) (fun _ _ => True) (w.begun .bare)
      ((w.renewed "t" (.once [.generate]) []).begun .bare) :=
    abreast_renewed hr hu.onward hi .bare .bare [] trivial
  have hbegun' : Abreast (.ofFunction "t" []) (fun _ _ => True)
      ((w.renewed "t" (.once [.generate]) []).begun .bare) (World.begun .bare _) :=
    ⟨hbegun.outline.trans hrenewed.outline.symm, rfl, rfl, hbegun.right, trivial⟩
  obtain ⟨-, hi', c₁, hf₁, -, hagain⟩ := hone'.stock hbegun hu.onward.settings
  obtain ⟨-, -, c₂, hf₂, hd₂, hfresh⟩ := hone'.stock hbegun' rfl
  exact ⟨hi, hi', c, c₁, c₂, hf, hf₁, hf₂, hd, hd₂, hstock, hagain, hfresh⟩

/-- What is stored depends on which features the runner has seen in the run before: the second body
shows one that the first has shown, and its case is kept by a new runner only. -/
theorem leftovers_keep_cases :
    ¬ ∀ (settings : Settings) (first second : Body (Except CaseError Unit)) (w₀ : World Memory),
      w₀.runner = .create "t" settings (some memoryBackend) [] → settings.seed.isSome = true →
      settings.reproduce = none →
      let w := (runProperty .bare (fun _ => first) w₀).2
      let again := runProperty .bare (fun _ => second) w
      let fresh := runProperty .bare (fun _ => second) (w.renewed "t" settings [])
      w.runner.interrupted = false → again.2.runner.interrupted = false →
      fresh.2.storage.contents = again.2.storage.contents := by
  intro h
  obtain ⟨hi, hi', c, c₁, c₂, hf, hf₁, hf₂, hd, hd₂, hstock, hagain, hfresh⟩ := stock_of_marking
  have hsame := h (.once [.generate]) .markingDraw .marking (.under (.once [.generate])) rfl rfl rfl
    hi hi'
  -- The first run has kept its case, and knows the feature.
  rw [Stock.keep_of_novel (by decide) (by simp [hf]), hf, hd] at hstock
  have hold := congrArg Stock.contents hagain
  rw [Stock.keep_contents_of_known (by rw [hstock, hf₁]; simp)] at hold
  -- A new runner does not know it.
  have hnew := congrArg Stock.contents hfresh
  rw [Stock.keep_of_novel (by decide) (by simp [hf₂]), hd₂] at hnew
  have hmem := Memory.mem_valuesOf_of_insert_eq (hnew.symm.trans (hsame.trans hold))
  rw [hstock] at hmem
  rcases Memory.mem_valuesOf_insert.1 hmem with hmem | ⟨-, hbytes⟩
  · cases hmem
  · cases hbytes

end Falsify
