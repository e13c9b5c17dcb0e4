import Falsify.Proofs.Run.Corpora
import Falsify.Proofs.Shrink.Mirror

/-!
# Runs in step

Two runs of one property with stores in memory go through the same cases and come to the same
result if they start alike: under the same name and settings, with the same clock, and with nothing
executed so far. What they store and what they know of features may differ; it is carried along by
any relation that filing the same examples on both sides respects.

* `Stock`: what a run stores, and what it knows of features;
* `World.outline`: what of a world matters to the cases that are made;
* `World.Level`, `World.Abreast`: two runs are alike, and will be once they set their modes;
* `Lockstep`: two parts of runs have the same result, and leave runs alike that are;
* `lockstep_execute`, `lockstep_shrink`, `lockstep_generate`, `lockstep_proceed`: so do executions,
  searches and phases.
-/

namespace Falsify

/-! ## What is stored and known -/

/-- What a run has stored, what it knows of features, and how many more covering cases it may
save. -/
structure Stock where
  contents : Memory
  seen : Std.HashSet (String × String)
  room : Nat

namespace Stock

/-- The same with other contents. -/
def withContents (s : Stock) (f : Memory → Memory) : Stock :=
  { s with contents := f s.contents }

/-- Files a case that passed if it is the first one to show a feature, and there is room. -/
def keep (key : Key) (c : Case) (s : Stock) : Stock :=
  if 0 < s.room then
    if c.features.any fun feature => !s.seen.contains feature then
      ⟨s.contents.insert (EntryKind.covering.keyOf key) (Encoding.serialize c.draws),
        s.seen.insertMany c.features, s.room - 1⟩
    else { s with seen := s.seen.insertMany c.features }
  else s

variable {key : Key} {C : Stock → Stock → Prop}

/-- A relation that holds on if the same is filed or dropped on both sides. -/
structure Filing (key : Key) (C : Stock → Stock → Prop) : Prop where
  insert {s t : Stock} (kind : EntryKind) (bytes : Bytes) : C s t →
    C (s.withContents (·.insert (kind.keyOf key) bytes))
      (t.withContents (·.insert (kind.keyOf key) bytes))
  erase {s t : Stock} (kind : EntryKind) (bytes : Bytes) : C s t →
    C (s.withContents (·.erase (kind.keyOf key) bytes))
      (t.withContents (·.erase (kind.keyOf key) bytes))

/-- The same if a case that passed is kept on both sides where it is of use. -/
structure Keeping (key : Key) (C : Stock → Stock → Prop) : Prop extends Filing key C where
  keep {s t : Stock} (c : Case) : C s t → C (s.keep key c) (t.keep key c)

/-- A relation between stocks of the same contents, whatever these are. -/
structure Sharing (C : Stock → Stock → Prop) : Prop where
  contents {s t : Stock} : C s t → t.contents = s.contents
  withContents {s t : Stock} (m : Memory) : C s t →
    C (s.withContents fun _ => m) (t.withContents fun _ => m)

theorem Sharing.map (h : Sharing C) {s t : Stock} (f : Memory → Memory) (hs : C s t) :
    C (s.withContents f) (t.withContents f) := by
  have ht : t.withContents f = t.withContents fun _ => f s.contents :=
    congrArg (fun m => t.withContents fun _ => f m) (h.contents hs)
  rw [ht]
  exact h.withContents _ hs

theorem Sharing.filing (h : Sharing C) : Filing key C where
  insert _ _ := h.map _
  erase _ _ := h.map _

end Stock

namespace World

variable {σ : Type}

/-- What a run has stored and knows, and how many more cases it may save. -/
def stock (w : World Memory) : Stock :=
  ⟨w.storage.contents, w.runner.seenFeatures,
    w.runner.settings.maxCoveringExamples - w.runner.coveringSaved⟩

/-- What of a world matters to the cases that a run makes. -/
def outline (w : World σ) : World Unit where
  runner := {
    name := w.runner.name
    settings := w.runner.settings
    key := w.runner.key
    store := none
    deadline := w.runner.deadline
    sinks := []
    interrupted := w.runner.interrupted
    statistics := w.runner.statistics
    runStart := 0.0
    seenFeatures := Std.HashSet.emptyWithCapacity
    coveringSaved := 0 }
  storage := ⟨(), #[]⟩
  clock := w.clock
  executed := w.executed
  crash := w.crash

@[simp] theorem outline_executed (w : World σ) : w.outline.executed = w.executed := rfl

@[simp] theorem outline_clock (w : World σ) : w.outline.clock = w.clock := rfl

@[simp] theorem outline_crash (w : World σ) : w.outline.crash = w.crash := rfl

@[simp] theorem outline_settings (w : World σ) :
    w.outline.runner.settings = w.runner.settings := rfl

@[simp] theorem outline_deadline (w : World σ) :
    w.outline.runner.deadline = w.runner.deadline := rfl

@[simp] theorem outline_interrupted (w : World σ) :
    w.outline.runner.interrupted = w.runner.interrupted := rfl

/-- The same world with its deadline applied in another mode. -/
def withMode (mode : DeadlineMode) (w : World σ) : World σ :=
  { w with runner := { w.runner with deadline := w.runner.deadline.withMode mode } }

/-- Neither the store nor what is stored or known is touched. -/
structure Unstocked (w w' : World Memory) : Prop where
  key : w'.runner.key = w.runner.key
  store : w'.runner.store = w.runner.store
  stock : w'.stock = w.stock

variable {w w' v v' : World Memory}

theorem unstocked_frame {S : CaseSource → Prop} : RunM.PlayFrame S Unstocked where
  refl _ := ⟨rfl, rfl, rfl⟩
  trans h h' := ⟨h'.key.trans h.key, h'.store.trans h.store, h'.stock.trans h.stock⟩
  idle := by
    rintro w _ ⟨_, _, _, _, _, _, rfl⟩
    exact ⟨rfl, rfl, rfl⟩
  ran := by
    rintro w _ c - ⟨_, _, _, _, -, rfl⟩
    exact ⟨rfl, rfl, rfl⟩
  broke := by
    rintro w _ ⟨_, _, _, -, rfl⟩
    exact ⟨rfl, rfl, rfl⟩

theorem Told.outline {w w' : World σ} (h : w.Told w') : w'.outline = w.outline := by
  obtain ⟨_, _, rfl⟩ := h
  rfl

/-- Two runs with stores in memory are alike, and what they have stored and know is related. -/
structure Level (key : Key) (C : Stock → Stock → Prop) (w v : World Memory) : Prop where
  outline : v.outline = w.outline
  key : w.runner.key = key
  left : w.runner.store = some memoryBackend
  right : v.runner.store = some memoryBackend
  stock : C w.stock v.stock

variable {key : Key} {C : Stock → Stock → Prop}

theorem Level.mono {D : Stock → Stock → Prop} (h : Level key C w v)
    (hCD : ∀ {s t}, C s t → D s t) : Level key D w v :=
  ⟨h.outline, h.key, h.left, h.right, hCD h.stock⟩

theorem Level.unstocked (h : Level key C w v) (hw : w.Unstocked w') (hv : v.Unstocked v')
    (ho : v'.outline = w'.outline) : Level key C w' v' where
  outline := ho
  key := hw.key.trans h.key
  left := hw.store.trans h.left
  right := hv.store.trans h.right
  stock := by
    rw [hw.stock, hv.stock]
    exact h.stock

theorem Level.told (h : Level key C w v) (hw : w.Told w') (hv : v.Told v') : Level key C w' v' :=
  h.unstocked (unstocked_frame (S := fun _ => True).idle hw.idle)
    (unstocked_frame (S := fun _ => True).idle hv.idle) (by rw [hw.outline, hv.outline, h.outline])

/-- Two such runs but for the modes in which their deadlines are applied. -/
def Abreast (key : Key) (C : Stock → Stock → Prop) (w v : World Memory) : Prop :=
  Level key C (w.withMode .relaxed) (v.withMode .relaxed)

/-- In any mode they are alike. -/
theorem Level.withMode (h : Level key C w v) (mode : DeadlineMode) :
    Level key C (w.withMode mode) (v.withMode mode) where
  outline := congrArg (World.withMode mode) h.outline
  key := h.key
  left := h.left
  right := h.right
  stock := h.stock

theorem Level.abreast (h : Level key C w v) : Abreast key C w v :=
  h.withMode .relaxed

theorem Abreast.withMode (h : Abreast key C w v) (mode : DeadlineMode) :
    Level key C (w.withMode mode) (v.withMode mode) := by
  have hmode : ∀ w : World Memory, (w.withMode .relaxed).withMode mode = w.withMode mode := by
    intro w
    unfold World.withMode Deadline.withMode
    rfl
  have := Level.withMode h mode
  rwa [hmode, hmode] at this

end World

/-- Two runners of one property under the same settings, with the same numbers and with stores in
memory. -/
structure Runner.Alike (key : Key) (r r' : Runner Memory) : Prop where
  name : r'.name = r.name
  settings : r'.settings = r.settings
  left : r.key = key ∧ r.store = some memoryBackend
  right : r'.key = key ∧ r'.store = some memoryBackend
  interrupted : r'.interrupted = r.interrupted
  statistics : r'.statistics = r.statistics

namespace RunM

open World

variable {α β : Type} {P Q : World Memory → World Memory → Prop} {key : Key}
  {C : Stock → Stock → Prop} {x y : RunM Memory α} {f g : α → RunM Memory β} {property : Property}

/-- Two parts of runs have the same result, and leave related worlds related. -/
def Lockstep (Q : World Memory → World Memory → Prop) (x y : RunM Memory α) : Prop :=
  ∀ w v, Q w v → (y v).1 = (x w).1 ∧ Q (x w).2 (y v).2

/-- A relation under which runners are alike, and that telling respects. -/
structure Pairing (key : Key) (Q : World Memory → World Memory → Prop) : Prop where
  alike {w v : World Memory} : Q w v → w.runner.Alike key v.runner
  told {w v w' v' : World Memory} : Q w v → w.Told w' → v.Told v' → Q w' v'

theorem pairing_level : Pairing key (Level key C) where
  alike {w v} h := by
    have hr := congrArg World.runner h.outline
    have hk : v.runner.key = w.runner.key := (congrArg Runner.key hr :)
    exact ⟨(congrArg Runner.name hr :), (congrArg Runner.settings hr :), ⟨h.key, h.left⟩,
      ⟨hk.trans h.key, h.right⟩, (congrArg Runner.interrupted hr :),
      (congrArg Runner.statistics hr :)⟩
  told := Level.told

theorem pairing_abreast : Pairing key (Abreast key C) where
  alike h := by
    obtain ⟨hn, hs, hl, hr, hi, ht⟩ := pairing_level.alike h
    exact ⟨hn, hs, hl, hr, hi, ht⟩
  told h hw hv := by
    obtain ⟨_, _, rfl⟩ := hw
    obtain ⟨_, _, rfl⟩ := hv
    exact Level.told h ⟨_, _, rfl⟩ ⟨_, _, rfl⟩

/-! ## Rules -/

/-- What holds after the first parts need not all hold after the second. -/
theorem Lockstep.bind_mono (hx : Lockstep P x y) (hP : ∀ {w v}, P w v → Q w v)
    (hf : ∀ a, Lockstep Q (f a) (g a)) {w v : World Memory} (h : P w v) :
    ((y >>= g) v).1 = ((x >>= f) w).1 ∧ Q ((x >>= f) w).2 ((y >>= g) v).2 := by
  obtain ⟨hr, hq₁⟩ := hx w v h
  rcases hxw : x w with ⟨e | a, w₁⟩ <;> rcases hyv : y v with ⟨e' | a', v₁⟩ <;>
    rw [hxw, hyv] at hr hq₁ <;> cases hr
  · rw [bind_of_error hxw, bind_of_error hyv]
    exact ⟨rfl, hP hq₁⟩
  · rw [bind_of_ok hxw, bind_of_ok hyv]
    exact hf a w₁ v₁ (hP hq₁)

theorem Lockstep.bind (hx : Lockstep Q x y) (hf : ∀ a, Lockstep Q (f a) (g a)) :
    Lockstep Q (x >>= f) (y >>= g) := fun _ _ => hx.bind_mono id hf

theorem lockstep_pure (a : α) : Lockstep Q (pure a) (pure a) := fun _ _ hq => ⟨rfl, hq⟩

theorem lockstep_throw (e : RunError) : Lockstep Q (throw e : RunM Memory α) (throw e) :=
  fun _ _ hq => ⟨rfl, hq⟩

theorem lockstep_runner_bind (hQ : Pairing key Q) {f g : Runner Memory → RunM Memory β}
    (h : ∀ r r', r.Alike key r' → Lockstep Q (f r) (g r')) :
    Lockstep Q (runner >>= f) (runner >>= g) := fun w v hq =>
  h w.runner v.runner (hQ.alike hq) w v hq

theorem lockstep_told (hQ : Pairing key Q) {x y : RunM Memory Unit} (hx : Ends Told x)
    (hy : Ends Told y) : Lockstep Q x y := by
  intro w v hq
  obtain ⟨⟨⟩, w', hxw, tw⟩ := hx w
  obtain ⟨⟨⟩, v', hyv, tv⟩ := hy v
  rw [hxw, hyv]
  exact ⟨rfl, hQ.told hq tw tv⟩

theorem lockstep_refuseInvalid (c : Case) :
    Lockstep Q (refuseInvalid c : RunM Memory Unit) (refuseInvalid c) := by
  unfold refuseInvalid
  split
  · exact lockstep_throw _
  · exact lockstep_pure ()

/-- Runs that are about to set their modes are alike once they have. -/
theorem lockstep_setMode {mode : DeadlineMode} {f g : Unit → RunM Memory β}
    (h : Lockstep (Level key C) (f ()) (g ())) :
    Lockstep (Abreast key C) (setMode mode >>= f) (setMode mode >>= g) := by
  intro w v hq
  obtain ⟨hr, hl⟩ := h _ _ (hq.withMode mode)
  exact ⟨hr, hl.abreast⟩

theorem lockstep_now : Lockstep (Level key C) (now : RunM Memory Duration) now := by
  intro w v h
  have hc : v.clock = w.clock := (congrArg World.clock h.outline :)
  refine ⟨by change Except.ok v.clock.read.1 = _; rw [hc]; rfl, ?_⟩
  refine ⟨?_, h.key, h.left, h.right, h.stock⟩
  change { v.outline with clock := v.clock.read.2 } = { w.outline with clock := w.clock.read.2 }
  rw [h.outline, hc]

/-! ## Executions -/

/-- What an execution comes to shows in outlines. -/
theorem execute_outline {σ : Type} (property : Property) (forced : Draws) (source : CaseSource)
    (seed : UInt64) (w : World σ) :
    (execute property forced source seed w.outline).1 =
        (execute property forced source seed w).1 ∧
      (execute property forced source seed w.outline).2.outline =
        (execute property forced source seed w).2.outline := by
  have hw := execute_apply property forced source seed w
  have ho := execute_apply property forced source seed w.outline
  dsimp only at hw ho
  simp only [outline_executed, outline_settings, outline_clock, outline_interrupted,
    outline_deadline] at ho
  rw [hw, ho]
  generalize (property w.executed).run _ = r
  rcases outcomeOf w.runner.deadline (r.2.clock.read.1 - w.clock.read.1 - r.2.drawTime) r.1
    with c | outcome
  · exact ⟨rfl, rfl⟩
  · dsimp only
    obtain ⟨w₁, h₁, t₁⟩ := account_apply (r.2.toCase outcome
      (r.2.clock.read.1 - w.clock.read.1 - r.2.drawTime) source r.1.crashMessage?) (w.played r.2)
    obtain ⟨w₂, h₂, t₂⟩ := account_apply (r.2.toCase outcome
      (r.2.clock.read.1 - w.clock.read.1 - r.2.drawTime) source r.1.crashMessage?)
      (w.outline.played r.2)
    rw [h₁, h₂]
    exact ⟨rfl, by rw [t₁.outline, t₂.outline]; rfl⟩

theorem lockstep_execute (property : Property) (forced : Draws) (source : CaseSource)
    (seed : UInt64) : Lockstep (Level key C) (execute property forced source seed)
      (execute property forced source seed) := by
  intro w v h
  obtain ⟨hr, ho⟩ := execute_outline property forced source seed w
  obtain ⟨hr', ho'⟩ := execute_outline property forced source seed v
  rw [h.outline] at hr' ho'
  have hrel : ∀ w : World Memory, w.Unstocked (execute property forced source seed w).2 := fun w =>
    (runs_execute (E := fun _ => True) (unstocked_frame (S := fun _ => True)) property forced
      trivial seed w).1
  exact ⟨hr'.symm.trans hr, h.unstocked (hrel w) (hrel v) (ho'.symm.trans ho)⟩

/-! ## Searches -/

/-- Searches in worlds, seen through outlines. -/
def sketched : Mirror (World Memory) (World Unit) where
  good _ := True
  image := World.outline

/-- Trials and readings of the clock, of whose effects only outlines are kept. -/
def outlined (o : Oracle (World Unit)) : Oracle (World Unit) where
  trial candidate := fun w => ((o.trial candidate w).1, (o.trial candidate w).2.outline)
  elapsed := fun w => ((o.elapsed w).1, (o.elapsed w).2.outline)

theorem reflects_trial (property : Property) (origin : Origin) (began : Duration)
    (candidate : Draws) :
    sketched.Reflects ((oracle property origin began).trial candidate : StateM (World Memory) _)
      ((outlined (oracle property origin began)).trial candidate) := by
  intro w _
  refine ⟨trivial, ?_⟩
  obtain ⟨hr, ho⟩ := execute_outline property candidate .shrinking replaySeed w
  dsimp only [sketched, outlined, oracle]
  rw [outline_interrupted, outline_crash]
  split
  · rfl
  · rcases h : execute property candidate .shrinking replaySeed w with ⟨e | c, w₁⟩ <;>
      rcases h' : execute property candidate .shrinking replaySeed w.outline with ⟨e' | c', w₂⟩ <;>
        rw [h, h'] at hr ho <;> cases hr <;> exact Prod.ext rfl ho

theorem reflects_elapsed (property : Property) (origin : Origin) (began : Duration) :
    sketched.Reflects ((oracle property origin began).elapsed : StateM (World Memory) _)
      ((outlined (oracle property origin began)).elapsed) := fun _ _ => ⟨trivial, rfl⟩

/-- Searches in two runs that are alike find the same, with the same numbers. -/
theorem level_search (property : Property) (origin : Origin) (began : Duration) (b : ShrinkBudget)
    (initial : Draws) {w v : World Memory} (h : Level key C w v) :
    let s := (Search.start initial w).run (oracle property origin began) b
    let t := (Search.start initial v).run (oracle property origin began) b
    (sketched.search.image t = sketched.search.image s) ∧ Level key C s.world t.world := by
  intro s t
  have hfollow := Mirror.follows_run (m := sketched)
    (reflects_trial property origin began) (b := b) (.inr (reflects_elapsed property origin began))
  obtain ⟨-, hs⟩ := hfollow (Search.start initial w) trivial
  obtain ⟨-, ht⟩ := hfollow (Search.start initial v) trivial
  have hstart : sketched.search.image (Search.start initial v) =
      sketched.search.image (Search.start initial w) :=
    congrArg (Search.start initial) h.outline
  have himage : sketched.search.image t = sketched.search.image s := by
    rw [← hs, ← ht, hstart]
  have hrel : ∀ w : World Memory, w.Unstocked
      ((Search.start initial w).run (oracle property origin began) b).world := fun w =>
    (rel_search (unstocked_frame (S := fun _ => True)) trivial
      (Search.reaches_run (o := oracle property origin began) (b := b) (Search.start initial w))).1
  exact ⟨himage, h.unstocked (hrel w) (hrel v) (congrArg Search.world himage :)⟩

theorem lockstep_tellSearch {s t : Search (World Memory)}
    (h : sketched.search.image t = sketched.search.image s) :
    Lockstep (Level key C) (tellSearch s) (tellSearch t) := by
  have hcurrent : t.current = s.current := (congrArg Search.current h :)
  have hattempts : t.attempts = s.attempts := (congrArg Search.attempts h :)
  have himprovements : t.improvements = s.improvements := (congrArg Search.improvements h :)
  have hexhausted : t.exhausted = s.exhausted := (congrArg Search.exhausted h :)
  unfold tellSearch
  rw [hcurrent, hattempts, himprovements, hexhausted]
  refine (lockstep_told pairing_level (ends_tell _ _) (ends_tell _ _)).bind fun _ =>
    Lockstep.bind ?_ fun _ => ?_
  · intro w v h
    refine ⟨rfl, ⟨?_, h.key, h.left, h.right, h.stock⟩⟩
    exact congrArg (fun u : World Unit => { u with
      runner := { u.runner with
        statistics := { u.runner.statistics with
          shrinkAttempts := u.runner.statistics.shrinkAttempts + s.attempts
          shrinks := u.runner.statistics.shrinks + s.improvements } } }) h.outline
  · split
    · exact lockstep_told pairing_level (ends_tell _ _) (ends_tell _ _)
    · exact lockstep_pure ()

theorem lockstep_shrink (property : Property) (initial : Case) (reason : FailureReason) :
    Lockstep (Abreast key C) (shrink property initial reason) (shrink property initial reason) := by
  rw [shrink_eq]
  refine (lockstep_told pairing_abreast (ends_tellPhase _) (ends_tellPhase _)).bind fun _ =>
    lockstep_setMode (lockstep_runner_bind pairing_level fun r r' hr => ?_)
  rw [hr.settings]
  refine lockstep_now.bind fun began w v h => ?_
  obtain ⟨himage, hlevel⟩ :=
    level_search property reason.origin began r.settings.shrinkBudget initial.draws h
  change (leave _ v).1 = (leave _ w).1 ∧ Level key C (leave _ w).2 (leave _ v).2
  generalize (Search.start initial.draws w).run (oracle property reason.origin began)
    r.settings.shrinkBudget = s at himage hlevel
  generalize (Search.start initial.draws v).run (oracle property reason.origin began)
    r.settings.shrinkBudget = t at himage hlevel
  have hcrash : t.world.crash = s.world.crash := (congrArg World.crash hlevel.outline :)
  have hcurrent : t.current = s.current := (congrArg Search.current himage :)
  rcases hc : s.world.crash with _ | c
  · rw [leave_of_no_crash hc, leave_of_no_crash (hcrash.trans hc), hcurrent]
    exact ((lockstep_tellSearch himage).bind fun _ => lockstep_pure s.current) _ _ hlevel
  · rw [leave_of_crash hc, leave_of_crash (hcrash.trans hc)]
    exact ⟨rfl, hlevel⟩

/-! ## What is done with stores -/

/-- The same is done with both stores. -/
theorem lockstep_withStore (activity : String) {op : Backend Memory → Key → StoreM Memory Unit}
    {f : Memory → Memory} (hop : ∀ st, op memoryBackend key st =
      (.ok (), { st with contents := f st.contents }))
    (hf : ∀ {s t}, C s t → C (s.withContents f) (t.withContents f)) :
    Lockstep (Level key C) (withStore activity op) (withStore activity op) := by
  intro w v h
  have hkey : v.runner.key = key := (pairing_level.alike h).right.1
  rw [withStore_memory h.left activity (h.key ▸ hop w.storage),
    withStore_memory h.right activity (hkey ▸ hop v.storage)]
  exact ⟨rfl, h.outline, h.key, h.left, h.right, hf h.stock⟩

/-- What saving a case that is of use does to what is stored and known. -/
theorem saveIfCovering_stock {w : World Memory} (hs : w.runner.store = some memoryBackend)
    (c : Case) : ∃ w', saveIfCovering c w = (.ok (), w') ∧ w'.outline = w.outline ∧
      w'.runner.store = some memoryBackend ∧ w'.stock = w.stock.keep w.runner.key c := by
  rw [saveIfCovering, runner_bind]
  by_cases hroom : w.runner.coveringSaved < w.runner.settings.maxCoveringExamples
  · have hkeep : w.stock.keep w.runner.key c = _ := if_pos (Nat.sub_pos_of_lt hroom)
    rw [if_pos hroom, modifyRunner, modify_bind, hkeep]
    by_cases hnovel : (c.features.any fun feature => !w.runner.seenFeatures.contains feature) = true
    · have hnew : (c.features.any fun feature => !w.stock.seen.contains feature) = true := hnovel
      rw [if_pos hnew, if_pos hnovel, modifyRunner, modify_bind]
      exact ⟨_, withStore_memory (by exact hs) _ (Examples.save_memory _ _ _ _), rfl, hs, rfl⟩
    · have hold : ¬ (c.features.any fun feature => !w.stock.seen.contains feature) = true := hnovel
      rw [if_neg hold, if_neg hnovel]
      exact ⟨_, rfl, rfl, hs, rfl⟩
  · have hkeep : w.stock.keep w.runner.key c = w.stock :=
      if_neg (mt Nat.lt_of_sub_pos hroom)
    rw [if_neg hroom, hkeep]
    exact ⟨w, rfl, rfl, hs, rfl⟩

/-- The same for a case that did not fail. -/
theorem keep_stock {w : World Memory} (hs : w.runner.store = some memoryBackend) (c : Case) :
    ∃ w', keep c w = (.ok (), w') ∧ w'.outline = w.outline ∧
      w'.runner.store = some memoryBackend ∧
      w'.stock = if c.outcome = .passed then w.stock.keep w.runner.key c else w.stock := by
  unfold keep
  split
  · exact saveIfCovering_stock hs c
  · exact ⟨w, rfl, rfl, hs, rfl⟩

theorem lockstep_keep (hC : Stock.Keeping key C) (c : Case) :
    Lockstep (Level key C) (keep c : RunM Memory Unit) (keep c) := by
  intro w v h
  obtain ⟨w', hw, how, hsw, htw⟩ := keep_stock h.left c
  obtain ⟨v', hv, hov, hsv, htv⟩ := keep_stock h.right c
  have hkw : w'.runner.key = w.runner.key := (congrArg (·.runner.key) how :)
  rw [hw, hv]
  refine ⟨rfl, by rw [hov, how, h.outline], hkw.trans h.key, hsw, hsv, ?_⟩
  rw [htw, htv, (pairing_level.alike h).right.1, h.key]
  split
  · exact hC.keep c h.stock
  · exact h.stock

theorem lockstep_saveFailure (hC : Stock.Filing key C) (c : Case) :
    Lockstep (Level key C) (saveFailure c : RunM Memory Unit) (saveFailure c) :=
  (lockstep_told pairing_level (ends_tell _ _) (ends_tell _ _)).bind fun _ =>
    lockstep_withStore _ (fun st => Examples.save_memory key c.draws .failing st)
      (hC.insert .failing _)

/-- Runs with the same contents load the same. -/
theorem lockstep_load (hC : Stock.Sharing C) :
    Lockstep (Abreast key C) (stored (Examples.load memoryBackend key))
      (stored (Examples.load memoryBackend key)) := by
  intro w v h
  obtain ⟨hr, hc⟩ := Examples.silent_load key w.storage v.storage (hC.contents h.stock)
  refine ⟨congrArg Except.ok hr, h.outline, h.key, h.left, h.right, ?_⟩
  have hstock := hC.withContents (Examples.load memoryBackend key w.storage).2.contents h.stock
  change C ⟨(Examples.load memoryBackend key w.storage).2.contents, _, _⟩
    ⟨(Examples.load memoryBackend key v.storage).2.contents, _, _⟩
  rw [hc]
  exact hstock

/-! ## Phases -/

theorem lockstep_reuseFrom (hC : Stock.Filing key C) (entries : List (EntryKind × Draws)) :
    Lockstep (Level key C) (reuseFrom property entries) (reuseFrom property entries) := by
  induction entries with
  | nil => exact lockstep_pure none
  | cons entry rest ih =>
    obtain ⟨kind, s⟩ := entry
    refine lockstep_runner_bind pairing_level fun r r' hr => ?_
    rw [hr.interrupted]
    split
    · exact lockstep_pure none
    · refine (lockstep_execute property _ _ _).bind fun c => ?_
      split
      · exact lockstep_pure _
      · refine (lockstep_refuseInvalid c).bind fun _ => ?_
        split
        · refine Lockstep.bind ?_ fun _ => ih
          exact lockstep_withStore
            (f := fun m => (m.erase (EntryKind.failing.keyOf key) (Encoding.serialize s)).insert
              (EntryKind.covering.keyOf key) (Encoding.serialize s)) _
            (fun st => Examples.demote_memory key s st)
            fun h => hC.insert .covering _ (hC.erase .failing _ h)
        · exact ih

theorem lockstep_reuse (hC : Stock.Sharing C) :
    Lockstep (Abreast key C) (reuse property) (reuse property) := by
  rw [reuse_eq]
  refine lockstep_runner_bind pairing_abreast fun r r' hr => ?_
  rw [hr.left.1, hr.left.2, hr.right.1, hr.right.2]
  refine (lockstep_load hC).bind fun loaded => ?_
  split
  · exact (lockstep_told pairing_abreast (ends_databaseError _ _) (ends_databaseError _ _)).bind
      fun _ => lockstep_pure none
  · exact (lockstep_told pairing_abreast (ends_tellLoaded _) (ends_tellLoaded _)).bind fun _ =>
      lockstep_setMode (lockstep_reuseFrom hC.filing _)

/-- By induction on how many cases may still be made. -/
theorem lockstep_generateFrom (hC : Stock.Keeping key C) (maxExamples maxInvalid : Nat)
    (seeds : ChaCha8) (monitor : HealthMonitor) (valid invalid : Nat) :
    Lockstep (Level key C)
      (generateFrom property maxExamples maxInvalid seeds monitor valid invalid)
      (generateFrom property maxExamples maxInvalid seeds monitor valid invalid) := by
  induction hn : (maxExamples - valid) + (maxInvalid - invalid) using Nat.strongRecOn
    generalizing seeds monitor valid invalid with
  | _ n ih =>
    rw [generateFrom_eq]
    split
    · refine lockstep_runner_bind pairing_level fun r r' hr => ?_
      rw [hr.interrupted]
      split
      · exact lockstep_pure _
      · refine (lockstep_execute property _ _ _).bind fun c => ?_
        split
        · exact (lockstep_saveFailure hC.toFiling c).bind fun _ => lockstep_pure _
        · refine (lockstep_refuseInvalid c).bind fun _ => (lockstep_keep hC c).bind fun _ => ?_
          unfold judge
          split
          · exact (lockstep_told pairing_level (ends_tellUnhealthy _)
              (ends_tellUnhealthy _)).bind fun _ => lockstep_pure _
          · split <;> split
            · exact lockstep_pure _
            · exact ih _ (by omega) _ _ _ _ rfl
            · exact lockstep_pure _
            · exact ih _ (by omega) _ _ _ _ rfl
    · exact lockstep_pure _

theorem lockstep_generate (hC : Stock.Keeping key C) (seed : UInt64) :
    Lockstep (Abreast key C) (generate property seed) (generate property seed) := by
  refine lockstep_runner_bind pairing_abreast fun r r' hr => ?_
  rw [hr.settings]
  exact (lockstep_told pairing_abreast (ends_tellPhase _) (ends_tellPhase _)).bind fun _ =>
    lockstep_setMode (lockstep_generateFrom hC _ _ _ _ _ _)

theorem lockstep_simplify (initial : Case) :
    Lockstep (Abreast key C) (simplify property initial) (simplify property initial) := by
  refine lockstep_runner_bind pairing_abreast fun r r' hr => ?_
  rw [hr.settings]
  split
  · exact lockstep_shrink property initial _
  · exact lockstep_pure _

theorem lockstep_retry (initial : Case) (best : Draws) (name : String) :
    Lockstep (Level key C) (retry property initial best name)
      (retry property initial best name) := by
  unfold retry
  split
  · exact lockstep_pure none
  · exact (lockstep_told pairing_level (ends_tell _ _) (ends_tell _ _)).bind fun _ =>
      (lockstep_execute property _ _ _).bind fun _ => lockstep_pure _

theorem lockstep_settle (initial : Case) (name : String) (again : Option Case) :
    Lockstep (Level key C) (settle initial name again) (settle initial name again) := by
  rcases again with _ | first
  · exact (lockstep_told pairing_level (ends_tell _ _) (ends_tell _ _)).bind fun _ =>
      lockstep_pure _
  · exact lockstep_pure _

theorem lockstep_finalReplay (hC : Stock.Filing key C) (initial : Case) (best : Draws) :
    Lockstep (Abreast key C) (finalReplay property initial best)
      (finalReplay property initial best) := by
  rw [finalReplay_eq]
  refine lockstep_setMode ((lockstep_execute property _ _ _).bind fun c => ?_)
  split
  · refine Lockstep.bind ?_ fun _ => lockstep_pure _
    refine lockstep_withStore
      (f := fun m =>
        if initial.draws = c.draws then
          m.insert (EntryKind.failing.keyOf key) (Encoding.serialize c.draws)
        else (m.erase (EntryKind.failing.keyOf key) (Encoding.serialize initial.draws)).insert
          (EntryKind.failing.keyOf key) (Encoding.serialize c.draws)) _
      (fun st => Examples.replace_memory key initial.draws c.draws .failing st) fun h => ?_
    split
    · exact hC.insert .failing _ h
    · exact hC.insert .failing _ (hC.erase .failing _ h)
  · refine lockstep_runner_bind pairing_level fun r r' hr => ?_
    rw [hr.name]
    exact (lockstep_retry initial best r.name).bind fun _ => lockstep_settle initial r.name _

theorem lockstep_finish (outcome : Outcome) (example? : Option Counterexample)
    (health : Option HealthFailure) (seed : Option UInt64) :
    Lockstep (Abreast key C) (finish outcome example? health seed)
      (finish outcome example? health seed) := by
  intro w v h
  obtain ⟨w', hw, tw⟩ := finish_apply outcome example? health seed w
  obtain ⟨v', hv, tv⟩ := finish_apply outcome example? health seed v
  obtain ⟨hname, -, -, -, -, hstatistics⟩ := pairing_abreast.alike h
  rw [hw, hv, hname, hstatistics]
  exact ⟨rfl, pairing_abreast.told h tw tv⟩

theorem lockstep_conclude (hC : Stock.Filing key C) (initial : Case) (fromDatabase : Bool)
    (seed : UInt64) : Lockstep (Abreast key C) (conclude property initial fromDatabase seed)
      (conclude property initial fromDatabase seed) := by
  rw [conclude_eq]
  refine (lockstep_simplify initial).bind fun best =>
    (lockstep_finalReplay hC initial best).bind fun r => Lockstep.bind ?_ fun _ =>
      lockstep_finish _ _ _ _
  refine lockstep_runner_bind pairing_abreast fun r r' hr => ?_
  rw [hr.settings]
  exact lockstep_pure _

/-- What runs do once the cases in the database have been tried. -/
theorem lockstep_proceed (hC : Stock.Keeping key C) (seed : UInt64) (settings : Settings)
    (reused : Option Case) : Lockstep (Abreast key C) (proceed property seed settings reused)
      (proceed property seed settings reused) := by
  unfold proceed
  split
  · exact lockstep_conclude hC.toFiling _ _ _
  · refine lockstep_runner_bind pairing_abreast fun r r' hr => ?_
    rw [hr.interrupted]
    split
    · exact lockstep_finish _ _ _ _
    · split
      · refine (lockstep_generate hC seed).bind fun ending => ?_
        split
        · exact lockstep_finish _ _ _ _
        · exact lockstep_conclude hC.toFiling _ _ _
        · exact lockstep_finish _ _ _ _
        · exact lockstep_finish _ _ _ _
      · exact lockstep_finish _ _ _ _

theorem lockstep_tryStored (hC : Stock.Sharing C) (property : Property) (settings : Settings) :
    Lockstep (Abreast key C) (tryStored property settings) (tryStored property settings) := by
  unfold tryStored
  split
  · exact lockstep_reuse hC
  · exact lockstep_pure none

/-! ## Whole runs -/

theorem Abreast.begun {w v : World Memory} (h : Abreast key C w v) (host host' : Host Memory) :
    Abreast key C (w.begun host) (v.begun host') where
  outline := congrArg (fun u : World Unit => { u with
    executed := []
    crash := none
    runner := { u.runner with statistics := {} } }) h.outline
  key := h.key
  left := h.left
  right := h.right
  stock := h.stock

/-- Two runs with one seed that begin alike find the same, if they do with what is stored. -/
theorem lockstep_runProperty (property : Property) {D : Stock → Stock → Prop}
    {host host' : Host Memory} {w v : World Memory} {seed : UInt64}
    (ht : Lockstep (Abreast key C) (tryStored property w.runner.settings)
      (tryStored property w.runner.settings))
    (hD : Stock.Keeping key D) (hCD : ∀ {s t}, C s t → D s t)
    (h : Abreast key C (w.begun host) (v.begun host'))
    (hv : w.runner.settings.validate = .ok ()) (hr : w.runner.settings.reproduce = none)
    (hs : w.runner.settings.seed = some seed) :
    (runProperty host' property v).1 = (runProperty host property w).1 ∧
      Abreast key D (runProperty host property w).2 (runProperty host' property v).2 := by
  obtain ⟨-, hset, ⟨-, hw⟩, ⟨-, hw'⟩, -⟩ := pairing_abreast.alike h
  have hset : v.runner.settings = w.runner.settings := hset
  have hseed : ∀ {u : World Memory} (host : Host Memory), u.runner.settings = w.runner.settings →
      u.runSeed host = seed := fun host hu => by rw [runSeed, hu, hs]
  obtain ⟨w₁, tw, hrun⟩ := runProperty_apply host property (w := w) hw hv hr
  obtain ⟨v₁, tv, hrun'⟩ :=
    runProperty_apply host' property (w := v) hw' (hset ▸ hv) (hset ▸ hr)
  rw [hrun, hrun', hset, hseed host rfl, hseed host' hset]
  exact ht.bind_mono (fun h => Level.mono h hCD) (fun reused => lockstep_proceed hD _ _ reused)
    (pairing_abreast.told h tw tv)

end RunM

end Falsify
