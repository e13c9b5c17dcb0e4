import Falsify.Proofs.Run.Corpora

/-!
# What runs find of each other

Failures that one run files are found by another. What has been filed already is tried first,
and the first entry that fails is where a run ends.

* `Body.NeverInvalid`: bodies that no entry can stop for another reason;
* `World.FoundAgain`, `rerun_concludes`: a run that comes upon a stored failure;
* `search_recorded`: a run that fails files its counterexample;
* `failure_found_again`: so any later run fails too;
* `stored_failure_replaced`: what becomes of the entry that failed;
* `new_failure_filed`: the corpora after a new failure.
-/

namespace Falsify

theorem Outcome.exists_of_isFailure {o : Outcome} (h : o.isFailure = true) :
    ∃ reason, o = .failed reason := by
  rcases o with _ | reason | _
  · cases h
  · exact ⟨reason, rfl⟩
  · cases h

/-- Under the limits of some settings, the body makes sense whatever it draws. -/
def Body.NeverInvalid (body : Body (Except CaseError Unit)) (limits : Settings) : Prop :=
  ∀ forced seed message,
    (body.result forced seed limits.maxDraws limits.filterAttempts).outcome ≠
      .gaveUp (.invalidArgument message)

namespace World

/-- A run has come upon a stored failure, after entries that do not fail. -/
structure FoundAgain (body : Body (Except CaseError Unit)) (w : World Memory)
    (tried later : List (EntryKind × Draws)) (kind : EntryKind) (s : Draws) (initial : Case)
    (w₁ : World Memory) : Prop where
  entries : w.entries = tried ++ (kind, s) :: later
  passed : ∀ e ∈ tried, body.stillFails w.runner.settings e.2 = false
  replay : initial.timeless = body.replay w.runner.settings s
  fails : body.stillFails w.runner.settings s = true
  replays : 1 ≤ w₁.runner.statistics.databaseReplays
  settings : w₁.runner.settings = w.runner.settings
  corpus : w₁.corpus .failing = w.decodable .failing \ demoted tried

/-- Cases from the database are counted as such. -/
theorem Onward.replays_pos {w w' : World Memory} (h : Onward (· = .database) w w')
    (hne : w'.executed ≠ w.executed) : 1 ≤ w'.runner.statistics.databaseReplays := by
  obtain ⟨cases, he, hc, hr⟩ := h.executed
  have hpos : cases ≠ [] := by
    rintro rfl
    exact hne he
  rw [hr, List.countP_eq_length.2 fun c hm => decide_eq_true (hc c hm)]
  have := List.length_pos_iff.2 hpos
  omega

/-- A run that tries what is stored of its test, on a store in memory, and without a deadline. -/
structure Retrying (w : World Memory) : Prop where
  memory : w.InMemory
  deadline : w.runner.deadline.deadline = none
  valid : w.runner.settings.validate = .ok ()
  reproduce : w.runner.settings.reproduce = none
  reuse : w.runner.settings.hasPhase .reuse = true

/-- The runner is new: no feature was seen in runs before. -/
structure Fresh (w : World Memory) : Prop extends Retrying w where
  features : ∀ f, f ∉ w.runner.seenFeatures
  saved : w.runner.coveringSaved = 0

theorem fresh_of_create {w : World Memory} {name : String} {settings : Settings}
    {sinks : List Sink} (h : w.runner = .create name settings (some memoryBackend) sinks)
    (hd : settings.deadline = none) (hv : settings.validate = .ok ())
    (hr : settings.reproduce = none) (hp : settings.hasPhase .reuse = true) : w.Fresh := by
  constructor
  · constructor
    · constructor <;> rw [h] <;> rfl
    all_goals rw [h]; assumption
  · rw [h]
    exact fun _ => Std.HashSet.not_mem_emptyWithCapacity
  · rw [h]
    rfl

end World

namespace RunM

open World

variable {property : Property} {body : Body (Except CaseError Unit)} {host : Host Memory}
  {w w' : World Memory}

theorem tryStored_ok (hp : property.Plays body) (hd : w.runner.deadline.deadline = none)
    (settings : Settings) {reused : Option Case}
    (h : tryStored property settings w = (.ok reused, w')) :
    Found body w w' reused ∧ Onward (· = .database) w w' := by
  refine ⟨?_, (runs_tryStored (E := fun _ => True) (S := (· = .database))
    onward_frame.toStoreFrame rfl (fun _ => trivial) property settings).rel h⟩
  unfold tryStored at h
  split at h
  · exact reuse_ok hp hd h
  · cases h
    exact .of_since (.refl _)

theorem Concluded.recorded {initial : Draws} {origin : Option UInt64} {result : RunResult}
    {c : Case} (h : Concluded body w w' initial origin result c) :
    ∃ e, result.counterexample = some e ∧ FailsOn body w.runner.settings e.draws ∧
      Encoding.serialize e.draws ∈ w'.corpus .failing := by
  obtain ⟨cases, hs⟩ := h.reports.since
  refine ⟨_, h.counterexample, ⟨c, hs.made c List.mem_cons_self, h.reports.failing, rfl⟩, ?_⟩
  rw [h.failing]
  exact .inr rfl

/-- A run that fails has filed its counterexample, which is a failing case of the body. -/
theorem search_recorded (hp : property.Plays body) (hd : w.runner.deadline.deadline = none)
    (hm : w.InMemory) {result : RunResult} {reason : FailureReason}
    (h : search host property w = (.ok result, w')) (ho : result.outcome = .failed reason) :
    ∃ e, result.counterexample = some e ∧ FailsOn body w.runner.settings e.draws ∧
      Encoding.serialize e.draws ∈ w'.corpus .failing := by
  obtain ⟨v, t, h⟩ := search_concludes h ho
  generalize w.runSeed host = seed at h
  have hv : Onward (fun _ => True) w v := onward_frame.idle t.idle
  have hlast : ∀ {u initial fromDatabase}, Onward (fun _ => True) w u →
      FailsOn body u.runner.settings initial.draws →
      conclude property initial fromDatabase seed u = (.ok result, w') →
      ∃ e, result.counterexample = some e ∧ FailsOn body w.runner.settings e.draws ∧
        Encoding.serialize e.draws ∈ w'.corpus .failing := by
    intro u initial fromDatabase hu hf hc
    obtain ⟨c, hcon⟩ := conclude_memory hp (hu.deadline.trans hd) (hm.onward hu) hf _ _ hc
    exact hu.settings ▸ Concluded.recorded hcon
  rcases h with ⟨initial, w₁, h₁, hc⟩ | ⟨initial, w₁, w₂, h₁, -, hg, hc⟩
  · obtain ⟨hfound, ho₁⟩ := tryStored_ok hp (hv.deadline.trans hd) _ h₁
    exact hlast (hv.trans (ho₁.mono fun _ _ => trivial)) (Found.failsOn hfound) hc
  · obtain ⟨-, ho₁⟩ := tryStored_ok hp (hv.deadline.trans hd) _ h₁
    have hd₁ := ho₁.deadline.trans (hv.deadline.trans hd)
    have ho₂ : Onward (fun _ => True) w₁ w₂ := (runs_generate (E := fun _ => True) onward_frame
      trivial (fun _ => trivial) property seed).rel hg
    exact hlast (hv.trans ((ho₁.mono fun _ _ => trivial).trans ho₂))
      (Found.failsOn (generate_failed hp seed hd₁ hg)) hc

/-- A run that has a failure among its entries comes upon one, and concludes from it. -/
theorem rerun_concludes (hp : property.Plays body) (hw : w.Retrying)
    (hn : body.NeverInvalid w.runner.settings) {kind : EntryKind} {s : Draws}
    (hs : (kind, s) ∈ w.entries)
    (hf : body.stillFails w.runner.settings s = true)
    (hi : (runProperty host property w).2.runner.interrupted = false) :
    ∃ tried later kind s initial w₁ result w' c, FoundAgain body w tried later kind s initial w₁ ∧
      Concluded body w₁ w' initial.draws none result c ∧
      runProperty host property w = (.ok result, w') := by
  obtain ⟨v, t, hrun⟩ := runProperty_apply host property
    hw.memory.store hw.valid hw.reproduce
  generalize w.runSeed host = seed at hrun
  have hv : Onward (fun _ => True) (w.begun host) v := onward_frame.idle t.idle
  have hd : v.runner.deadline.deadline = none := hv.deadline.trans hw.deadline
  have hm : v.InMemory := ⟨hv.store.trans hw.memory.store, by rw [hv.key]; exact hw.memory.main⟩
  have hentries : v.entries = w.entries := entries_congr hv.key t.idle.unstored
  have hdec : v.decodable = w.decodable := decodable_congr (hv.corpus_eq t.idle.unstored)
  have hset : v.runner.settings = w.runner.settings := hv.settings
  rw [hrun] at hi
  rcases h₁ : tryStored property w.runner.settings v with ⟨r, w₁⟩
  have h₁' := h₁
  rw [tryStored, hw.reuse, if_pos rfl] at h₁'
  obtain ⟨tried, rest, he, hr⟩ := reuse_memory hp hd hm h₁'
  rw [hentries] at he
  rw [hset, hdec] at hr
  rcases r with e | _ | initial
  · obtain ⟨kind, s', later, message, -, hinv⟩ := hr.ending
    exact (hn _ _ _ hinv).elim
  · rcases hr.ending with hnil | hint
    · rw [hnil, List.append_nil] at he
      rw [hr.passed (kind, s) (he ▸ hs)] at hf
      cases hf
    · -- Nobody has asked the run to stop, and such a request would stand.
      rw [bind_of_ok h₁] at hi
      rcases hlast : proceed property seed w.runner.settings none w₁ with ⟨r, w'⟩
      have ho : Onward (fun _ => True) w₁ w' := (runs_proceed (E := fun _ => True) onward_frame
        (fun _ => trivial) (fun _ => trivial) property seed w.runner.settings none).rel hlast
      rw [hlast] at hi
      cases (ho.interrupted hint).symm.trans hi
  · obtain ⟨kind', s', later, hrest, hreplay, hsource, hfails⟩ := hr.ending
    obtain ⟨hfound, ho₁⟩ := tryStored_ok hp hd _ h₁
    have ⟨cases, hsince, _⟩ := hfound
    have hd₁ := ho₁.deadline.trans hd
    obtain ⟨result, w', hc⟩ := conclude_total (w := w₁)
      ⟨hd₁, hsince.crash.trans t.continues.crash⟩ property initial true seed
    obtain ⟨c, hcon⟩ := conclude_memory hp hd₁ (hm.onward ho₁) (Found.failsOn hfound) true seed hc
    refine ⟨tried, later, kind', s', initial, w₁, result, w', c,
      ⟨?_, hr.passed, hreplay, ?_, ?_, ?_, hr.failing⟩, hcon, ?_⟩
    · rw [he, hrest]
    · have hout : initial.outcome = _ := (congrArg Case.outcome hreplay :)
      rw [Body.stillFails, ← hout, hfails]
    · refine ho₁.replays_pos fun h => ?_
      have := congrArg List.length (hsince.executed.symm.trans h)
      simp only [List.length_append, Option.toList_some, List.length_singleton] at this
      omega
    · rw [ho₁.settings, hset]
    · rw [hrun]
      exact (bind_of_ok h₁).trans hc

/-- A new runner that fails on a new case has tried all entries before, and none has failed. -/
theorem search_generated (hp : property.Plays body) (hw : w.Fresh) (he : w.executed = [])
    {result : RunResult} {reason : FailureReason} {initial : Case}
    (h : search host property w = (.ok result, w')) (ho : result.outcome = .failed reason)
    (hi : w'.executed.reverse.find? (·.outcome.isFailure) = some initial)
    (hg : initial.source = .generated) :
    ∃ seed w₁ c, Concluded body w₁ w' initial.draws (some seed) result c ∧
      w₁.corpus .failing = {Encoding.serialize initial.draws} ∧
      w₁.corpus .covering = w.decodable .covering ∪ w.decodable .failing ∪
        savedBytes (coveringCases w.runner.settings.maxCoveringExamples w₁.executed.reverse) := by
  obtain ⟨v, t, h⟩ := search_concludes h ho
  generalize w.runSeed host = seed at h
  have hv : Onward (fun _ => True) w v := onward_frame.idle t.idle
  have hd : v.runner.deadline.deadline = none := hv.deadline.trans hw.deadline
  have hm : v.InMemory := hw.memory.onward hv
  have hdec : v.decodable = w.decodable := decodable_congr (hv.corpus_eq t.idle.unstored)
  have hve : v.executed = [] := t.continues.executed.trans he
  -- The first failing case is the one that the run has concluded from.
  have hfirst : ∀ {c : Case} {fromDatabase : Bool} {u : World Memory}, Found body v u (some c) →
      Onward (fun _ => True) v u → conclude property c fromDatabase seed u = (.ok result, w') →
      c = initial ∧ ∃ c', Concluded body u w' c.draws (if fromDatabase then none else some seed)
        result c' := by
    intro c fromDatabase u hfound hu hc
    obtain ⟨c', hcon⟩ := conclude_memory hp (hu.deadline.trans hd) (hm.onward hu)
      (Found.failsOn hfound) _ _ hc
    obtain ⟨cases, hs⟩ := hcon.reports.since
    exact ⟨Option.some.inj ((find?_executed hfound hs hve).symm.trans hi), c', hcon⟩
  rcases h with ⟨c, w₁, h₁, hc⟩ | ⟨c, w₁, w₂, h₁, hint, hgen, hc⟩ <;>
    obtain ⟨hfound, ho₁⟩ := tryStored_ok hp hd _ h₁ <;>
    obtain ⟨cases, hcases, hdb, -⟩ := ho₁.executed <;>
    rw [hve, List.append_nil] at hcases
  · obtain ⟨rfl, -⟩ := hfirst hfound (ho₁.mono fun _ _ => trivial) hc
    have ⟨_, hsince, _⟩ := hfound
    have hmem : c ∈ cases := by
      rw [← hcases, hsince.executed]
      exact List.mem_cons_self
    cases hg.symm.trans (hdb c hmem)
  · rw [tryStored, hw.reuse, if_pos rfl] at h₁
    have hknown : w.Unnoted w₁ := (unnoted_frame (S := (· = .database))).trans
      (unnoted_frame.idle (S := (· = .database)) t.idle)
      ((runs_reuse (E := fun _ => True) unnoted_frame rfl (fun _ => trivial) property).rel h₁)
    obtain ⟨hnone, hcov⟩ := reuse_none hp hd hm hint h₁
    have hd₁ := ho₁.deadline.trans hd
    have hm₁ := hm.onward ho₁
    have hold : ∀ c ∈ w₁.executed.reverse, c.mayCover = false := by
      intro c hc
      rw [List.mem_reverse, hcases] at hc
      exact Case.mayCover_of_source (by rw [hdb c hc]; decide)
    have ho₂ : Onward (fun _ => True) w₁ w₂ := (runs_generate (E := fun _ => True) onward_frame
      trivial (fun _ => trivial) property seed).rel hgen
    obtain ⟨-, hfail₂, hcov₂⟩ := generate_memory hp seed hd₁ hm₁
      (.start (by rw [hknown.1]; exact hw.features) (hknown.2.trans hw.saved) hold) hgen
    obtain ⟨rfl, c', hcon⟩ := hfirst (hfound.then (generate_failed hp seed hd₁ hgen))
      ((ho₁.mono fun _ _ => trivial).trans ho₂) hc
    refine ⟨seed, w₂, c', hcon, ?_, ?_⟩
    · rw [hfail₂, hnone, Set.empty_union]
    · rw [hcov₂, hcov, hdec, ho₁.settings, hv.settings]

end RunM

open World RunM

variable {host : Host Memory} {property : Property} {body : Body (Except CaseError Unit)}
  {w w' : World Memory}

/-! ## A small test -/

/-- A body that fails if it draws `true`, and marks a feature otherwise. -/
def Body.refusingTrue : Body (Except CaseError Unit) :=
  .draw none .booleans fun
    | .ok (.boolean true) => .done (.error (.failed "no"))
    | _ => .event "drawn" "false" (.done (.ok ()))

theorem Body.neverInvalid_refusingTrue (limits : Settings) :
    refusingTrue.NeverInvalid limits := by
  intro forced seed message
  unfold result refusingTrue
  rw [run_draw]
  rcases CaseState.draw _ Strategy.booleans with ⟨(c | e) | value, s⟩
  · nofun
  · nofun
  · rcases value with _ | (_ | _) | _ | _ <;> nofun

theorem Body.plays_refusingTrue : Property.Plays (fun _ => .refusingTrue) .refusingTrue := by
  intro _
  refine congrArg (Body.draw none .booleans) (funext fun answer => ?_)
  rcases answer with _ | _ | (_ | _) | _ | _ <;> rfl

/-- A machine without databases. -/
def Host.bare : Host Memory := ⟨fun _ => throw (.refused .save), 0, 0⟩

/-- A world with a store in memory, about to try a test called `t` on a new runner. -/
def World.stocked (phases : List Phase) (seed : UInt64) (contents : Memory) : World Memory where
  runner := .create "t" { deadline := none, seed := some seed, phases := phases }
    (some memoryBackend) []
  storage := ⟨contents, #[]⟩
  clock := .start fun _ => 0
  executed := []
  crash := none

/-- The same with nothing stored, under any settings. -/
def World.under (settings : Settings) : World Memory where
  runner := .create "t" settings (some memoryBackend) []
  storage := ⟨.empty, #[]⟩
  clock := .start fun _ => 0
  executed := []
  crash := none

/-- A store with one failing example of that test. -/
def Memory.holding (s : Draws) : Memory :=
  Memory.empty.insert (EntryKind.failing.keyOf (.ofFunction "t" [])) (Encoding.serialize s)

theorem World.fresh_stocked {phases : List Phase} {seed : UInt64} {contents : Memory}
    (h : Phase.reuse ∈ phases) : (stocked phases seed contents).Fresh :=
  fresh_of_create rfl rfl rfl rfl (by simpa [Settings.hasPhase] using h)

/-! ## Runs one after another -/

/-- A failure that a run reports is found by any later run of the test on the corpora that it left,
in whatever order their values are fetched and whatever else is stored: the entry decodes, it is
reached, and it fails or another one before it does. An entry decodes if it has no more draws than
the format can count. -/
theorem failure_found_again {host₂ : Host Memory} {property₂ : Property} {w₂ : World Memory}
    (hp : property.Plays body) (hp₂ : property₂.Plays body)
    (hn : body.NeverInvalid w.runner.settings) (hm : w.InMemory)
    (hd : w.runner.deadline.deadline = none) (hr : w.runner.settings.reproduce = none)
    {result : RunResult} {reason : FailureReason}
    (h : runProperty host property w = (.ok result, w')) (ho : result.outcome = .failed reason)
    (hl : ∀ e ∈ result.counterexample, e.draws.length < 2 ^ 32) (hw₂ : w₂.Retrying)
    (hk : w₂.runner.key = w.runner.key)
    (hc : w₂.storage.contents.corpus w.runner.key = w'.storage.contents.corpus w.runner.key)
    (hmax : w₂.runner.settings.maxDraws = w.runner.settings.maxDraws)
    (hatt : w₂.runner.settings.filterAttempts = w.runner.settings.filterAttempts)
    (hi : (runProperty host₂ property₂ w₂).2.runner.interrupted = false) :
    ∃ result₂ w₂' reason₂ e₂, runProperty host₂ property₂ w₂ = (.ok result₂, w₂') ∧
      result₂.outcome = .failed reason₂ ∧ 1 ≤ result₂.statistics.databaseReplays ∧
      result₂.counterexample = some e₂ ∧ e₂.seed = none := by
  rw [runProperty_of_store hm.store (valid_of_runProperty h) hr] at h
  obtain ⟨e, he, hfails, hmem⟩ := search_recorded (w := w.begun host) hp hd ⟨hm.store, hm.main⟩ h ho
  have hw' : Onward (fun _ => True) (w.begun host) w' := (runs_search (E := fun _ => True)
    onward_frame (fun _ => trivial) (fun _ => trivial) host property).rel h
  have hreplay : ∀ s, body.replay w₂.runner.settings s = body.replay w.runner.settings s := by
    intro s
    rw [Body.replay, Body.replay, hmax, hatt]
  have hcorpus : w₂.corpus = w'.corpus := by
    rw [World.corpus, World.corpus, hk, hw'.key]
    exact hc
  have hentry : (.failing, e.draws) ∈ w₂.entries := by
    refine World.mem_entries.2 (Memory.mem_entries.2 ⟨?_, hl e he, ?_⟩)
    · exact FailsOn.wellFormed hfails
    · change _ ∈ w₂.corpus .failing
      rwa [hcorpus]
  obtain ⟨tried, later, kind, s, initial, w₁, result₂, w₂', c, hfound, hcon, hrun⟩ :=
    rerun_concludes hp₂ hw₂ (by rw [Body.NeverInvalid, hmax, hatt]; exact hn) hentry
      (by rw [Body.stillFails, hreplay]; exact hfails.replay.1) hi
  obtain ⟨cases, -, -, hcount⟩ := hcon.onward.executed
  obtain ⟨reason₂, hreason⟩ := Outcome.exists_of_isFailure hcon.reports.failing
  refine ⟨result₂, w₂', reason₂, _, hrun, hcon.reports.outcome.trans hreason, ?_,
    hcon.counterexample, rfl⟩
  have := hfound.replays
  rw [hcon.statistics, hcount]
  omega

theorem failure_found_again_refusingTrue :
    let property : Property := fun _ => .refusingTrue
    ∃ result w' result₂ w₂' reason₂,
      runProperty .bare property (.stocked [.generate] 7 .empty) = (.ok result, w') ∧
      runProperty .bare property (.stocked [.reuse] 8 w'.storage.contents) = (.ok result₂, w₂') ∧
      result₂.outcome = .failed reason₂ ∧ 1 ≤ result₂.statistics.databaseReplays := by
  intro property
  have hp : property.Plays .refusingTrue := Body.plays_refusingTrue
  obtain ⟨hrun, hagain⟩ : ((runProperty .bare property
        (.stocked [.generate] 7 .empty)).1.toOption.map
          fun r => (r.outcome, r.counterexample.map fun e => e.draws.length)) =
        some (.failed (.body "no"), some 1) ∧
      (runProperty .bare property (.stocked [.reuse] 8 (runProperty .bare property
        (.stocked [.generate] 7 .empty)).2.storage.contents)).2.runner.interrupted = false := by
    decide +kernel
  rcases h : runProperty .bare property (.stocked [.generate] 7 .empty) with ⟨_ | result, w'⟩ <;>
    rw [h] at hrun hagain
  · cases hrun
  · obtain ⟨ho, hl⟩ := Prod.mk.inj (Option.some.inj hrun)
    have hlen : ∀ e ∈ result.counterexample, e.draws.length < 2 ^ 32 := by
      intro e he
      rw [Option.mem_def.1 he] at hl
      have hl : e.draws.length = 1 := Option.some.inj hl
      omega
    have hw₂ : (World.stocked [.reuse] 8 w'.storage.contents).Retrying :=
      (World.fresh_stocked (by decide)).toRetrying
    have hk : (World.stocked [.reuse] 8 w'.storage.contents).runner.key =
      (World.stocked [.generate] 7 .empty).runner.key := rfl
    obtain ⟨result₂, w₂', reason₂, e₂, h₂, ho₂, hn, -, -⟩ := failure_found_again hp hp
      (Body.neverInvalid_refusingTrue _) ⟨rfl, rfl⟩ rfl rfl h ho hlen hw₂ hk rfl rfl rfl hagain
    exact ⟨result, w', result₂, w₂', reason₂, rfl, h₂, ho₂, hn⟩

/-- What an entry is found to be depends on no entry behind it. -/
theorem World.FoundAgain.find? {tried later : List (EntryKind × Draws)} {kind : EntryKind}
    {s : Draws} {initial : Case} {w₁ : World Memory}
    (h : FoundAgain body w tried later kind s initial w₁) :
    w.entries.find? (fun e => body.stillFails w.runner.settings e.2) = some (kind, s) := by
  have hnone : tried.find? (fun e => body.stillFails w.runner.settings e.2) = none := by
    rw [List.find?_eq_none]
    intro e he
    rw [h.passed e he]
    decide
  rw [h.entries, List.find?_append, hnone, List.find?_cons_of_pos (by exact h.fails)]
  rfl

/-- What is found of the failing entries is found before the covering ones are tried. -/
theorem find?_entries {p : Draws → Bool} {s : Draws}
    (h : (w.storage.contents.entries w.runner.key .failing).find? p = some s) :
    w.entries.find? (fun e => p e.2) = some (.failing, s) := by
  rw [World.entries, List.find?_append, List.find?_map]
  change (((w.storage.contents.entries w.runner.key .failing).find? p).map _).or _ = _
  rw [h]
  rfl

/-- A run that comes upon a stored failure files the counterexample. The entry that failed first is
gone after that, unless it is the counterexample, or has not been what its replay recorded. -/
theorem stored_failure_replaced (hp : property.Plays body) (hw : w.Retrying)
    (hn : body.NeverInvalid w.runner.settings) {stored : Draws}
    (hs : (w.storage.contents.entries w.runner.key .failing).find?
      (body.stillFails w.runner.settings) = some stored)
    (hi : (runProperty host property w).2.runner.interrupted = false) :
    ∃ result w' reason e, runProperty host property w = (.ok result, w') ∧
      result.outcome = .failed reason ∧ result.counterexample = some e ∧
      Encoding.serialize e.draws ∈ w'.corpus .failing ∧
      (Encoding.serialize stored ∈ w'.corpus .failing ↔
        stored = e.draws ∨ (body.replay w.runner.settings stored).draws ≠ stored) := by
  have hfind := find?_entries hs
  obtain ⟨tried, later, kind, s, initial, w₁, result, w', c, hfound, hcon, hrun⟩ :=
    rerun_concludes hp hw hn (List.mem_of_find?_eq_some hfind) (List.find?_some hs) hi
  obtain ⟨⟩ := hfind.symm.trans hfound.find?
  obtain ⟨hwf, hlen, hcorpus⟩ := Memory.mem_entries.1 (List.mem_of_find?_eq_some hs)
  obtain ⟨cases, hsince⟩ := hcon.reports.since
  have hcwf : c.draws.WellFormed := (hsince.made c List.mem_cons_self).wellFormed
  have hdraws : initial.draws = (body.replay w.runner.settings stored).draws :=
    (congrArg Case.draws hfound.replay :)
  have hmem : Encoding.serialize stored ∈ w₁.corpus .failing := by
    rw [hfound.corpus]
    refine ⟨⟨hcorpus, Option.isSome_iff_exists.2
      ⟨stored, Encoding.decode?_eq_some_iff.2 ⟨hwf, hlen, rfl⟩⟩⟩, ?_⟩
    rintro ⟨s, hmem, heq⟩
    have hmem' : (.failing, s) ∈ w.entries := hfound.entries ▸ List.mem_append_left _ hmem
    obtain rfl := Encoding.serialize_injective hwf
      (Memory.mem_entries.1 (World.mem_entries.1 hmem')).1 heq
    cases (hfound.passed _ hmem).symm.trans hfound.fails
  obtain ⟨reason, hreason⟩ := Outcome.exists_of_isFailure hcon.reports.failing
  refine ⟨result, w', reason, _, hrun, hcon.reports.outcome.trans hreason, hcon.counterexample, ?_,
    ?_⟩
  · rw [hcon.failing]
    exact .inr rfl
  · have hsame : ∀ {t : Draws}, t.WellFormed →
        (Encoding.serialize stored = Encoding.serialize t ↔ stored = t) := fun ht =>
      ⟨Encoding.serialize_injective hwf ht, congrArg _⟩
    rw [hcon.failing, Set.mem_union, Set.mem_sdiff, Set.mem_singleton_iff, Set.mem_singleton_iff,
      hdraws, hsame hcwf, hsame (body.replay_wellFormed _ _), and_iff_right hmem, or_comm,
      ne_comm]
    rfl

/-- The second of two that keep the entry: it holds a wider draw than the body makes of it. -/
theorem stored_failure_replaced_refusingTrue :
    let property : Property := fun _ => .refusingTrue
    ∃ result w' reason e,
      runProperty .bare property (.stocked [.reuse] 7 (.holding [⟨8, 5⟩])) = (.ok result, w') ∧
      result.outcome = .failed reason ∧ result.counterexample = some e ∧
      Encoding.serialize e.draws ∈ w'.corpus .failing ∧
      Encoding.serialize [⟨8, 5⟩] ∈ w'.corpus .failing := by
  intro property
  have hfirst : ((World.stocked [.reuse] 7 (.holding [⟨8, 5⟩])).storage.contents.entries
      (.ofFunction "t" []) .failing).find? (Body.refusingTrue.stillFails
        (World.stocked [.reuse] 7 (.holding [⟨8, 5⟩])).runner.settings) = some [⟨8, 5⟩] := by
    decide +kernel
  have hint : (runProperty .bare property (.stocked [.reuse] 7
      (.holding [⟨8, 5⟩]))).2.runner.interrupted = false := by
    decide +kernel
  obtain ⟨result, w', reason, e, h, ho, he, hmem, hiff⟩ :=
    stored_failure_replaced Body.plays_refusingTrue
      (World.fresh_stocked (by decide)).toRetrying (Body.neverInvalid_refusingTrue _) hfirst hint
  exact ⟨result, w', reason, e, h, ho, he, hmem, hiff.2 (.inr (by decide +kernel))⟩

/-- So the entry may stay though it is not the counterexample. -/
theorem stored_failure_kept :
    ¬ ∀ (host : Host Memory) (property : Property) (body : Body (Except CaseError Unit))
      (w : World Memory) (stored : Draws), property.Plays body → w.Retrying →
      body.NeverInvalid w.runner.settings →
      (w.storage.contents.entries w.runner.key .failing).find?
        (body.stillFails w.runner.settings) = some stored →
      (runProperty host property w).2.runner.interrupted = false →
      ∃ result w' reason e, runProperty host property w = (.ok result, w') ∧
        result.outcome = .failed reason ∧ result.counterexample = some e ∧
        Encoding.serialize e.draws ∈ w'.corpus .failing ∧
        (Encoding.serialize stored ∈ w'.corpus .failing → stored = e.draws) := by
  intro hclaim
  obtain ⟨hint, hrun⟩ : (runProperty .bare (fun _ => .refusingTrue)
        (.stocked [.reuse] 7 (.holding [⟨8, 5⟩]))).2.runner.interrupted = false ∧
      ((runProperty .bare (fun _ => .refusingTrue)
        (.stocked [.reuse] 7 (.holding [⟨8, 5⟩]))).1.toOption.bind fun r =>
          r.counterexample.map Counterexample.draws) = some [⟨1, 1⟩] := by
    decide +kernel
  obtain ⟨result, w', reason, e, h, -, he, -, hkept⟩ :=
    hclaim .bare (fun _ => .refusingTrue) .refusingTrue (.stocked [.reuse] 7 (.holding [⟨8, 5⟩]))
      [⟨8, 5⟩] Body.plays_refusingTrue (World.fresh_stocked (by decide)).toRetrying
      (Body.neverInvalid_refusingTrue _) (by decide +kernel) hint
  have hmem : Encoding.serialize [⟨8, 5⟩] ∈ (runProperty .bare (fun _ => .refusingTrue)
      (.stocked [.reuse] 7 (.holding [⟨8, 5⟩]))).2.corpus .failing := by
    rw [World.corpus, Memory.mem_corpus]
    decide +kernel
  rw [h] at hrun hmem
  have hdraws : e.draws = [⟨1, 1⟩] := by
    rw [Except.toOption, Option.bind_some, he] at hrun
    exact Option.some.inj hrun
  cases (hkept hmem).trans hdraws

/-- A new runner on which nothing that is stored fails, and which fails on a new case, leaves its
counterexample as the only failing entry. All that was stored is covering then, and so are the
covering cases of the run. The first failing case is gone, unless it is the counterexample. -/
theorem new_failure_filed (hp : property.Plays body) (hw : w.Fresh) {result : RunResult}
    {reason : FailureReason} {initial : Case}
    (h : runProperty host property w = (.ok result, w')) (ho : result.outcome = .failed reason)
    (hi : w'.executed.reverse.find? (·.outcome.isFailure) = some initial)
    (hg : initial.source = .generated) :
    ∃ e, result.counterexample = some e ∧
      w'.corpus .failing = {Encoding.serialize e.draws} ∧
      w'.corpus .covering = w.decodable .covering ∪ w.decodable .failing ∪
        savedBytes (coveringCases w.runner.settings.maxCoveringExamples w'.executed.reverse) ∧
      (Encoding.serialize initial.draws ∈ w'.corpus .failing ↔ initial.draws = e.draws) := by
  rw [runProperty_of_store hw.memory.store hw.valid hw.reproduce] at h
  have hw₀ : (w.begun host).Fresh :=
    ⟨⟨⟨hw.memory.store, hw.memory.main⟩, hw.deadline, hw.valid, hw.reproduce, hw.reuse⟩,
      hw.features, hw.saved⟩
  obtain ⟨seed, w₁, c, hcon, hfail, hcov⟩ := search_generated hp hw₀ rfl h ho hi hg
  have hfailing : w'.corpus .failing = {Encoding.serialize c.draws} := by
    rw [hcon.failing, hfail, Set.sdiff_self, Set.empty_union]
  obtain ⟨later, hlater, hsources, -⟩ := hcon.onward.executed
  have hcovering : coveringCases w.runner.settings.maxCoveringExamples w'.executed.reverse =
      coveringCases w.runner.settings.maxCoveringExamples w₁.executed.reverse := by
    rw [hlater, List.reverse_append]
    refine coveringCases_append _ _ ?_
    intro c hc
    refine Case.mayCover_of_source ?_
    rcases hsources c (List.mem_reverse.1 hc) with hs | hs <;> rw [hs] <;> decide
  obtain ⟨cases, hs⟩ := hcon.reports.since
  refine ⟨_, hcon.counterexample, hfailing, ?_, ?_⟩
  · rw [hcon.covering, hcov, hcovering]
    rfl
  · rw [hfailing, Set.mem_singleton_iff]
    exact ⟨Encoding.serialize_injective (FailsOn.wellFormed hcon.failed)
      (hs.made c List.mem_cons_self).wellFormed, congrArg _⟩

theorem new_failure_filed_refusingTrue :
    let w : World Memory := .stocked [.reuse, .generate] 7 (.holding [⟨1, 0⟩])
    ∃ result w' e, runProperty .bare (fun _ => .refusingTrue) w = (.ok result, w') ∧
      result.outcome = .failed (.body "no") ∧ result.counterexample = some e ∧
      w'.corpus .failing = {Encoding.serialize e.draws} ∧
      Encoding.serialize [⟨1, 0⟩] ∈ w'.corpus .covering := by
  intro w
  obtain ⟨hrun, hfirst⟩ : (runProperty .bare (fun _ => .refusingTrue) w).1.toOption.map
        RunResult.outcome = some (.failed (.body "no")) ∧
      ((runProperty .bare (fun _ => .refusingTrue) w).2.executed.reverse.find?
        (·.outcome.isFailure)).map Case.source = some .generated := by
    decide +kernel
  have hold : Encoding.serialize [⟨1, 0⟩] ∈ w.decodable .failing := by
    rw [World.decodable, Set.mem_ofPred_eq, World.corpus, Memory.mem_corpus]
    decide +kernel
  rcases h : runProperty .bare (fun _ => .refusingTrue) w with ⟨_ | result, w'⟩ <;>
    rw [h] at hrun hfirst
  · cases hrun
  · have ho : result.outcome = .failed (.body "no") := Option.some.inj hrun
    obtain ⟨initial, hi, hg⟩ := Option.map_eq_some_iff.1 hfirst
    obtain ⟨e, he, hfail, hcov, -⟩ := new_failure_filed Body.plays_refusingTrue
      (World.fresh_stocked (by decide)) h ho hi hg
    refine ⟨result, w', e, rfl, ho, he, hfail, ?_⟩
    rw [hcov]
    exact .inl (.inr hold)

end Falsify
