import Falsify.Proofs.Run.Invariants
import Falsify.Proofs.Store.Memory

/-!
# What a run does to a store in memory

A run of a test with a store in memory changes the two corpora of the test: it tries the
entries that decode, in their order, and the failing ones that no longer fail become covering
ones.

* `World.InMemory`, `World.corpus`: a run with a store in memory, and the corpora of its test;
* `Body.replay`: what an entry is found to be;
* `World.Reused`: how far the entries were tried, and what became of the corpora;
* `reuseFrom_memory`, `reuse_memory`: the phase does that.
-/

namespace Falsify

/-- The case that a body makes of a stored sequence, under the limits of some settings. -/
def Body.replay (body : Body (Except CaseError Unit)) (limits : Settings) (s : Draws) : Case :=
  body.result s replaySeed limits.maxDraws limits.filterAttempts

theorem Body.replay_wellFormed (body : Body (Except CaseError Unit)) (limits : Settings)
    (s : Draws) : (body.replay limits s).draws.WellFormed :=
  body.result_wellFormed _ _ _ _

/-- A stored sequence still fails. -/
def Body.stillFails (body : Body (Except CaseError Unit)) (limits : Settings) (s : Draws) : Bool :=
  (body.replay limits s).outcome.isFailure

/-- What of the entries tried is no failure any more, as bytes. -/
def demoted (entries : List (EntryKind × Draws)) : Set Bytes :=
  {b | ∃ s, (.failing, s) ∈ entries ∧ b = Encoding.serialize s}

theorem demoted_nil : demoted [] = ∅ := by
  ext b
  simp [demoted]

theorem demoted_append (l l' : List (EntryKind × Draws)) :
    demoted (l ++ l') = demoted l ∪ demoted l' := by
  ext b
  simp [demoted, or_and_right, exists_or]

theorem demoted_failing (s : Draws) : demoted [(.failing, s)] = {Encoding.serialize s} := by
  ext b
  simp [demoted]

theorem demoted_covering (s : Draws) : demoted [(.covering, s)] = ∅ := by
  ext b
  simp [demoted]

namespace World

variable {w w' : World Memory} {body : Body (Except CaseError Unit)}

/-- The run has a store in memory, and files its examples under a key of a test. -/
structure InMemory (w : World Memory) : Prop where
  store : w.runner.store = some memoryBackend
  main : w.runner.key.subKey = none

variable {S : CaseSource → Prop}

theorem InMemory.onward (h : w.InMemory) (h' : Onward S w w') : w'.InMemory :=
  ⟨h'.store.trans h.store, by rw [h'.key]; exact h.main⟩

/-- The values in the corpora of the test. -/
def corpus (w : World Memory) : EntryKind → Set Bytes :=
  w.storage.contents.corpus w.runner.key

theorem corpus_congr (hk : w'.runner.key = w.runner.key)
    (hc : w'.storage.contents = w.storage.contents) : w'.corpus = w.corpus := by
  rw [corpus, corpus, hk, hc]

theorem Onward.corpus_eq (h : Onward S w w') (h' : w.Unstored w') : w'.corpus = w.corpus :=
  corpus_congr h.key h'

/-- The values in the corpora of the test that decode. -/
def decodable (w : World Memory) (kind : EntryKind) : Set Bytes :=
  {b | b ∈ w.corpus kind ∧ (Encoding.decode? b).isSome}

/-- What is stored of the test, in the order in which it is tried. -/
def entries (w : World Memory) : List (EntryKind × Draws) :=
  (w.storage.contents.entries w.runner.key .failing).map (EntryKind.failing, ·) ++
    (w.storage.contents.entries w.runner.key .covering).map (EntryKind.covering, ·)

theorem mem_entries {kind : EntryKind} {s : Draws} :
    (kind, s) ∈ w.entries ↔ s ∈ w.storage.contents.entries w.runner.key kind := by
  rw [entries, List.mem_append, List.mem_map, List.mem_map]
  cases kind <;> simp

theorem entries_congr (hk : w'.runner.key = w.runner.key)
    (hc : w'.storage.contents = w.storage.contents) : w'.entries = w.entries := by
  rw [entries, entries, hk, hc]

/-- If no entry fails any more, all that was filed as failing becomes covering. -/
theorem demoted_entries (w : World Memory) : demoted w.entries = w.decodable .failing := by
  ext b
  constructor
  · rintro ⟨s, hs, rfl⟩
    obtain ⟨hw, hl, hc⟩ := Memory.mem_entries.1 (mem_entries.1 hs)
    exact ⟨hc, Option.isSome_iff_exists.2 ⟨s, Encoding.decode?_eq_some_iff.2 ⟨hw, hl, rfl⟩⟩⟩
  · rintro ⟨hc, hd⟩
    obtain ⟨s, hs⟩ := Option.isSome_iff_exists.1 hd
    obtain ⟨hw, hl, rfl⟩ := Encoding.decode?_eq_some_iff.1 hs
    exact ⟨s, mem_entries.2 (Memory.mem_entries.2 ⟨hw, hl, hc⟩), rfl⟩

theorem decodable_congr (hc : w'.corpus = w.corpus) : w'.decodable = w.decodable := by
  unfold decodable
  rw [hc]

/-- How trying entries has come to its end. -/
def ReuseEnd (body : Body (Except CaseError Unit)) (limits : Settings)
    (rest : List (EntryKind × Draws)) (w' : World Memory) : Except RunError (Option Case) → Prop
  | .ok none => rest = [] ∨ w'.runner.interrupted = true
  | .ok (some c) => ∃ kind s later, rest = (kind, s) :: later ∧
      c.timeless = body.replay limits s ∧ c.source = .database ∧ c.outcome.isFailure = true
  | .error _ => ∃ kind s later message, rest = (kind, s) :: later ∧
      (body.replay limits s).outcome = .gaveUp (.invalidArgument message)

/-- Some entries were tried, and did not fail. Those that were filed as failing have become
covering ones. What was to be tried after them has ended the phase, or there was nothing. -/
structure Reused (body : Body (Except CaseError Unit)) (limits : Settings)
    (before : EntryKind → Set Bytes) (tried rest : List (EntryKind × Draws))
    (r : Except RunError (Option Case)) (w' : World Memory) : Prop where
  passed : ∀ e ∈ tried, body.stillFails limits e.2 = false
  failing : w'.corpus .failing = before .failing \ demoted tried
  covering : w'.corpus .covering = before .covering ∪ demoted tried
  ending : ReuseEnd body limits rest w' r

variable {limits : Settings} {before : EntryKind → Set Bytes}
  {tried rest : List (EntryKind × Draws)} {r : Except RunError (Option Case)}

/-- The phase has ended before an entry was tried, or with the first. -/
theorem Reused.of_end (hc : w'.corpus = before) (he : ReuseEnd body limits rest w' r) :
    Reused body limits before [] rest r w' where
  passed := by simp
  failing := by rw [hc, demoted_nil, Set.sdiff_empty]
  covering := by rw [hc, demoted_nil, Set.union_empty]
  ending := he

/-- An entry was tried before the others and did not fail. -/
theorem Reused.cons {kind : EntryKind} {s : Draws} {between : EntryKind → Set Bytes}
    (hp : body.stillFails limits s = false)
    (hf : between .failing = before .failing \ demoted [(kind, s)])
    (hc : between .covering = before .covering ∪ demoted [(kind, s)])
    (h : Reused body limits between tried rest r w') :
    Reused body limits before ((kind, s) :: tried) rest r w' where
  passed := List.forall_mem_cons.2 ⟨hp, h.passed⟩
  failing := by
    rw [h.failing, hf, Set.sdiff_sdiff, ← demoted_append, List.singleton_append]
  covering := by rw [h.covering, hc, Set.union_assoc, ← demoted_append, List.singleton_append]
  ending := h.ending

end World

namespace RunM

open World

variable {property : Property} {body : Body (Except CaseError Unit)} {w w' : World Memory}

/-! ## Operations on a store in memory -/

/-- What an operation on a store in memory does is done, if it gives a result. -/
theorem withStore_memory (hs : w.runner.store = some memoryBackend) (activity : String)
    {op : Backend Memory → Key → StoreM Memory Unit} {contents : Memory}
    (h : op memoryBackend w.runner.key w.storage =
      (.ok (), { w.storage with contents := contents })) :
    withStore activity op w =
      (.ok (), { w with storage := { w.storage with contents := contents } }) := by
  rw [withStore, runner_bind, hs]
  dsimp only
  rw [stored_bind, h]
  rfl

theorem save_memory (hm : w.InMemory) (activity : String) (s : Draws) (kind : EntryKind) :
    ∃ w', withStore activity (fun b key => Examples.save b key s kind) w = (.ok (), w') ∧
      w'.runner = w.runner ∧
      w'.corpus = Function.update w.corpus kind (w.corpus kind ∪ {Encoding.serialize s}) :=
  ⟨_, withStore_memory hm.store _ (Examples.save_memory _ _ _ _), rfl,
    Memory.corpus_insert hm.main _ _ _⟩

theorem demote_memory (hm : w.InMemory) (s : Draws) :
    ∃ w', withStore "demoting a fixed example" (fun b key => Examples.demote b key s) w =
      (.ok (), w') ∧ w'.corpus .failing = w.corpus .failing \ {Encoding.serialize s} ∧
      w'.corpus .covering = w.corpus .covering ∪ {Encoding.serialize s} := by
  refine ⟨_, withStore_memory hm.store _ (Examples.demote_memory _ _ _), ?_, ?_⟩
  · simp [corpus, Memory.corpus_insert hm.main, Memory.corpus_erase hm.main]
  · simp [corpus, Memory.corpus_insert hm.main, Memory.corpus_erase hm.main]

/-- A failure takes the place of another one. -/
theorem replace_memory (hm : w.InMemory) (old new : Draws) :
    ∃ w', withStore "saving the shrunk example"
      (fun b key => Examples.replace b key old new .failing) w = (.ok (), w') ∧
      w'.corpus .failing =
        (w.corpus .failing \ {Encoding.serialize old}) ∪ {Encoding.serialize new} ∧
      w'.corpus .covering = w.corpus .covering := by
  refine ⟨_, withStore_memory hm.store _ (Examples.replace_memory _ _ _ _ _), ?_, ?_⟩
  · unfold corpus
    dsimp only
    split
    · rename_i h
      subst h
      simp [Memory.corpus_insert hm.main, Set.insert_sdiff_singleton]
    · simp [Memory.corpus_insert hm.main, Memory.corpus_erase hm.main]
  · unfold corpus
    dsimp only
    split <;> simp [Memory.corpus_insert hm.main, Memory.corpus_erase hm.main]

/-! ## Trying entries -/

theorem refuseInvalid_cases {σ : Type} (c : Case) (w : World σ) :
    refuseInvalid c w = (.ok (), w) ∨ ∃ message,
      c.outcome = .gaveUp (.invalidArgument message) ∧
        refuseInvalid c w = (.error (.invalidArgument message), w) := by
  unfold refuseInvalid
  rcases c.outcome with _ | _ | (_ | _ | message | _ | _ | _)
  case gaveUp.invalidArgument => exact .inr ⟨message, rfl, rfl⟩
  all_goals exact .inl rfl

/-- Entries are tried in their order, up to one that fails: by induction on the entries. -/
theorem reuseFrom_memory (hp : property.Plays body) (entries : List (EntryKind × Draws))
    (hd : w.runner.deadline.deadline = none) (hm : w.InMemory)
    {r : Except RunError (Option Case)} (h : reuseFrom property entries w = (r, w')) :
    ∃ tried rest, entries = tried ++ rest ∧
      Reused body w.runner.settings w.corpus tried rest r w' := by
  induction entries generalizing w with
  | nil =>
    cases h
    exact ⟨[], [], rfl, .of_end rfl (.inl rfl)⟩
  | cons entry later ih =>
    obtain ⟨kind, s⟩ := entry
    rw [reuseFrom, runner_bind] at h
    split at h
    · rename_i hi
      cases h
      exact ⟨[], _, rfl, .of_end rfl (.inr hi)⟩
    · obtain ⟨c, w₁, hx, he⟩ := execute_ok hp s .database replaySeed hd
      rw [bind_of_ok hx] at h
      have ho : Onward (· = .database) w w₁ :=
        (runs_execute (E := Never) (S := (· = .database)) onward_frame.toPlayFrame property s rfl
          replaySeed).rel hx
      have hc : w₁.corpus = w.corpus := ho.corpus_eq he.contents
      have hout : c.outcome = (body.replay w.runner.settings s).outcome :=
        (congrArg Case.outcome he.result :)
      split at h
      · rename_i hf
        cases h
        exact ⟨[], _, rfl, .of_end hc ⟨kind, s, later, rfl, he.result, he.source, hf⟩⟩
      · rename_i hf
        have hf : body.stillFails w.runner.settings s = false := by
          rw [Body.stillFails, ← hout]
          simpa using hf
        have hd₁ : w₁.runner.deadline.deadline = none := ho.deadline.trans hd
        have hm₁ := hm.onward ho
        rcases refuseInvalid_cases c w₁ with hr | ⟨message, hmsg, hr⟩
        · rw [bind_of_ok hr] at h
          cases kind
          · obtain ⟨w₂, h₂, hfail, hcov⟩ := demote_memory hm₁ s
            have ho₂ : Onward (· = .database) w₁ w₂ :=
              (runs_withStore onward_frame.toStoreFrame (E := Never) _ _).rel h₂
            rw [if_pos rfl, bind_of_ok h₂] at h
            obtain ⟨tried, rest, rfl, hrest⟩ := ih (ho₂.deadline.trans hd₁) (hm₁.onward ho₂) h
            rw [ho₂.settings, ho.settings] at hrest
            refine ⟨(.failing, s) :: tried, rest, rfl, hrest.cons hf ?_ ?_⟩
            · rw [hfail, hc, demoted_failing]
            · rw [hcov, hc, demoted_failing]
          · rw [if_neg (by decide)] at h
            obtain ⟨tried, rest, rfl, hrest⟩ := ih hd₁ hm₁ h
            rw [ho.settings] at hrest
            refine ⟨(.covering, s) :: tried, rest, rfl, hrest.cons hf ?_ ?_⟩
            · rw [hc, demoted_covering, Set.sdiff_empty]
            · rw [hc, demoted_covering, Set.union_empty]
        · rw [bind_of_error hr] at h
          cases h
          exact ⟨[], _, rfl, .of_end hc ⟨kind, s, later, message, rfl, hout ▸ hmsg⟩⟩

/-- All that is stored of the test is tried in its order, failing entries first. What does not
decode is gone. -/
theorem reuse_memory (hp : property.Plays body) (hd : w.runner.deadline.deadline = none)
    (hm : w.InMemory) {r : Except RunError (Option Case)} (h : reuse property w = (r, w')) :
    ∃ tried rest, w.entries = tried ++ rest ∧
      Reused body w.runner.settings w.decodable tried rest r w' := by
  obtain ⟨st, hl, hv, -⟩ := Examples.load_memory hm.main w.storage
  have hc : ∀ kind, st.contents.corpus w.runner.key kind = w.decodable kind := fun kind => by
    ext b
    rw [Memory.mem_corpus, hv, List.mem_filter]
    rfl
  rw [reuse_eq, runner_bind, hm.store] at h
  dsimp only at h
  rw [stored_bind, hl] at h
  dsimp only at h
  obtain ⟨⟨⟩, w₁, h₁, t₁⟩ := ends_tellLoaded
    ⟨w.storage.contents.entries w.runner.key .failing,
      w.storage.contents.entries w.runner.key .covering, _⟩ { w with storage := st }
  obtain ⟨⟨⟩, w₂, h₂, i₂⟩ := idle_setMode .relaxed w₁
  rw [bind_of_ok h₁, bind_of_ok h₂] at h
  have hi : World.Idle { w with storage := st } w₂ := idle_frame.trans t₁.idle i₂
  have ho : Onward (· = .database) w w₂ :=
    onward_frame.trans (onward_frame.stored ⟨st, rfl⟩) (onward_frame.idle hi)
  obtain ⟨tried, rest, he, hr⟩ :=
    reuseFrom_memory hp _ (ho.deadline.trans hd) (hm.onward ho) h
  refine ⟨tried, rest, he, ?_⟩
  have hcorpus : w₂.corpus = w.decodable := by
    rw [corpus, ho.key, hi.unstored]
    exact funext hc
  rwa [ho.settings, hcorpus] at hr

/-- If none of the entries fails, none is filed as failing any more. -/
theorem reuse_none (hp : property.Plays body) (hd : w.runner.deadline.deadline = none)
    (hm : w.InMemory) (hi : w'.runner.interrupted = false)
    (h : reuse property w = (.ok none, w')) :
    w'.corpus .failing = ∅ ∧
      w'.corpus .covering = w.decodable .covering ∪ w.decodable .failing := by
  obtain ⟨tried, rest, he, hr⟩ := reuse_memory hp hd hm h
  rcases hr.ending with rfl | hint
  · rw [List.append_nil] at he
    rw [hr.failing, hr.covering, ← he, demoted_entries]
    exact ⟨Set.sdiff_self, rfl⟩
  · cases hi.symm.trans hint

end RunM

end Falsify
