import Falsify.Proofs.Run.Corpora
import Falsify.Proofs.Run.Crash
import Falsify.Proofs.Run.Leftovers
import Falsify.Proofs.Store.Loading

/-!
# Which covering cases a run saves

A journal beside the store of a run tells what the run has saved as covering. First there are the
failing entries of the store that no longer fail and are moved, and then, one after another, the
covering cases among those that the run has made, up to the limit. They show whatever feature a
passing new case shows, as long as the limit is not reached.

* `features_coveringCases`: covering cases lose no feature, as long as there is room;
* `World.Chosen`, `World.Moving`, `World.UpToDate`: what has been saved as covering, after some
  cases, before the first new one, and after all so far;
* `demote_chosen`, `keep_chosen`: what is done with an entry and with a new case;
* `maintains_reuseFrom`, `maintains_generateFrom`, `maintains_conclude`: the phases of a run;
* `covering_cases_saved`: whole runs.
-/

namespace Falsify

/-- Every feature that some cases show is a given one or shown by a novel case. -/
theorem features_novel (seen : List (String × String)) {cases : List Case} {c : Case}
    (hc : c ∈ cases) {f : String × String} (hf : f ∈ c.features) :
    f ∈ seen ∨ ∃ c' ∈ novel seen cases, f ∈ c'.features := by
  induction cases generalizing seen with
  | nil => cases hc
  | cons c₀ rest ih =>
    have hfirst : f ∈ c₀.features →
        f ∈ seen ∨ ∃ c' ∈ novel seen (c₀ :: rest), f ∈ c'.features := by
      intro hf
      by_cases hseen : f ∈ seen
      · exact .inl hseen
      · rw [novel, if_pos ⟨f, hf, hseen⟩]
        exact .inr ⟨c₀, List.mem_cons_self, hf⟩
    rcases List.mem_cons.1 hc with rfl | hc
    · exact hfirst hf
    · rcases ih (c₀.features ++ seen) hc with hseen | ⟨c', hc', hf'⟩
      · exact (List.mem_append.1 hseen).elim hfirst .inl
      · refine .inr ⟨c', ?_, hf'⟩
        rw [novel]
        split
        · exact List.mem_cons_of_mem _ hc'
        · exact hc'

/-- With room left, the covering cases show all that the cases show that may be saved. -/
theorem features_coveringCases {limit : Nat} {cases : List Case}
    (hroom : (coveringCases limit cases).length < limit) {c : Case} (hc : c ∈ cases)
    (hm : c.mayCover = true) {f : String × String} (hf : f ∈ c.features) :
    ∃ c' ∈ coveringCases limit cases, f ∈ c'.features := by
  have hall : coveringCases limit cases = novel [] (cases.filter Case.mayCover) := by
    rw [coveringCases, List.length_take] at hroom
    exact List.take_of_length_le (by omega)
  rcases features_novel [] (List.mem_filter.2 ⟨hc, hm⟩) hf with hnil | hshown
  · cases hnil
  · rwa [hall]

namespace World

variable {σ : Type} {b : Backend σ} {key : Key} {limit : Nat} {moved : List Bytes}
  {cases later : List Case} {w w' : World (Journal σ)} {c : Case}

/-! ## What has been saved as covering -/

/-- What has been saved as covering in a run: some failing entries that were moved, at most one for
each entry that was tried, and then the covering cases among some. -/
structure Chosen (b : Backend σ) (key : Key) (limit : Nat) (moved : List Bytes) (cases : List Case)
    (w : World (Journal σ)) : Prop where
  store : w.runner.store = some b.journaled
  underKey : w.runner.key = key
  withLimit : w.runner.settings.maxCoveringExamples = limit
  knows : w.runner.Knows limit cases
  saved : savedUnder (EntryKind.covering.keyOf key) w.storage.events =
    moved ++ (coveringCases limit cases).map fun c => Encoding.serialize c.draws
  deleted : ∀ value ∈ moved,
    .deleted (EntryKind.failing.keyOf key) value (.ok ()) ∈ w.storage.events
  tried : moved.length ≤ w.executed.countP fun c => c.source = .database

theorem Chosen.idle (h : w.Chosen b key limit moved cases) (h' : w.Idle w') :
    w'.Chosen b key limit moved cases := by
  obtain ⟨_, _, _, _, _, _, rfl⟩ := h'
  exact ⟨h.store, h.underKey, h.withLimit, h.knows.congr rfl rfl, h.saved, h.deleted, h.tried⟩

theorem Chosen.broke (h : w.Chosen b key limit moved cases) (h' : w.Broke w') :
    w'.Chosen b key limit moved cases := by
  obtain ⟨_, _, _, -, rfl⟩ := h'
  exact ⟨h.store, h.underKey, h.withLimit, h.knows.congr rfl rfl, h.saved, h.deleted, h.tried⟩

theorem Chosen.ran (h : w.Chosen b key limit moved cases) (h' : w.Ran c w') :
    w'.Chosen b key limit moved cases := by
  obtain ⟨_, _, _, _, -, rfl⟩ := h'
  refine ⟨h.store, h.underKey, h.withLimit, h.knows.congr rfl rfl, h.saved, h.deleted, ?_⟩
  exact h.tried.trans (List.Sublist.countP_le (List.sublist_cons_self _ _))

/-- Cases that may not be saved change nothing. -/
theorem Chosen.append (h : w.Chosen b key limit moved cases)
    (hl : ∀ c ∈ later, c.mayCover = false) : w.Chosen b key limit moved (cases ++ later) where
  store := h.store
  underKey := h.underKey
  withLimit := h.withLimit
  knows := h.knows.append hl
  saved := by
    rw [coveringCases_append limit cases hl]
    exact h.saved
  deleted := h.deleted
  tried := h.tried

/-- Nothing is saved by calls that spare the covering cases. -/
theorem Chosen.spared (h : w.Chosen b key limit moved cases) {st : Storage (Journal σ)}
    {events : List StoreEvent} (he : st.events = w.storage.events ++ events)
    (hs : ∀ event ∈ events, event.Spares (EntryKind.covering.keyOf key)) :
    World.Chosen b key limit moved cases { w with storage := st } where
  store := h.store
  underKey := h.underKey
  withLimit := h.withLimit
  knows := h.knows
  saved := by
    rw [he, savedUnder_append, savedUnder_of_spares hs, List.append_nil]
    exact h.saved
  deleted value hv := he ▸ List.mem_append_left _ (h.deleted value hv)
  tried := h.tried

/-- Nothing has been saved as covering but entries that were moved. -/
def Moving (b : Backend σ) (key : Key) (limit : Nat) (w : World (Journal σ)) : Prop :=
  ∃ moved, w.Chosen b key limit moved []

theorem moving_frame : RunM.PlayFrame (fun _ => True) fun w w' : World (Journal σ) =>
    w.Moving b key limit → w'.Moving b key limit where
  refl _ := id
  trans h h' := h' ∘ h
  idle h := fun ⟨moved, hw⟩ => ⟨moved, hw.idle h⟩
  ran _ h := fun ⟨moved, hw⟩ => ⟨moved, hw.ran h⟩
  broke h := fun ⟨moved, hw⟩ => ⟨moved, hw.broke h⟩

/-- What has been saved as covering accounts for all cases so far. -/
def UpToDate (b : Backend σ) (key : Key) (limit : Nat) (w : World (Journal σ)) : Prop :=
  ∃ moved, w.Chosen b key limit moved w.executed.reverse

theorem UpToDate.ran (h : w.UpToDate b key limit) (h' : w.Ran c w') (hc : c.mayCover = false) :
    w'.UpToDate b key limit := by
  obtain ⟨moved, hw⟩ := h
  refine ⟨moved, ?_⟩
  rw [h'.executed, List.reverse_cons]
  exact (hw.ran h').append (by simpa using hc)

theorem upToDate_frame : RunM.PlayFrame (· ≠ .generated) fun w w' : World (Journal σ) =>
    w.UpToDate b key limit → w'.UpToDate b key limit where
  refl _ := id
  trans h h' := h' ∘ h
  idle h := fun ⟨moved, hw⟩ => ⟨moved, h.executed ▸ hw.idle h⟩
  ran hs h hw := hw.ran h (Case.mayCover_of_source hs)
  broke h := fun ⟨moved, hw⟩ => ⟨moved, h.executed ▸ hw.broke h⟩

end World

namespace RunM

open World

variable {σ α β : Type}

/-! ## What parts of a run maintain -/

/-- Something that holds before a part of a run holds after it, whatever comes of it. -/
def Maintains (P : World σ → Prop) (x : RunM σ α) : Prop :=
  ∀ w, P w → P (x w).2

section

variable {P : World σ → Prop} {x : RunM σ α} {f : α → RunM σ β}

theorem maintains_pure (a : α) : Maintains P (pure a : RunM σ α) := fun _ hw => hw

theorem Maintains.bind (hx : Maintains P x) (hf : ∀ a, Maintains P (f a)) :
    Maintains P (x >>= f) := by
  intro w hw
  have hx := hx w hw
  rcases h : x w with ⟨e | a, w₁⟩ <;> rw [h] at hx
  · rw [bind_of_error h]
    exact hx
  · rw [bind_of_ok h]
    exact hf a w₁ hx

theorem maintains_runner_bind {f : Runner σ → RunM σ β} (h : ∀ r, Maintains P (f r)) :
    Maintains P (runner >>= f) := fun w => h w.runner w

/-- A part of a run that respects a relation maintains what is handed on along it. -/
theorem Runs.maintains (hx : Runs (fun w w' => P w → P w') (fun _ => True) x) : Maintains P x :=
  fun w => (hx w).1

end

variable {b : Backend σ} {key : Key} {limit : Nat} {moved : List Bytes} {cases : List Case}
  {w w' : World (Journal σ)}

/-- Nothing is saved by an operation that spares the covering cases. -/
theorem maintains_withStore (activity : String)
    {op : Backend (Journal σ) → Key → StoreM (Journal σ) Unit}
    (hop : Journal.Enters (StoreEvent.Spares (EntryKind.covering.keyOf key))
      (op b.journaled key)) : Maintains (UpToDate b key limit) (withStore activity op) := by
  rintro w ⟨moved, hw⟩
  obtain ⟨w', h, t⟩ := withStore_told hw.store activity op
  obtain ⟨events, he, hs⟩ := hop w.storage
  rw [hw.underKey] at t
  rw [h]
  exact upToDate_frame.idle t.idle ⟨moved, hw.spared he hs⟩

/-! ## Failing cases -/

theorem enters_save_failing (hk : key.subKey = none) (s : Draws) :
    Journal.Enters (StoreEvent.Spares (EntryKind.covering.keyOf key))
      (Examples.save b.journaled key s .failing) := by
  refine Journal.Enters.enter (fun answer value hsave => ?_) _
  have hkey : EntryKind.failing.keyOf key = EntryKind.covering.keyOf key := by
    injection hsave
  cases (Memory.keyOf_inj hk).1 hkey

theorem enters_replace (hk : key.subKey = none) (old new : Draws) :
    Journal.Enters (StoreEvent.Spares (EntryKind.covering.keyOf key))
      (Examples.replace b.journaled key old new .failing) := by
  unfold Examples.replace
  split
  · exact enters_save_failing hk new
  · exact (Journal.Enters.enter (fun _ => nofun) _).bind fun _ => enters_save_failing hk new

theorem maintains_saveFailure (hk : key.subKey = none) (c : Case) :
    Maintains (UpToDate b key limit) (saveFailure c) :=
  (Ends.runs_told upToDate_frame (ends_tell _ _)).maintains.bind fun _ =>
    maintains_withStore _ (enters_save_failing hk c.draws)

theorem maintains_conclude (hk : key.subKey = none) (property : Property) (initial : Case)
    (fromDatabase : Bool) (seed : UInt64) :
    Maintains (UpToDate b key limit) (conclude property initial fromDatabase seed) := by
  rw [conclude_eq]
  refine (runs_simplify upToDate_frame (by decide) property initial).maintains.bind fun best =>
    Maintains.bind ?_ fun _ => (runs_report upToDate_frame _ _ _ _).maintains
  rw [finalReplay_eq]
  refine (Ends.runs upToDate_frame (idle_setMode _)).maintains.bind fun _ =>
    (runs_execute upToDate_frame property _ (by decide) _).maintains.bind fun c => ?_
  split
  · exact (maintains_withStore _ (enters_replace hk _ _)).bind fun _ => maintains_pure _
  · exact maintains_runner_bind fun r =>
      (runs_retry upToDate_frame (by decide) property initial best r.name).maintains.bind fun _ =>
        (runs_settle upToDate_frame initial r.name _).maintains

/-! ## Cases from the database -/

/-- A demotion deletes an entry, and then it may save that as covering. -/
theorem demote_journaled (b : Backend σ) (key : Key) (s : Draws) (st : Storage (Journal σ)) :
    ∃ events, (Examples.demote b.journaled key s st).2.events = st.events ++ events ∧
      (savedUnder (EntryKind.covering.keyOf key) events).length ≤ 1 ∧
      ∀ value ∈ savedUnder (EntryKind.covering.keyOf key) events,
        .deleted (EntryKind.failing.keyOf key) value (.ok ()) ∈ events := by
  generalize hbytes : Encoding.serialize s = bytes
  generalize hf : EntryKind.failing.keyOf key = failing
  generalize hc : EntryKind.covering.keyOf key = covering
  rw [Examples.demote, Backend.move, hbytes, hf, hc]
  have hdelete : (b.journaled.delete failing bytes st).2.events =
      st.events ++ [.deleted failing bytes (b.journaled.delete failing bytes st).1] := rfl
  rcases hd : b.journaled.delete failing bytes st with ⟨e | ⟨⟨⟩⟩, st₁⟩ <;> rw [hd] at hdelete
  · rw [StoreM.bind_of_error hd]
    exact ⟨_, hdelete, Nat.zero_le 1, nofun⟩
  · have hsave : (b.journaled.save covering bytes st₁).2.events =
        st₁.events ++ [.saved covering bytes (b.journaled.save covering bytes st₁).1] := rfl
    rw [StoreM.bind_of_ok hd]
    rw [hdelete, List.append_assoc] at hsave
    refine ⟨_, hsave, ?_⟩
    rcases (b.journaled.save covering bytes st₁).1 with e | ⟨⟨⟩⟩ <;> simp [savedUnder]

/-- An entry that was tried and did not fail is moved, if it was filed as failing. -/
theorem demote_chosen (h : w.Chosen b key limit moved [])
    (ht : moved.length < w.executed.countP fun c => c.source = .database) (s : Draws) :
    ∃ w' moved', withStore "demoting a fixed example" (fun b key => Examples.demote b key s) w =
      (.ok (), w') ∧ w'.Chosen b key limit moved' [] := by
  obtain ⟨w', hw, t⟩ := withStore_told h.store "demoting a fixed example"
    fun b key => Examples.demote b key s
  obtain ⟨events, he, hl, hd⟩ := demote_journaled b key s w.storage
  rw [h.underKey] at t
  refine ⟨w', moved ++ savedUnder (EntryKind.covering.keyOf key) events, hw, ?_⟩
  refine World.Chosen.idle ?_ t.idle
  have hsaved := h.saved
  rw [coveringCases_nil, List.map_nil, List.append_nil] at hsaved
  refine ⟨h.store, h.underKey, h.withLimit, h.knows, ?_, fun value hv => ?_, ?_⟩
  · rw [he, savedUnder_append, hsaved, coveringCases_nil, List.map_nil, List.append_nil]
  · rw [he]
    exact List.mem_append.2 ((List.mem_append.1 hv).imp (h.deleted value) (hd value))
  · rw [List.length_append]
    exact (Nat.add_le_add_left hl _).trans ht

/-- While entries are tried only moved ones are saved as covering: by induction on the entries. -/
theorem maintains_reuseFrom (property : Property) (entries : List (EntryKind × Draws)) :
    Maintains (Moving b key limit) (reuseFrom property entries) := by
  induction entries with
  | nil => exact maintains_pure none
  | cons entry rest ih =>
    obtain ⟨kind, s⟩ := entry
    rintro w ⟨moved, hw⟩
    rw [reuseFrom, runner_bind]
    split
    · exact ⟨moved, hw⟩
    · rcases execute_cases property s .database replaySeed w with
        ⟨c, w₁, hx, hs, hran⟩ | ⟨c, w₁, hx, -, hbroke⟩
      · have hw₁ := hw.ran hran
        have hlt : moved.length < w₁.executed.countP fun c => c.source = .database := by
          rw [hran.executed]
          simpa [List.countP_cons, hs] using Nat.lt_succ_of_le hw.tried
        rw [bind_of_ok hx]
        split
        · exact ⟨moved, hw₁⟩
        · rcases refuseInvalid_cases c w₁ with hr | ⟨message, -, hr⟩
          · rw [bind_of_ok hr]
            split
            · obtain ⟨w₂, moved', h₂, hw₂⟩ := demote_chosen hw₁ hlt s
              rw [bind_of_ok h₂]
              exact ih w₂ ⟨moved', hw₂⟩
            · exact ih w₁ ⟨moved, hw₁⟩
          · rw [bind_of_error hr]
            exact ⟨moved, hw₁⟩
      · rw [bind_of_error hx]
        exact ⟨moved, hw.broke hbroke⟩

theorem maintains_reuse (property : Property) :
    Maintains (Moving b key limit) (reuse property) := by
  rintro w ⟨moved, hw⟩
  rw [reuse_eq, runner_bind, hw.store]
  dsimp only
  obtain ⟨events, he, hs⟩ := Examples.enters_load b w.runner.key
    (EntryKind.covering.keyOf key) w.storage
  rw [stored_bind]
  have hw₁ : World.Moving b key limit
      { w with storage := (Examples.load b.journaled w.runner.key w.storage).2 } :=
    ⟨moved, hw.spared he hs⟩
  rcases (Examples.load b.journaled w.runner.key w.storage).1 with e | loaded
  · exact ((Ends.runs_told moving_frame (ends_databaseError _ _)).maintains.bind fun _ =>
      maintains_pure none) _ hw₁
  · exact ((Ends.runs_told moving_frame (ends_tellLoaded loaded)).maintains.bind fun _ =>
      (Ends.runs moving_frame (idle_setMode _)).maintains.bind fun _ =>
        maintains_reuseFrom property _) _ hw₁

/-! ## New cases -/

section Generate

variable (hsaves : ∀ key value st, (b.save key value st).1 = .ok ())

include hsaves

/-- What is saved of a new case is what makes it a covering one. -/
theorem saveIfCovering_chosen {c : Case} (h : w.Chosen b key limit moved cases)
    (hc : c.mayCover = true) :
    ∃ w', saveIfCovering c w = (.ok (), w') ∧ w'.Chosen b key limit moved (cases ++ [c]) := by
  obtain ⟨features, saved, hk, ⟨hsame, hw⟩ | ⟨hconcat, hw⟩⟩ :=
    saveIfCovering_knows h.knows h.withLimit hc
  · exact ⟨_, hw, h.store, h.underKey, h.withLimit, hk, by rw [hsame]; exact h.saved, h.deleted,
      h.tried⟩
  · obtain ⟨w', hw', t⟩ := withStore_told (w := w.taught features saved) h.store
      "saving a covering example" fun b key => Examples.save b key c.draws .covering
    refine ⟨w', hw.trans hw', World.Chosen.idle ?_ t.idle⟩
    have hevents : (Examples.save b.journaled w.runner.key c.draws .covering w.storage).2.events =
        w.storage.events ++ [.saved (EntryKind.covering.keyOf key) (Encoding.serialize c.draws)
          (.ok ())] := by
      rw [h.underKey, ← hsaves (EntryKind.covering.keyOf key) (Encoding.serialize c.draws)
        w.storage.bare]
      rfl
    refine ⟨h.store, h.underKey, h.withLimit, hk, ?_, fun value hv => ?_, h.tried⟩
    · change savedUnder _ (Examples.save b.journaled w.runner.key c.draws .covering
        w.storage).2.events = _
      rw [hevents, savedUnder_append, h.saved, hconcat, List.map_append, List.append_assoc]
      simp [savedUnder]
    · change _ ∈ (Examples.save b.journaled w.runner.key c.draws .covering w.storage).2.events
      rw [hevents]
      exact List.mem_append_left _ (h.deleted value hv)

/-- What is done with a case that did not fail. -/
theorem keep_chosen {c : Case} (h : w.UpToDate b key limit) (hran : w.Ran c w')
    (hc : c.source = .generated) :
    ∃ w'', keep c w' = (.ok (), w'') ∧ w''.UpToDate b key limit := by
  obtain ⟨moved, hw⟩ := h
  have hw' := hw.ran hran
  have he : w'.executed.reverse = w.executed.reverse ++ [c] := by
    rw [hran.executed, List.reverse_cons]
  unfold keep
  split
  · rename_i ho
    have hmay : c.mayCover = true := by simp [Case.mayCover, hc, ho]
    obtain ⟨w'', hk, hw''⟩ := saveIfCovering_chosen hsaves hw' hmay
    have hsame : w''.executed = w'.executed := ((ends_saveIfCovering c).rel hk).executed
    refine ⟨w'', hk, moved, ?_⟩
    rw [hsame, he]
    exact hw''
  · rename_i ho
    refine ⟨w', rfl, moved, ?_⟩
    rw [he]
    exact hw'.append (by simp [Case.mayCover, ho])

/-- By induction on how many cases may still be made. -/
theorem maintains_generateFrom (hk : key.subKey = none) (property : Property)
    (maxExamples maxInvalid : Nat) (seeds : ChaCha8) (monitor : HealthMonitor)
    (valid invalid : Nat) :
    Maintains (UpToDate b key limit)
      (generateFrom property maxExamples maxInvalid seeds monitor valid invalid) := by
  induction hn : (maxExamples - valid) + (maxInvalid - invalid) using Nat.strongRecOn
    generalizing seeds monitor valid invalid with
  | _ n ih =>
    intro w hw
    rw [generateFrom_eq]
    split
    · rw [runner_bind]
      split
      · exact hw
      · rcases execute_cases property [] .generated seeds.next.1 w with
          ⟨c, w₁, hx, hc, hran⟩ | ⟨c, w₁, hx, -, hbroke⟩
        · rw [bind_of_ok hx]
          split
          · rename_i hf
            exact ((maintains_saveFailure hk c).bind fun _ => maintains_pure _) w₁
              (hw.ran hran (Case.mayCover_of_isFailure hf))
          · rcases refuseInvalid_cases c w₁ with hr | ⟨message, ho, hr⟩
            · obtain ⟨w₂, hkeep, hw₂⟩ := keep_chosen hsaves hw hran hc
              rw [bind_of_ok hr, bind_of_ok hkeep]
              unfold judge
              rcases monitor.observe c with ⟨_ | failure, monitor'⟩ <;> dsimp only
              · split <;> split
                · exact hw₂
                · exact ih _ (by omega) _ _ _ _ rfl w₂ hw₂
                · exact hw₂
                · exact ih _ (by omega) _ _ _ _ rfl w₂ hw₂
              · exact ((Ends.runs_told upToDate_frame (ends_tellUnhealthy _)).maintains.bind
                  fun _ => maintains_pure _) w₂ hw₂
            · rw [bind_of_error hr]
              exact hw.ran hran (by simp [Case.mayCover, ho])
        · rw [bind_of_error hx]
          exact upToDate_frame.broke hbroke hw
    · exact hw

theorem maintains_generate (hk : key.subKey = none) (property : Property) (seed : UInt64) :
    Maintains (UpToDate b key limit) (generate property seed) :=
  maintains_runner_bind fun _ =>
    (Ends.runs_told upToDate_frame (ends_tellPhase _)).maintains.bind fun _ =>
      (Ends.runs upToDate_frame (idle_setMode _)).maintains.bind fun _ =>
        maintains_generateFrom hsaves hk property _ _ _ _ _ _

/-! ## Whole runs -/

theorem maintains_proceed (hk : key.subKey = none) (property : Property) (seed : UInt64)
    (settings : Settings) (reused : Option Case) :
    Maintains (UpToDate b key limit) (proceed property seed settings reused) := by
  have hfinish : ∀ outcome example? health seed, Maintains (UpToDate b key limit)
      (finish outcome example? health seed : RunM (Journal σ) RunResult) := fun _ _ _ _ =>
    (runs_finish upToDate_frame _ _ _ _).maintains
  unfold proceed
  split
  · exact maintains_conclude hk property _ _ _
  · refine maintains_runner_bind fun r => ?_
    split
    · exact hfinish _ _ _ _
    · split
      · refine (maintains_generate hsaves hk property seed).bind fun ending => ?_
        split
        · exact hfinish _ _ _ _
        · exact maintains_conclude hk property _ _ _
        · exact hfinish _ _ _ _
        · exact hfinish _ _ _ _
      · exact hfinish _ _ _ _

/-- A run that tries entries has only moved some when it goes on to new cases. -/
theorem upToDate_search (hk : key.subKey = none) (host : Host (Journal σ)) (property : Property)
    (hw : w.Chosen b key limit [] []) (he : w.executed = []) :
    (search host property w).2.UpToDate b key limit := by
  obtain ⟨v, t, hsearch⟩ := search_apply host property w
  have hv : v.Chosen b key limit [] [] := hw.idle t.idle
  have hstored : (tryStored property w.runner.settings v).2.Moving b key limit := by
    unfold tryStored
    split
    · exact maintains_reuse property v ⟨[], hv⟩
    · exact ⟨[], hv⟩
  obtain ⟨cases, hcases, hs, -⟩ := ((runs_tryStored (E := fun _ => True)
    (onward_frame (S := (· = .database))).toStoreFrame rfl (fun _ => trivial) property
    w.runner.settings) v).1.executed
  rw [t.continues.executed, he, List.append_nil] at hcases
  rw [hsearch]
  rcases htry : tryStored property w.runner.settings v with ⟨e | reused, v₁⟩ <;>
    rw [htry] at hstored hcases
  all_goals
    obtain ⟨moved, hv₁⟩ := hstored
    have hdate : v₁.UpToDate b key limit := by
      refine ⟨moved, ?_⟩
      rw [hcases]
      refine List.nil_append cases.reverse ▸ hv₁.append fun c hc => Case.mayCover_of_source ?_
      rw [hs c (List.mem_reverse.1 hc)]
      decide
  · rw [bind_of_error htry]
    exact hdate
  · rw [bind_of_ok htry]
    exact maintains_proceed hsaves hk property _ _ _ v₁ hdate

end Generate

end RunM

open World RunM

variable {σ : Type}

/-- The runner of a world is new, and its next run has a store, which keeps a journal with nothing
in it yet. -/
structure World.Unused (host : Host (Journal σ)) (b : Backend σ) (w : World (Journal σ)) :
    Prop where
  runner : ∃ name settings store sinks, w.runner = .create name settings store sinks
  unasked : w.storage.events = []
  store : (openDatabase host (w.begun host)).2.runner.store = some b.journaled
  opened : (openDatabase host (w.begun host)).2.storage.events = []

/-- What a run has saved as covering accounts for all its cases. -/
theorem upToDate_runProperty (host : Host (Journal σ)) (property : Property) {b : Backend σ}
    {w : World (Journal σ)} (hw : w.Unused host b)
    (hsaves : ∀ key value st, (b.save key value st).1 = .ok ())
    (hv : w.runner.settings.validate = .ok ()) :
    (runProperty host property w).2.UpToDate b w.runner.key
      w.runner.settings.maxCoveringExamples := by
  obtain ⟨w₁, hopen, ⟨store, sinks, storage, hsame⟩, -⟩ := openDatabase_apply host (w.begun host)
  obtain ⟨name, settings, store', sinks', hr⟩ := hw.runner
  have hstore := hw.store
  have hevents := hw.opened
  rw [hopen] at hstore hevents
  have hk : w.runner.key.subKey = none := by rw [hr]; rfl
  have he : w₁.executed = [] := by rw [hsame]; rfl
  have hknows : w₁.runner.Knows w.runner.settings.maxCoveringExamples [] := by
    refine .start (fun f => ?_) ?_
    · rw [hsame]
      show f ∉ w.runner.seenFeatures
      rw [hr]
      exact Std.HashSet.not_mem_emptyWithCapacity
    · rw [hsame]
      show w.runner.coveringSaved = 0
      rw [hr]
      rfl
  have hw₁ : w₁.Chosen b w.runner.key w.runner.settings.maxCoveringExamples [] [] :=
    ⟨hstore, by rw [hsame]; rfl, by rw [hsame]; rfl, hknows,
      by rw [hevents, coveringCases_nil]; rfl, nofun, Nat.zero_le _⟩
  rw [runProperty_of_valid host property hv, bind_of_ok hopen, runner_bind]
  rcases w₁.runner.settings.reproduce with _ | token
  · exact upToDate_search hsaves hk host property hw₁ he
  · refine (runs_reproduce upToDate_frame (by decide) (fun _ => trivial) (fun _ => trivial) property
      token).maintains w₁ ⟨[], ?_⟩
    rw [he]
    exact hw₁

/-- What a new runner saves as covering in a run are the entries that it moves there, at most one
for each entry that it tries, and then the covering cases of the run, one after another and nothing
else. Unless their number has reached the limit, each feature that a passing new case shows is
shown by one of them. -/
theorem covering_cases_saved (host : Host (Journal σ)) (property : Property) {b : Backend σ}
    {w : World (Journal σ)} (hw : w.Unused host b)
    (hsaves : ∀ key value st, (b.save key value st).1 = .ok ()) :
    let w' := (runProperty host property w).2
    let limit := w.runner.settings.maxCoveringExamples
    let chosen := coveringCases limit w'.executed.reverse
    (∃ moved, savedUnder (EntryKind.covering.keyOf w.runner.key) w'.storage.events =
        moved ++ chosen.map (fun c => Encoding.serialize c.draws) ∧
      (∀ value ∈ moved,
        .deleted (EntryKind.failing.keyOf w.runner.key) value (.ok ()) ∈ w'.storage.events) ∧
      moved.length ≤ w'.executed.countP fun c => c.source = .database) ∧
    (chosen.length < limit → ∀ c ∈ w'.executed, c.source = .generated → c.outcome = .passed →
      ∀ f ∈ c.features, ∃ c' ∈ chosen, f ∈ c'.features) := by
  intro w' limit chosen
  refine ⟨?_, fun hroom c hc hs ho f hf => ?_⟩
  · rcases hv : w.runner.settings.validate with e | ⟨⟩
    · have hinvalid : w' = { w with executed := [], crash := none } :=
        congrArg Prod.snd (runProperty_invalid host property hv)
      refine ⟨[], ?_, nofun, Nat.zero_le _⟩
      simp only [chosen, hinvalid, hw.unasked, List.reverse_nil, coveringCases_nil]
      rfl
    · obtain ⟨moved, h⟩ := upToDate_runProperty host property hw hsaves hv
      exact ⟨moved, h.saved, h.deleted, h.tried⟩
  · exact features_coveringCases hroom (List.mem_reverse.2 hc) (by simp [Case.mayCover, hs, ho]) hf

/-- A run that is to make one new case makes no other one if that passes. -/
theorem RunM.generateFrom_one {property : Property} {w w₁ : World σ} {c : Case}
    (maxInvalid : Nat) (seeds : ChaCha8) (monitor : HealthMonitor)
    (hi : w.runner.interrupted = false)
    (hx : execute property [] .generated seeds.next.1 w = (.ok c, w₁))
    (hp : c.outcome = .passed) :
    ∃ ending w', generateFrom property 1 maxInvalid seeds monitor 0 0 w = (.ok ending, w') ∧
      w'.executed = w₁.executed ∧ ∀ c, ending ≠ .failed c := by
  have hfailure : ¬ c.outcome.isFailure = true := by rw [hp]; decide
  have hrefuse : refuseInvalid c w₁ = (.ok (), w₁) := by rw [refuseInvalid, hp]; rfl
  obtain ⟨⟨⟩, w₂, hkeep, hw₂⟩ := ends_keep c w₁
  rw [generateFrom_eq, if_pos Nat.one_pos, runner_bind, if_neg (by rw [hi]; decide),
    bind_of_ok hx, if_neg hfailure, bind_of_ok hrefuse, bind_of_ok hkeep]
  unfold judge
  rcases monitor.observe c with ⟨_ | failure, monitor'⟩ <;> dsimp only
  · rw [if_pos hp]
    split
    · exact ⟨_, w₂, rfl, hw₂.executed, nofun⟩
    · rw [generateFrom_eq]
      exact ⟨.exhausted, w₂, rfl, hw₂.executed, nofun⟩
  · obtain ⟨⟨⟩, w₃, h₃, t₃⟩ := ends_tellUnhealthy failure w₂
    rw [bind_of_ok h₃]
    exact ⟨_, w₃, rfl, t₃.continues.executed.trans hw₂.executed, nofun⟩

/-- The cases of such a run. Which case it makes does not depend on what is known of features. -/
theorem executed_one (host : Host σ) (property : Property) {w : World σ} {backend : Backend σ}
    (hs : w.runner.store = some backend) (hv : w.runner.settings.validate = .ok ())
    (hr : w.runner.settings.reproduce = none) (hp : w.runner.settings.hasPhase .reuse = false)
    (hg : w.runner.settings.hasPhase .generate = true) (hone : w.runner.settings.maxExamples = 1)
    (hi : w.runner.interrupted = false) {c : Case}
    (hc : (execute property [] .generated (ChaCha8.ofSeed (w.runSeed host)).next.1
      ((w.begun host).withMode .relaxed).outline).1 = .ok c) (hpassed : c.outcome = .passed) :
    (runProperty host property w).2.executed = [c] := by
  obtain ⟨v, t, hrun⟩ := runProperty_apply host property hs hv hr
  have hnone : tryStored property w.runner.settings = (pure none : RunM σ _) :=
    if_neg (by rw [hp]; decide)
  have hset : v.runner.settings = w.runner.settings := t.continues.settings
  have hiv : v.runner.interrupted = false := t.continues.interrupted.trans hi
  obtain ⟨⟨⟩, v₁, h₁, t₁⟩ :=
    ends_tellPhase s!"generating up to {v.runner.settings.maxExamples} examples" v
  have houtline : (v₁.withMode .relaxed).outline = ((w.begun host).withMode .relaxed).outline :=
    congrArg (World.withMode .relaxed) (t₁.outline.trans t.outline)
  rw [← houtline, (execute_outline _ _ _ _ _).1] at hc
  rcases hx : execute property [] .generated (ChaCha8.ofSeed (w.runSeed host)).next.1
    (v₁.withMode .relaxed) with ⟨_, v₂⟩
  rw [hx] at hc
  cases hc
  have hexecuted : v₂.executed = [c] := (ran_of_execute hx).2.executed.trans
    (congrArg (c :: ·) (t₁.continues.executed.trans t.continues.executed))
  have hi₁ : (v₁.withMode .relaxed).runner.interrupted = false :=
    t₁.continues.interrupted.trans hiv
  obtain ⟨ending, v₃, hgen, h₃, hnot⟩ := generateFrom_one v.runner.settings.maxFilterRetries
    (ChaCha8.ofSeed (w.runSeed host))
    { limits := v.runner.settings.healthLimits, suppressed := v.runner.settings.suppressed }
    hi₁ hx hpassed
  have hgenerate : generate property (w.runSeed host) v = (.ok ending, v₃) := by
    rw [generate, runner_bind, bind_of_ok h₁, setMode, modifyRunner, modify_bind, hset, hone]
    exact hset ▸ hgen
  rw [hrun, hnone, pure_bind, proceed, runner_bind, if_neg (by rw [hiv]; decide), if_pos hg,
    bind_of_ok hgenerate]
  have hfinish : ∀ outcome health,
      (finish outcome none health (some (w.runSeed host)) v₃).2.executed = [c] :=
    fun outcome health => ((ends_finish outcome none health _).rel rfl).continues.executed.trans
      (h₃.trans hexecuted)
  rcases ending with _ | c | reason | failure
  · exact hfinish _ _
  · exact absurd rfl (hnot c)
  · exact hfinish _ _
  · exact hfinish _ _

/-- A world with an empty store that keeps a journal. -/
def World.journaled (settings : Settings) : World (Journal Memory) where
  runner := .create "t" settings (some memoryBackend.journaled) []
  storage := (⟨.empty, #[]⟩ : Storage Memory).opened
  clock := .start fun _ => 0
  executed := []
  crash := none

/-- The case of a run shows a feature, and its draw is saved. -/
theorem covering_cases_saved_markingDraw :
    let host : Host (Journal Memory) := ⟨fun _ => throw (.refused .save), 0, 0⟩
    let w : World (Journal Memory) := .journaled (.once [.generate])
    w.Unused host memoryBackend ∧ (∀ key value st, (memoryBackend.save key value st).1 = .ok ()) ∧
      savedUnder (EntryKind.covering.keyOf w.runner.key)
        (runProperty host (fun _ => .markingDraw) w).2.storage.events =
        [Encoding.serialize [⟨1, 1⟩]] := by
  intro host w
  have hw : w.Unused host memoryBackend := ⟨⟨_, _, _, _, rfl⟩, rfl, rfl, rfl⟩
  have hsaves : ∀ key value st, (memoryBackend.save key value st).1 = .ok () := fun _ _ _ => rfl
  refine ⟨hw, hsaves, ?_⟩
  have hcase : (execute (fun _ => .markingDraw) [] .generated
      (ChaCha8.ofSeed (w.runSeed host)).next.1
      ((w.begun host).withMode .relaxed).outline).1.toOption.map
        (fun c => (c.source, c.outcome, c.features, c.draws)) =
      some (.generated, .passed, [("k", "v")], [⟨1, 1⟩]) := by
    decide +kernel
  rcases hc : (execute (fun _ => .markingDraw) [] .generated
    (ChaCha8.ofSeed (w.runSeed host)).next.1
    ((w.begun host).withMode .relaxed).outline).1 with e | c <;> rw [hc] at hcase
  · cases hcase
  · obtain ⟨hsource, hpassed, hfeatures, hdraws⟩ : c.source = .generated ∧ c.outcome = .passed ∧
        c.features = [("k", "v")] ∧ c.draws = [⟨1, 1⟩] := by
      simpa [Except.toOption] using hcase
    have hexecuted := executed_one host (fun _ => .markingDraw) (w := w) rfl rfl rfl rfl rfl rfl rfl
      hc hpassed
    obtain ⟨⟨moved, hsaved, -, htried⟩, -⟩ :=
      covering_cases_saved host (fun _ => .markingDraw) hw hsaves
    rw [hexecuted] at hsaved htried
    obtain rfl : moved = [] := by
      simpa [hsource] using htried
    rw [hsaved]
    have hlimit : w.runner.settings.maxCoveringExamples = 50 := rfl
    simp [hlimit, coveringCases, novel, Case.mayCover, hsource, hpassed, hfeatures, hdraws]

end Falsify
