import Falsify.Proofs.Run.Recorded

/-!
# Trying what is stored loses nothing

The entries of a test are tried in their order, up to the first one that fails. Those before it
are fixed. The fixed ones among the failing entries become covering ones; everything else stays
where it was.

* `Body.fixed`, `Body.standing`, `Body.tried`: where the first failure divides the entries;
* `reuseFrom_tries`: what is executed, and what is found;
* `demoted_of_split`: what is left in a corpus once a part of its entries has gone;
* `reuse_conserves`: the whole phase.
-/

namespace Falsify

namespace Body

variable (body : Body (Except CaseError Unit)) (limits : Settings)
  (entries : List (EntryKind × Draws))

/-- The entries before the first one that fails. -/
def fixed : List (EntryKind × Draws) :=
  entries.takeWhile fun e => !body.stillFails limits e.2

/-- The first entry that fails and all behind it. -/
def standing : List (EntryKind × Draws) :=
  entries.dropWhile fun e => !body.stillFails limits e.2

/-- The entries up to the first one that fails. -/
def tried : List (EntryKind × Draws) :=
  body.fixed limits entries ++ (body.standing limits entries).take 1

variable {body limits entries}

theorem tried_cons_of_fails {e : EntryKind × Draws} (h : body.stillFails limits e.2 = true) :
    body.tried limits (e :: entries) = [e] := by
  simp [tried, fixed, standing, h]

theorem tried_cons_of_passes {e : EntryKind × Draws} (h : body.stillFails limits e.2 = false) :
    body.tried limits (e :: entries) = e :: body.tried limits entries := by
  simp [tried, fixed, standing, h]

/-- The first failure is where entries that pass end. -/
theorem split_of_passed {passed rest : List (EntryKind × Draws)}
    (hp : ∀ e ∈ passed, body.stillFails limits e.2 = false)
    (hr : ∀ e ∈ rest.head?, body.stillFails limits e.2 = true) :
    body.fixed limits (passed ++ rest) = passed ∧ body.standing limits (passed ++ rest) = rest := by
  have hpass : ∀ e ∈ passed, (!body.stillFails limits e.2) = true := fun e he => by
    rw [hp e he]
    rfl
  rw [fixed, standing, List.takeWhile_append_of_pos hpass, List.dropWhile_append_of_pos hpass]
  cases rest with
  | nil => exact ⟨List.append_nil _, rfl⟩
  | cons e rest => simp [hr e rfl]

end Body

namespace World

variable {w : World Memory}

/-- No entry is tried twice. -/
theorem nodup_entries (w : World Memory) : w.entries.Nodup := by
  have hmap : ∀ kind : EntryKind, ((w.storage.contents.entries w.runner.key kind).map
      (kind, ·)).Nodup := fun kind =>
    (w.storage.contents.nodup_entries _ kind).map fun s t hst => congrArg Prod.snd hst
  refine List.nodup_append.2 ⟨hmap .failing, hmap .covering, fun e he e' he' hee => ?_⟩
  obtain ⟨s, -, rfl⟩ := List.mem_map.1 he
  obtain ⟨t, -, rfl⟩ := List.mem_map.1 he'
  cases hee

/-- Once some entries have gone from the failing corpus, the others are left. -/
theorem demoted_of_split {passed rest : List (EntryKind × Draws)}
    (he : w.entries = passed ++ rest) :
    w.decodable .failing \ demoted passed =
      {b | ∃ s, (EntryKind.failing, s) ∈ rest ∧ b = Encoding.serialize s} := by
  have hwf : ∀ s, (.failing, s) ∈ w.entries → s.WellFormed := fun s hs =>
    (Memory.mem_entries.1 (mem_entries.1 hs)).1
  have hnodup := nodup_entries w
  rw [he] at hwf hnodup
  rw [← demoted_entries, he]
  ext b
  constructor
  · rintro ⟨⟨s, hs, rfl⟩, hb⟩
    rcases List.mem_append.1 hs with hs | hs
    · exact absurd ⟨s, hs, rfl⟩ hb
    · exact ⟨s, hs, rfl⟩
  · rintro ⟨s, hs, rfl⟩
    refine ⟨⟨s, List.mem_append_right _ hs, rfl⟩, ?_⟩
    rintro ⟨t, ht, hst⟩
    obtain rfl := Encoding.serialize_injective (hwf s (List.mem_append_right _ hs))
      (hwf t (List.mem_append_left _ ht)) hst
    exact (List.nodup_append.1 hnodup).2.2 _ ht _ hs rfl

/-- The entries up to the first one that fails were executed, and the case of that one is found. -/
structure Tries {σ : Type} (body : Body (Except CaseError Unit))
    (entries : List (EntryKind × Draws)) (w w' : World σ) (found : Option Case)
    (cases : List Case) : Prop where
  executed : w'.executed = cases.reverse ++ w.executed
  replays : cases.map (fun c => (c.source, c.timeless)) =
    (body.tried w.runner.settings entries).map fun e =>
      (.database, body.replay w.runner.settings e.2)
  found : found = cases.find? (·.outcome.isFailure)

/-- What went before the entries were tried changes nothing of that. -/
theorem Tries.of_continues {σ : Type} {body : Body (Except CaseError Unit)}
    {entries : List (EntryKind × Draws)} {v w w' : World σ} {found : Option Case}
    {cases : List Case} (h : v.Continues w) (h' : Tries body entries w w' found cases) :
    Tries body entries v w' found cases :=
  ⟨by rw [h'.executed, h.executed], by rw [h'.replays, h.settings], h'.found⟩

end World

namespace RunM

open World

section

variable {σ : Type} {property : Property} {body : Body (Except CaseError Unit)} {w w' : World σ}

/-- Entries are executed up to the first one that fails, and that one is found: by induction on
the entries. -/
theorem reuseFrom_tries (hp : property.Plays body) (entries : List (EntryKind × Draws))
    (hd : w.runner.deadline.deadline = none) {found : Option Case}
    (h : reuseFrom property entries w = (.ok found, w')) (hi : w'.runner.interrupted = false) :
    ∃ cases, Tries body entries w w' found cases := by
  induction entries generalizing w with
  | nil =>
    cases h
    exact ⟨[], rfl, rfl, rfl⟩
  | cons entry later ih =>
    obtain ⟨kind, s⟩ := entry
    rw [reuseFrom, runner_bind] at h
    split at h
    · rename_i hw
      cases h
      cases hi.symm.trans hw
    · obtain ⟨c, w₁, hx, he⟩ := execute_ok hp s .database replaySeed hd
      rw [bind_of_ok hx] at h
      have hcase : (c.source, c.timeless) = (.database, body.replay w.runner.settings s) :=
        Prod.ext he.source he.result
      have hout : c.outcome.isFailure = body.stillFails w.runner.settings s :=
        (congrArg (fun c : Case => c.outcome.isFailure) he.result :)
      have hd₁ : w₁.runner.deadline.deadline = none := by rw [he.deadline, hd]
      split at h
      · rename_i hf
        cases h
        refine ⟨[c], he.executed, ?_, by simp [hf]⟩
        rw [Body.tried_cons_of_fails (e := (kind, s)) (hout ▸ hf)]
        exact congrArg (fun p => [p]) hcase
      · rename_i hf
        have hf : c.outcome.isFailure = false := by simpa using hf
        -- Demoting the entry leaves what comes after it as it was.
        obtain ⟨w₂, h₂, h⟩ := (ends_withStore "demoting a fixed example"
          fun b key => Examples.demote b key s).ite_bind_eq_ok continues_frame
            (refuseInvalid_bind h)
        obtain ⟨cases, hc⟩ := ih (h₂.deadline.trans hd₁) h
        refine ⟨c :: cases, ?_, ?_, ?_⟩
        · rw [hc.executed, h₂.executed, he.executed, List.reverse_cons, List.append_assoc]
          rfl
        · rw [Body.tried_cons_of_passes (e := (kind, s)) (hout ▸ hf), List.map_cons, List.map_cons,
            hcase, hc.replays, h₂.settings, he.settings]
        · rw [hc.found, List.find?_cons_of_neg (by rw [hf]; decide)]

/-- The same for the whole phase, if the entries are those that it loads. -/
theorem reuse_tries (hp : property.Plays body) {backend : Backend σ} {loaded : LoadedExamples}
    {storage : Storage σ} (hs : w.runner.store = some backend)
    (hl : Examples.load backend w.runner.key w.storage = (.ok loaded, storage))
    (hd : w.runner.deadline.deadline = none) {found : Option Case}
    (h : reuse property w = (.ok found, w')) (hi : w'.runner.interrupted = false) :
    ∃ cases, Tries body loaded.entries w w' found cases := by
  rw [reuse_eq, runner_bind, hs] at h
  dsimp only at h
  rw [stored_bind, hl] at h
  have hloaded : Continues w { w with storage := storage } := ⟨rfl, rfl, rfl, rfl, rfl⟩
  obtain ⟨⟨⟩, w₁, h₁, h⟩ := (ends_tellLoaded loaded).bind_eq_ok h
  obtain ⟨⟨⟩, w₂, h₂, h⟩ := (ends_setMode .relaxed).bind_eq_ok h
  have hw : Continues w w₂ :=
    continues_frame.trans hloaded (continues_frame.trans h₁.continues h₂)
  obtain ⟨cases, hc⟩ := reuseFrom_tries hp _ (hw.deadline.trans hd) h hi
  exact ⟨cases, hc.of_continues hw⟩

end

end RunM

open World RunM

variable {property : Property} {body : Body (Except CaseError Unit)} {w : World Memory}

/-- A test whose body makes sense whatever it draws tries what is stored of it up to the first
failure, and finds that one. What did not fail is covering then. Of the failing entries those are
left that come no earlier than the first failure. Both corpora together hold what they held. -/
theorem reuse_conserves (hp : property.Plays body) (hd : w.runner.deadline.deadline = none)
    (hn : body.NeverInvalid w.runner.settings) (hm : w.InMemory)
    (hi : (reuse property w).2.runner.interrupted = false) :
    ∃ (cases : List Case) (w' : World Memory),
      reuse property w = (.ok (cases.find? (·.outcome.isFailure)), w') ∧
      w'.executed = cases.reverse ++ w.executed ∧
      cases.map (fun c => (c.source, c.timeless)) =
        (body.tried w.runner.settings w.entries).map
          (fun e => (.database, body.replay w.runner.settings e.2)) ∧
      w'.corpus .failing = {b | ∃ s, (EntryKind.failing, s) ∈
        body.standing w.runner.settings w.entries ∧ b = Encoding.serialize s} ∧
      w'.corpus .covering =
        w.decodable .covering ∪ demoted (body.fixed w.runner.settings w.entries) ∧
      w'.corpus .failing ∪ w'.corpus .covering =
        w.decodable .failing ∪ w.decodable .covering := by
  rcases h : reuse property w with ⟨r, w'⟩
  rw [h] at hi
  obtain ⟨passed, rest, he, hr⟩ := reuse_memory hp hd hm h
  obtain ⟨st, hl, -, -⟩ := Examples.load_memory hm.main w.storage
  rcases r with e | found
  · obtain ⟨kind, s, later, message, -, hinvalid⟩ := hr.ending
    exact (hn _ _ _ hinvalid).elim
  · have hfirst : ∀ e ∈ rest.head?, body.stillFails w.runner.settings e.2 = true := by
      rcases found with _ | c
      · rcases hr.ending with rfl | hint
        · nofun
        · cases hi.symm.trans hint
      · obtain ⟨kind, s, later, rfl, hreplay, -, hfails⟩ := hr.ending
        rintro e ⟨⟩
        rwa [Body.stillFails, ← hreplay]
    obtain ⟨hfixed, hstanding⟩ := Body.split_of_passed hr.passed hfirst
    rw [← he] at hfixed hstanding
    obtain ⟨cases, hc⟩ := reuse_tries hp hm.store hl hd h hi
    have hleft := demoted_of_split he
    refine ⟨cases, w', by rw [← hc.found], hc.executed, hc.replays, ?_, ?_, ?_⟩
    · rw [hr.failing, hleft, hstanding]
    · rw [hr.covering, hfixed]
    · have hsub : demoted passed ⊆ w.decodable .failing := by
        rw [← demoted_entries, he, demoted_append]
        exact Set.subset_union_left
      rw [hr.failing, hr.covering, Set.union_comm (w.decodable .covering), ← Set.union_assoc,
        Set.sdiff_union_of_subset hsub]

/-- The failing entry passes now, and then the covering one fails. -/
theorem reuse_conserves_refusingTrue :
    let w : World Memory := .stocked [.reuse] 7
      ((Memory.holding [⟨1, 0⟩]).insert (EntryKind.covering.keyOf (.ofFunction "t" []))
        (Encoding.serialize [⟨1, 1⟩]))
    ∃ (cases : List Case) (w' : World Memory),
      reuse (fun _ => .refusingTrue) w = (.ok (cases.find? (·.outcome.isFailure)), w') ∧
      cases.length = 2 ∧ w'.corpus .failing = ∅ ∧
      Encoding.serialize [⟨1, 0⟩] ∈ w'.corpus .covering := by
  intro w
  obtain ⟨hint, hfixed, hstanding⟩ :
      (reuse (fun _ => .refusingTrue) w).2.runner.interrupted = false ∧
      Body.refusingTrue.fixed w.runner.settings w.entries = [(.failing, [⟨1, 0⟩])] ∧
      Body.refusingTrue.standing w.runner.settings w.entries = [(.covering, [⟨1, 1⟩])] := by
    decide +kernel
  obtain ⟨cases, w', h, -, hreplays, hfailing, hcovering, -⟩ :=
    reuse_conserves Body.plays_refusingTrue rfl (Body.neverInvalid_refusingTrue _) ⟨rfl, rfl⟩
      hint
  refine ⟨cases, w', h, ?_, ?_, ?_⟩
  · have := congrArg List.length hreplays
    rwa [List.length_map, Body.tried, hfixed, hstanding] at this
  · rw [hfailing, hstanding]
    ext b
    simp
  · rw [hcovering, hfixed, demoted_failing]
    exact .inr rfl

end Falsify
