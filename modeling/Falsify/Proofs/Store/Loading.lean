import Falsify.Proofs.Store.Journal
import Falsify.Proofs.Store.Shelves

/-!
# Loading from any store

Loading asks a store for the two corpora of a test and for the deletion of each entry that does not
decode. Nothing else depends on the answers to these deletions, and nothing at all on the order and
number of the entries: the sequences that decode are loaded, whatever else there is.

* `Examples.decodeEntries_journaled`, `Examples.loadKind_journaled`: what is loaded of a corpus, and
  what is asked for;
* `Examples.load_journaled`: both corpora, or the error of one that cannot be read;
* `Examples.load_keeps_decodable`: all that decodes is loaded.
-/

namespace Falsify

/-- An entry that stands for no sequence. -/
def Encoding.undecodable (entry : Bytes) : Bool :=
  (decode? entry).isNone

/-- Some sequences are those that some entries stand for, each as often, and they are in order. -/
structure DecodedFrom (entries : List Bytes) (sequences : List Draws) : Prop where
  perm : sequences.Perm (entries.filterMap Encoding.decode?)
  sorted : sequences.Pairwise fun s t => ¬ t.Simpler s

theorem decodedFrom_sortDraws (entries : List Bytes) :
    DecodedFrom entries (sortDraws (entries.filterMap Encoding.decode?)) where
  perm := List.mergeSort_perm _ _
  sorted := pairwise_sortDraws _

/-- What was fetched, and from where. -/
def StoreEvent.fetched? : StoreEvent → Option (Key × Except DatabaseError (List Bytes))
  | .fetched key answer => some (key, answer)
  | _ => none

namespace Examples

open Encoding

variable {σ : Type} (b : Backend σ) (key : Key) (kind : EntryKind)

/-- The deletions of the entries of a corpus that do not decode. -/
def discards (entries : List Bytes) : List StoreRequest :=
  (entries.filter undecodable).map (.delete (kind.keyOf key))

/-- Only a deletion is asked for, and whatever comes of it is no error. -/
theorem discard_journaled (entry : Bytes) (fault : TokenError) (st : Storage (Journal σ)) :
    ∃ answer st', discard b.journaled key kind entry fault st = (.ok (), st') ∧
      st'.events = st.events ++ [.deleted (kind.keyOf key) entry answer] := by
  obtain ⟨st₁, htell, h₁⟩ : ∃ st₁, StoreM.tell .info
      s!"discarding undecodable {kind.title} entry for {key.text}: {fault.message}" st =
      (.ok (), st₁) ∧ st₁.events = st.events := ⟨_, rfl, rfl⟩
  have hevents : (b.journaled.delete (kind.keyOf key) entry st₁).2.events = st.events ++
      [.deleted (kind.keyOf key) entry (b.journaled.delete (kind.keyOf key) entry st₁).1] :=
    h₁ ▸ rfl
  rw [discard, StoreM.bind_of_ok htell, StoreM.tryCatch_apply]
  generalize b.journaled.delete (kind.keyOf key) entry st₁ = outcome at hevents ⊢
  rcases outcome with ⟨e | ⟨⟨⟩⟩, st₂⟩
  · exact ⟨_, _, rfl, hevents⟩
  · exact ⟨_, _, rfl, hevents⟩

/-- All that decodes is kept, and the rest is counted and deleted: by induction on the entries. -/
theorem decodeEntries_journaled (entries : List Bytes) (st : Storage (Journal σ)) :
    ∃ deletions st', decodeEntries b.journaled key kind entries st =
      (.ok (entries.filterMap decode?, entries.countP undecodable), st') ∧
      st'.events = st.events ++ deletions ∧
      deletions.map StoreEvent.request = discards key kind entries := by
  induction entries generalizing st with
  | nil => exact ⟨[], st, rfl, (List.append_nil _).symm, rfl⟩
  | cons entry rest ih =>
    rw [decodeEntries]
    rcases he : deserialize entry with fault | s
    · have hn : decode? entry = none := by rw [decode?, he]; rfl
      have hu : undecodable entry = true := by rw [undecodable, hn]; rfl
      obtain ⟨answer, st₁, h₁, e₁⟩ := discard_journaled b key kind entry fault st
      obtain ⟨deletions, st₂, h₂, e₂, hd⟩ := ih st₁
      refine ⟨.deleted (kind.keyOf key) entry answer :: deletions, st₂, ?_, ?_, ?_⟩
      · dsimp only
        rw [StoreM.bind_of_ok h₁, StoreM.bind_of_ok h₂, List.filterMap_cons_none hn,
          List.countP_cons_of_pos hu]
        rfl
      · rw [e₂, e₁, List.append_assoc]
        rfl
      · rw [discards, List.filter_cons_of_pos hu, List.map_cons, List.map_cons, hd]
        rfl
    · have hs : decode? entry = some s := by rw [decode?, he]; rfl
      have hu : ¬ undecodable entry = true := by rw [undecodable, hs]; exact Bool.false_ne_true
      obtain ⟨deletions, st₁, h₁, e₁, hd⟩ := ih st
      refine ⟨deletions, st₁, ?_, e₁, ?_⟩
      · dsimp only
        rw [StoreM.bind_of_ok h₁, List.filterMap_cons_some hs, List.countP_cons_of_neg hu]
        rfl
      · rw [hd, discards, discards, List.filter_cons_of_neg hu]

/-- A corpus is loaded if it can be fetched. -/
theorem loadKind_journaled (st : Storage (Journal σ)) :
    (∃ e st', loadKind b.journaled key kind st = (.error e, st') ∧
      st'.events = st.events ++ [.fetched (kind.keyOf key) (.error e)]) ∨
    ∃ entries deletions st', loadKind b.journaled key kind st =
      (.ok (sortDraws (entries.filterMap decode?), entries.countP undecodable), st') ∧
      st'.events = st.events ++ .fetched (kind.keyOf key) (.ok entries) :: deletions ∧
      deletions.map StoreEvent.request = discards key kind entries := by
  have hevents : (b.journaled.fetch (kind.keyOf key) st).2.events = st.events ++
      [.fetched (kind.keyOf key) (b.journaled.fetch (kind.keyOf key) st).1] := rfl
  rw [loadKind]
  rcases hf : b.journaled.fetch (kind.keyOf key) st with ⟨e | entries, st₁⟩ <;> rw [hf] at hevents
  · exact .inl ⟨e, st₁, StoreM.bind_of_error hf, hevents⟩
  · obtain ⟨deletions, st₂, h₂, e₂, hd⟩ := decodeEntries_journaled b key kind entries st₁
    refine .inr ⟨entries, deletions, st₂, ?_, ?_, hd⟩
    · rw [StoreM.bind_of_ok hf, StoreM.bind_of_ok h₂]
      rfl
    · rw [e₂, hevents, List.append_assoc]
      rfl

/-- The calls that load two corpora. -/
structure Loads (events : List StoreEvent) (failing covering : List Bytes) : Prop where
  fetched : events.filterMap StoreEvent.fetched? =
    [(EntryKind.failing.keyOf key, .ok failing), (EntryKind.covering.keyOf key, .ok covering)]
  requests : events.map StoreEvent.request =
    .fetch (EntryKind.failing.keyOf key) :: discards key .failing failing ++
      .fetch (EntryKind.covering.keyOf key) :: discards key .covering covering

/-- Deletions fetch nothing. -/
theorem filterMap_fetched_discards {events : List StoreEvent} {entries : List Bytes}
    (h : events.map StoreEvent.request = discards key kind entries) :
    events.filterMap StoreEvent.fetched? = [] := by
  rw [List.filterMap_eq_nil_iff]
  intro event he
  have hreq : event.request ∈ discards key kind entries := h ▸ List.mem_map_of_mem he
  obtain ⟨entry, -, hreq⟩ := List.mem_map.1 hreq
  cases event with
  | fetched => cases hreq
  | saved | deleted => rfl

/-- Either a corpus cannot be fetched, and loading ends with that error, or all that decodes is
loaded. -/
theorem load_journaled (st : Storage σ) :
    (∃ kind e, .fetched (EntryKind.keyOf kind key) (.error e) ∈
      (load b.journaled key st.opened).2.events ∧ (load b key st).1 = .error e) ∨
    ∃ failing covering loaded, (load b key st).1 = .ok loaded ∧
      Loads key (load b.journaled key st.opened).2.events failing covering ∧
      DecodedFrom failing loaded.failing ∧ DecodedFrom covering loaded.covering ∧
      loaded.discarded = failing.countP undecodable + covering.countP undecodable := by
  have hbare : (load b key st).1 = (load b.journaled key st.opened).1 := by
    rw [← st.bare_opened, erases_load b key st.opened]
    rfl
  rw [hbare, load]
  rcases loadKind_journaled b key .failing st.opened with
    ⟨e, st₁, h₁, e₁⟩ | ⟨failing, deletions₁, st₁, h₁, e₁, hd₁⟩
  · rw [StoreM.bind_of_error h₁, e₁]
    exact .inl ⟨.failing, e, by simp, rfl⟩
  · rw [StoreM.bind_of_ok h₁]
    dsimp only
    rcases loadKind_journaled b key .covering st₁ with
      ⟨e, st₂, h₂, e₂⟩ | ⟨covering, deletions₂, st₂, h₂, e₂, hd₂⟩
    · rw [StoreM.bind_of_error h₂, e₂]
      exact .inl ⟨.covering, e, by simp, rfl⟩
    · rw [StoreM.bind_of_ok h₂]
      refine .inr ⟨failing, covering, _, rfl, ?_, decodedFrom_sortDraws failing,
        decodedFrom_sortDraws covering, rfl⟩
      have hevents : st₂.events =
          .fetched (EntryKind.failing.keyOf key) (.ok failing) :: deletions₁ ++
            .fetched (EntryKind.covering.keyOf key) (.ok covering) :: deletions₂ := by
        rw [e₂, e₁]
        rfl
      change Loads key st₂.events failing covering
      refine ⟨?_, ?_⟩
      · simp [hevents, StoreEvent.fetched?, filterMap_fetched_discards key .failing hd₁,
          filterMap_fetched_discards key .covering hd₂]
      · rw [hevents, List.map_append, List.map_cons, List.map_cons, hd₁, hd₂]
        rfl

/-- Loading saves nothing. -/
theorem enters_load (key' : Key) :
    Journal.Enters (StoreEvent.Spares key') (load b.journaled key) := by
  have hkind : ∀ kind, Journal.Enters (StoreEvent.Spares key') (loadKind b.journaled key kind) := by
    intro kind st
    rcases loadKind_journaled b key kind st with
      ⟨e, st', h, he⟩ | ⟨entries, deletions, st', h, he, hd⟩ <;> rw [h]
    · exact ⟨_, he, fun event hm => List.mem_singleton.1 hm ▸ nofun⟩
    · refine ⟨_, he, List.forall_mem_cons.2 ⟨nofun, fun event hm value hsave => ?_⟩⟩
      have hreq : event.request ∈ discards key kind entries := hd ▸ List.mem_map_of_mem hm
      obtain ⟨entry, -, hdelete⟩ := List.mem_map.1 hreq
      cases hdelete.trans hsave
  exact (hkind .failing).bind fun _ => (hkind .covering).bind fun _ => .pure _

/-- As long as both corpora can be fetched, all that decodes is loaded, each sequence as often as it
was fetched and the simplest first, and the rest is counted; whatever becomes of them, deletions are
asked for exactly of the rest, each from where it was fetched. -/
theorem load_keeps_decodable (st : Storage σ)
    (h : ∀ key' e, .fetched key' (.error e) ∉ (load b.journaled key st.opened).2.events) :
    ∃ failing covering loaded, (load b key st).1 = .ok loaded ∧
      Loads key (load b.journaled key st.opened).2.events failing covering ∧
      DecodedFrom failing loaded.failing ∧ DecodedFrom covering loaded.covering ∧
      loaded.discarded = failing.countP undecodable + covering.countP undecodable := by
  rcases load_journaled b key st with ⟨kind, e, he, -⟩ | hloaded
  · exact absurd he (h _ e)
  · exact hloaded

/-- A store that turns down whatever would change it. -/
def readOnly (failing covering : List Bytes) : Backend Unit where
  save _ _ := throw (.refused .save)
  fetch key := pure (if key.subKey = none then failing else covering)
  delete _ _ := throw (.refused .delete)

/-- Two entries cannot be deleted, and the sequence between them is loaded nevertheless. -/
theorem load_keeps_decodable_readOnly :
    let b := readOnly [[0], serialize [⟨7, 99⟩], [1]] []
    let key : Key := ⟨Vector.replicate 32 0, none⟩
    let events := (load b.journaled key (⟨(), #[]⟩ : Storage Unit).opened).2.events
    (∀ key' e, .fetched key' (.error e) ∉ events) ∧
      events.map StoreEvent.request = [.fetch key, .delete key [0], .delete key [1],
        .fetch (key.withSubKey "covering")] ∧
      ∃ loaded, (load b key ⟨(), #[]⟩).1 = .ok loaded ∧ loaded.failing = [[⟨7, 99⟩]] ∧
        loaded.covering = [] ∧ loaded.discarded = 2 := by
  intro b key events
  have hevents : events = [.fetched key (.ok [[0], serialize [⟨7, 99⟩], [1]]),
      .deleted key [0] (.error (.refused .delete)), .deleted key [1] (.error (.refused .delete)),
      .fetched (key.withSubKey "covering") (.ok [])] := rfl
  have hfetch : ∀ key' e, .fetched key' (.error e) ∉ events := by
    intro key' e
    simp [hevents]
  obtain ⟨failing, covering, loaded, hload, hcalls, hfailing, hcovering, hdiscarded⟩ :=
    load_keeps_decodable b key ⟨(), #[]⟩ hfetch
  have hfetched : [(key, Except.ok [[0], serialize [⟨7, 99⟩], [1]]),
      (key.withSubKey "covering", .ok [])] = _ := hcalls.fetched
  simp only [List.cons.injEq, Prod.mk.injEq, Except.ok.injEq] at hfetched
  obtain ⟨⟨-, rfl⟩, ⟨-, rfl⟩, -⟩ := hfetched
  refine ⟨hfetch, ?_, loaded, hload, ?_, ?_, ?_⟩
  · rw [hevents]
    rfl
  · exact List.perm_singleton.1 hfailing.perm
  · exact List.perm_nil.1 hcovering.perm
  · exact hdiscarded

end Examples

end Falsify
