import Mathlib.Data.List.Nodup
import Mathlib.Order.BooleanAlgebra.Set
import Falsify.Proofs.Encoding.Canonical
import Falsify.Store.Examples
import Falsify.Store.Memory

/-!
# Examples in memory

In memory the examples of a test are two sets of byte strings, and each operation on them does
to these sets what its name says.

* `Memory.corpus`, `Memory.entries`: the two sets of a test, and what is loaded of them;
* `Memory.corpus_insert`, `Memory.corpus_erase`: what saving and deleting do to them;
* `Examples.load_memory`: loading gives the sequences that decode, and leaves nothing else
  behind;
* `Examples.silent_load`: none of that depends on the log.
-/

namespace Falsify

namespace Encoding

/-- The sequence that a byte string stands for, if it stands for one. -/
def decode? (bytes : Bytes) : Option Draws :=
  (deserialize bytes).toOption

theorem decode?_eq_some_iff {bytes : Bytes} {s : Draws} :
    decode? bytes = some s ↔ s.WellFormed ∧ s.length < 2 ^ 32 ∧ bytes = serialize s := by
  rw [← (deserialize_eq_ok_iff bytes s).1, decode?]
  rcases deserialize bytes with e | t
  · exact ⟨nofun, nofun⟩
  · exact ⟨fun h => congrArg Except.ok (Option.some.inj h),
      fun h => congrArg some (Except.ok.inj h)⟩

/-- No draw's bytes are the front of another's: by induction on the draws. -/
theorem flatMap_serializeDraw_injective {s t : Draws} (hs : s.WellFormed) (ht : t.WellFormed)
    (h : s.flatMap serializeDraw = t.flatMap serializeDraw) : s = t := by
  induction s generalizing t with
  | nil =>
    cases t with
    | nil => rfl
    | cons d t => cases h
  | cons d s ih =>
    cases t with
    | nil => cases h
    | cons d' t =>
      obtain ⟨hd, hs'⟩ := List.forall_mem_cons.1 hs
      obtain ⟨hd', ht'⟩ := List.forall_mem_cons.1 ht
      rw [List.flatMap_cons, List.flatMap_cons] at h
      have hread := (readDraw_eq_ok_iff.2 ⟨hd, rfl⟩).symm.trans (readDraw_eq_ok_iff.2 ⟨hd', h⟩)
      obtain ⟨rfl, hrest⟩ := Prod.mk.inj (Except.ok.inj hread)
      rw [ih hs' ht' hrest]

/-- Well-formed sequences with the same bytes are the same, however long they are. -/
theorem serialize_injective {s t : Draws} (hs : s.WellFormed) (ht : t.WellFormed)
    (h : serialize s = serialize t) : s = t :=
  flatMap_serializeDraw_injective hs ht
    (List.append_inj h (by rw [List.length_append, List.length_cons, length_bigEndian]; simp)).2

end Encoding

/-! ## Sets of values -/

/-- Where the entries of one key are left out, those of the others are found as before. -/
theorem find?_filter_ne {α β : Type} [DecidableEq α] (entries : List (α × β)) (a b : α) :
    (entries.filter fun c => c.1 ≠ a).find? (fun c => c.1 = b) =
      if b = a then none else entries.find? fun c => c.1 = b := by
  rw [List.find?_filter]
  split
  · rename_i h
    subst h
    simp
  · rename_i h
    refine congrArg (fun p => entries.find? p) (funext fun c => ?_)
    by_cases hc : c.1 = b
    · simp [hc, h]
    · simp [hc]

namespace Memory

theorem find?_without (m : Memory) (key key' : Key) :
    (m.without key).corpora.find? (fun c => c.1 = key') =
      if key' = key then none else m.corpora.find? fun c => c.1 = key' :=
  find?_filter_ne m.corpora key key'

theorem valuesOf_setValues (m : Memory) (key key' : Key) {values : List Bytes}
    (nodup : values.Nodup) : (m.setValues key values nodup).valuesOf key' =
      if key' = key then values else m.valuesOf key' := by
  unfold setValues valuesOf
  split
  · rename_i hv
    rw [find?_without, hv]
    split <;> rfl
  · rw [List.find?_append, find?_without]
    by_cases h : key' = key
    · simp [h]
    · simp [h, Ne.symm h]

theorem valuesOf_insert (m : Memory) (key key' : Key) (value : Bytes) :
    (m.insert key value).valuesOf key' =
      if key' = key ∧ value ∉ m.valuesOf key' then m.valuesOf key' ++ [value]
      else m.valuesOf key' := by
  unfold insert
  by_cases hv : value ∈ m.valuesOf key
  · rw [dif_pos hv, if_neg]
    rintro ⟨rfl, hn⟩
    exact hn hv
  · rw [dif_neg hv, valuesOf_setValues]
    by_cases hk : key' = key
    · subst hk
      rw [if_pos rfl, if_pos ⟨rfl, hv⟩]
    · rw [if_neg hk, if_neg fun h => hk h.1]

theorem mem_valuesOf_insert {m : Memory} {key key' : Key} {value b : Bytes} :
    b ∈ (m.insert key value).valuesOf key' ↔
      b ∈ m.valuesOf key' ∨ key' = key ∧ b = value := by
  rw [valuesOf_insert]
  split
  · rename_i h
    simp [h.1]
  · rename_i h
    refine ⟨.inl, ?_⟩
    rintro (hb | ⟨rfl, rfl⟩)
    · exact hb
    · by_contra hn
      exact h ⟨rfl, hn⟩

theorem mem_valuesOf_of_insert_eq {m : Memory} {key : Key} {value : Bytes}
    (h : m.insert key value = m) : value ∈ m.valuesOf key :=
  h ▸ mem_valuesOf_insert.2 (.inr ⟨rfl, rfl⟩)

theorem valuesOf_erase (m : Memory) (key key' : Key) (value : Bytes) :
    (m.erase key value).valuesOf key' =
      if key' = key then (m.valuesOf key').filter (· ≠ value) else m.valuesOf key' := by
  rw [erase, valuesOf_setValues]
  split
  · rename_i h
    rw [h]
  · rfl

/-- The values of a corpus of a test, as a set. -/
def corpus (m : Memory) (key : Key) (kind : EntryKind) : Set Bytes :=
  {b | b ∈ m.valuesOf (kind.keyOf key)}

/-- The sequences of a corpus of a test, as they are loaded. -/
def entries (m : Memory) (key : Key) (kind : EntryKind) : List Draws :=
  sortDraws ((m.valuesOf (kind.keyOf key)).filterMap Encoding.decode?)

/-- Different values stand for different sequences. -/
theorem nodup_entries (m : Memory) (key : Key) (kind : EntryKind) :
    (m.entries key kind).Nodup := by
  refine (List.mergeSort_perm _ _).nodup_iff.2 (List.Nodup.filterMap ?_ (m.nodup_valuesOf _))
  intro b b' t hb hb'
  obtain ⟨-, -, rfl⟩ := Encoding.decode?_eq_some_iff.1 hb
  obtain ⟨-, -, rfl⟩ := Encoding.decode?_eq_some_iff.1 hb'
  rfl

/-- How many values of a corpus of a test do not decode. -/
def undecodable (m : Memory) (key : Key) (kind : EntryKind) : Nat :=
  (m.valuesOf (kind.keyOf key)).countP fun b => (Encoding.decode? b).isNone

/-- The two corpora of a test have different keys. -/
theorem keyOf_inj {key : Key} (hk : key.subKey = none) {kind kind' : EntryKind} :
    kind.keyOf key = kind'.keyOf key ↔ kind = kind' := by
  refine ⟨fun h => ?_, congrArg (EntryKind.keyOf · key)⟩
  have h := congrArg Key.subKey h
  cases kind <;> cases kind' <;> simp [EntryKind.keyOf, Key.withSubKey, hk] at h <;> rfl

theorem mem_corpus {m : Memory} {key : Key} {kind : EntryKind} {b : Bytes} :
    b ∈ m.corpus key kind ↔ b ∈ m.valuesOf (kind.keyOf key) := Iff.rfl

section Corpora

variable {key : Key} (hk : key.subKey = none) (m : Memory) (kind : EntryKind) (b : Bytes)

include hk

theorem corpus_insert : (m.insert (kind.keyOf key) b).corpus key =
    Function.update (m.corpus key) kind (m.corpus key kind ∪ {b}) := by
  funext kind'
  ext b'
  rw [mem_corpus, mem_valuesOf_insert, keyOf_inj hk]
  rcases eq_or_ne kind' kind with rfl | h
  · rw [Function.update_self]
    simp [mem_corpus, or_comm]
  · rw [Function.update_of_ne h]
    simp [mem_corpus, h]

theorem corpus_erase : (m.erase (kind.keyOf key) b).corpus key =
    Function.update (m.corpus key) kind (m.corpus key kind \ {b}) := by
  funext kind'
  ext b'
  rw [mem_corpus, valuesOf_erase]
  rcases eq_or_ne kind' kind with rfl | h
  · rw [Function.update_self, if_pos rfl]
    simp [mem_corpus]
  · rw [Function.update_of_ne h, if_neg (mt (keyOf_inj hk).1 h), mem_corpus]

end Corpora

end Memory

/-! ## Operations on examples -/

theorem StoreM.bind_of_ok {σ α β : Type} {x : StoreM σ α} {f : α → StoreM σ β} {a : α}
    {st st' : Storage σ} (h : x st = (.ok a, st')) : (x >>= f) st = f a st' := by
  change (ExceptT.bindCont f (x st).1) (x st).2 = _
  rw [h]
  rfl

theorem StoreM.bind_of_error {σ α β : Type} {x : StoreM σ α} {f : α → StoreM σ β}
    {e : DatabaseError} {st st' : Storage σ} (h : x st = (.error e, st')) :
    (x >>= f) st = (.error e, st') := by
  change (ExceptT.bindCont f (x st).1) (x st).2 = _
  rw [h]
  rfl

namespace Examples

open Encoding Memory

theorem save_memory (key : Key) (s : Draws) (kind : EntryKind) (st : Storage Memory) :
    save memoryBackend key s kind st = (.ok (), { st with
      contents := st.contents.insert (kind.keyOf key) (Encoding.serialize s) }) := rfl

theorem demote_memory (key : Key) (s : Draws) (st : Storage Memory) :
    demote memoryBackend key s st = (.ok (), { st with
      contents := (st.contents.erase (EntryKind.failing.keyOf key) (Encoding.serialize s)).insert
        (EntryKind.covering.keyOf key) (Encoding.serialize s) }) := rfl

theorem replace_memory (key : Key) (old new : Draws) (kind : EntryKind) (st : Storage Memory) :
    replace memoryBackend key old new kind st = (.ok (), { st with
      contents :=
        if old = new then st.contents.insert (kind.keyOf key) (Encoding.serialize new)
        else (st.contents.erase (kind.keyOf key) (Encoding.serialize old)).insert (kind.keyOf key)
          (Encoding.serialize new) }) := by
  unfold replace
  split <;> rfl

theorem discard_memory (key : Key) (kind : EntryKind) (entry : Bytes) (fault : TokenError)
    (st : Storage Memory) : ∃ log, discard memoryBackend key kind entry fault st =
      (.ok (), ⟨st.contents.erase (kind.keyOf key) entry, log⟩) := ⟨_, rfl⟩

/-- What is left under a key once some entries under one were decoded: by induction on these
entries. -/
theorem decodeEntries_memory (key : Key) (kind : EntryKind) (entries : List Bytes)
    (st : Storage Memory) :
    ∃ st', decodeEntries memoryBackend key kind entries st =
      (.ok (entries.filterMap decode?, entries.countP fun b => (decode? b).isNone), st') ∧
      ∀ key', st'.contents.valuesOf key' =
        if key' = kind.keyOf key then
          (st.contents.valuesOf key').filter fun b => b ∉ entries ∨ (decode? b).isSome
        else st.contents.valuesOf key' := by
  induction entries generalizing st with
  | nil =>
    refine ⟨st, rfl, fun key' => ?_⟩
    split
    · exact (List.filter_eq_self.2 fun b _ => by simp).symm
    · rfl
  | cons entry rest ih =>
    rw [decodeEntries]
    rcases he : deserialize entry with fault | s
    · have hn : decode? entry = none := by rw [decode?, he]; rfl
      obtain ⟨log, hd⟩ := discard_memory key kind entry fault st
      obtain ⟨st', h, hv⟩ := ih ⟨st.contents.erase (kind.keyOf key) entry, log⟩
      refine ⟨st', ?_, fun key' => ?_⟩
      · dsimp only
        rw [StoreM.bind_of_ok hd, StoreM.bind_of_ok h, List.filterMap_cons_none hn,
          List.countP_cons_of_pos (by rw [hn]; rfl)]
        rfl
      · rw [hv, valuesOf_erase]
        split
        · rw [List.filter_filter]
          refine List.filter_congr fun b _ => ?_
          rcases eq_or_ne b entry with rfl | hb
          · simp [hn]
          · simp [hb]
        · rfl
    · have hs : decode? entry = some s := by rw [decode?, he]; rfl
      obtain ⟨st', h, hv⟩ := ih st
      refine ⟨st', ?_, fun key' => ?_⟩
      · dsimp only
        rw [StoreM.bind_of_ok h, List.filterMap_cons_some hs,
          List.countP_cons_of_neg (by rw [hs]; exact Bool.false_ne_true)]
        rfl
      · rw [hv]
        split
        · refine List.filter_congr fun b _ => ?_
          rcases eq_or_ne b entry with rfl | hb
          · simp [hs]
          · simp [hb]
        · rfl

/-- Loading a corpus gives the sequences in it, counts what does not decode, and leaves under its key
what does. -/
theorem loadKind_memory (key : Key) (kind : EntryKind) (st : Storage Memory) :
    ∃ st', loadKind memoryBackend key kind st =
      (.ok (st.contents.entries key kind, st.contents.undecodable key kind), st') ∧
      ∀ key', st'.contents.valuesOf key' =
        if key' = kind.keyOf key then
          (st.contents.valuesOf key').filter fun b => (decode? b).isSome
        else st.contents.valuesOf key' := by
  obtain ⟨st', h, hv⟩ :=
    decodeEntries_memory key kind (st.contents.valuesOf (kind.keyOf key)) st
  refine ⟨st', ?_, fun key' => ?_⟩
  · rw [loadKind, StoreM.bind_of_ok (rfl : memoryBackend.fetch (kind.keyOf key) st = _),
      StoreM.bind_of_ok h]
    rfl
  · rw [hv]
    split
    · rename_i hk
      subst hk
      refine List.filter_congr fun b hb => ?_
      simp [hb]
    · rfl

/-- Loading gives the sequences in both corpora, counts what does not decode, and leaves in each
corpus what does. -/
theorem load_memory {key : Key} (hk : key.subKey = none) (st : Storage Memory) :
    ∃ st', load memoryBackend key st =
      (.ok ⟨st.contents.entries key .failing, st.contents.entries key .covering,
        st.contents.undecodable key .failing + st.contents.undecodable key .covering⟩, st') ∧
      (∀ kind : EntryKind, st'.contents.valuesOf (kind.keyOf key) =
        (st.contents.valuesOf (kind.keyOf key)).filter fun b => (decode? b).isSome) ∧
      ∀ key', (∀ kind : EntryKind, key' ≠ kind.keyOf key) →
        st'.contents.valuesOf key' = st.contents.valuesOf key' := by
  obtain ⟨st₁, h₁, hv₁⟩ := loadKind_memory key .failing st
  obtain ⟨st₂, h₂, hv₂⟩ := loadKind_memory key .covering st₁
  have hne : EntryKind.covering.keyOf key ≠ EntryKind.failing.keyOf key := by
    simp [keyOf_inj hk]
  have hc : st₁.contents.valuesOf (EntryKind.covering.keyOf key) =
      st.contents.valuesOf (EntryKind.covering.keyOf key) := by
    rw [hv₁, if_neg hne]
  have he : st₁.contents.entries key .covering = st.contents.entries key .covering := by
    rw [Memory.entries, Memory.entries, hc]
  have hu : st₁.contents.undecodable key .covering = st.contents.undecodable key .covering := by
    rw [Memory.undecodable, Memory.undecodable, hc]
  refine ⟨st₂, ?_, fun kind => ?_, fun key' hkey => ?_⟩
  · rw [load, StoreM.bind_of_ok h₁]
    dsimp only
    rw [StoreM.bind_of_ok h₂, he, hu]
    rfl
  · rw [hv₂, hv₁]
    cases kind with
    | failing => rw [if_neg hne.symm, if_pos rfl]
    | covering => rw [if_pos rfl, if_neg hne]
  · rw [hv₂, hv₁, if_neg (hkey .covering), if_neg (hkey .failing)]

/-! ## The log does not matter -/

/-- What an operation answers and does to what is stored does not depend on the log. -/
def Silent {α : Type} (x : StoreM Memory α) : Prop :=
  ∀ st st' : Storage Memory, st'.contents = st.contents →
    (x st').1 = (x st).1 ∧ (x st').2.contents = (x st).2.contents

theorem Silent.bind {α β : Type} {x : StoreM Memory α} {f : α → StoreM Memory β} (hx : Silent x)
    (hf : ∀ a, Silent (f a)) : Silent (x >>= f) := by
  intro st st' h
  obtain ⟨hr, hc⟩ := hx st st' h
  change (ExceptT.bindCont f (x st').1 (x st').2).1 = (ExceptT.bindCont f (x st).1 (x st).2).1 ∧
    (ExceptT.bindCont f (x st').1 (x st').2).2.contents =
      (ExceptT.bindCont f (x st).1 (x st).2).2.contents
  rw [hr]
  rcases (x st).1 with e | a
  · exact ⟨rfl, hc⟩
  · exact hf a _ _ hc

theorem silent_pure {α : Type} (a : α) : Silent (pure a : StoreM Memory α) := fun _ _ h => ⟨rfl, h⟩

theorem silent_fetch (key : Key) : Silent (memoryBackend.fetch key) := fun st st' h => by
  refine ⟨?_, h⟩
  change Except.ok (st'.contents.valuesOf key) = Except.ok (st.contents.valuesOf key)
  rw [h]

theorem silent_discard (key : Key) (kind : EntryKind) (entry : Bytes) (fault : TokenError) :
    Silent (discard memoryBackend key kind entry fault) := by
  intro st st' h
  obtain ⟨log, hd⟩ := discard_memory key kind entry fault st
  obtain ⟨log', hd'⟩ := discard_memory key kind entry fault st'
  rw [hd, hd', h]
  exact ⟨rfl, rfl⟩

theorem silent_decodeEntries (key : Key) (kind : EntryKind) (entries : List Bytes) :
    Silent (decodeEntries memoryBackend key kind entries) := by
  induction entries with
  | nil => exact silent_pure _
  | cons entry rest ih =>
    rw [decodeEntries]
    split
    · exact ih.bind fun _ => silent_pure _
    · exact (silent_discard key kind entry _).bind fun _ => ih.bind fun _ => silent_pure _

theorem silent_load (key : Key) : Silent (load memoryBackend key) := by
  have hkind : ∀ kind, Silent (loadKind memoryBackend key kind) := fun kind =>
    (silent_fetch _).bind fun _ => (silent_decodeEntries key kind _).bind fun _ => silent_pure _
  exact (hkind .failing).bind fun _ => (hkind .covering).bind fun _ => silent_pure _

end Examples

/-- A sequence is loaded if it can be stored, and is. -/
theorem Memory.mem_entries {m : Memory} {key : Key} {kind : EntryKind} {s : Draws} :
    s ∈ m.entries key kind ↔
      s.WellFormed ∧ s.length < 2 ^ 32 ∧ Encoding.serialize s ∈ m.corpus key kind := by
  rw [entries, sortDraws, List.mem_mergeSort, List.mem_filterMap]
  constructor
  · rintro ⟨b, hb, hs⟩
    obtain ⟨hw, hl, rfl⟩ := Encoding.decode?_eq_some_iff.1 hs
    exact ⟨hw, hl, hb⟩
  · rintro ⟨hw, hl, hb⟩
    exact ⟨_, hb, Encoding.decode?_eq_some_iff.2 ⟨hw, hl, rfl⟩⟩

end Falsify
