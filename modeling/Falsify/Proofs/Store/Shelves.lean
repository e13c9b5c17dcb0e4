import Mathlib.Data.Finset.Card
import Mathlib.Data.List.Nodup
import Falsify.Proofs.Shrink.Neighbours
import Falsify.Proofs.Store.Memory

/-!
# Examples are a pair of sets for each test

Seen from outside, the examples in memory are shelves (`Shelves`): for each test and each corpus a
finite set of sequences. Every operation does to the shelves what its name says (`ExampleOp.effect`)
and tells of them what is there (`ExampleOp.Answers`), however operations on many tests are mixed.

* `Draws.simpler_iff_rank_lt`: sequences are ordered by their rank;
* `Memory.Holds`: a memory that holds the encodings of what is on the shelves, each once;
* `Holds.insert`, `Holds.erase`, `Holds.load`: what saving, deleting and loading do to that;
* `perform_holds`, `performAll_holds`: an operation, and any number of them;
* `examples_are_shelves`: the theorem.
-/

namespace Falsify

/-! ## The order of sequences -/

namespace Draws

/-- Of two sequences with different values one is simpler. -/
theorem simpler_trichotomy (s t : Draws) : s.Simpler t ∨ s.values = t.values ∨ t.Simpler s := by
  rcases Nat.lt_trichotomy s.length t.length with h | h | h
  · exact .inl (.inl h)
  · by_cases hs : s.values < t.values
    · exact .inl (.inr ⟨h, hs⟩)
    · by_cases ht : t.values < s.values
      · exact .inr (.inr (.inr ⟨h.symm, ht⟩))
      · exact .inr (.inl (List.le_antisymm (List.not_lt.1 ht) (List.not_lt.1 hs)))
  · exact .inr (.inr (.inl h))

theorem simpler_iff_rank_lt {s t : Draws} : s.Simpler t ↔ s.rank < t.rank := by
  refine ⟨rank_lt_of_simpler, fun h => ?_⟩
  rcases simpler_trichotomy s t with hs | hv | ht
  · exact hs
  · rw [rank, rank, hv] at h
    exact absurd h (Nat.lt_irrefl _)
  · exact absurd (rank_lt_of_simpler ht) (Nat.lt_asymm h)

theorem simplerOrEquivalent_iff {s t : Draws} :
    s.simplerOrEquivalent t = true ↔ s.rank ≤ t.rank := by
  rw [simplerOrEquivalent, Bool.not_eq_true', decide_eq_false_iff_not, simpler_iff_rank_lt,
    Nat.not_lt]

end Draws

/-- Sequences are sorted by their order, the simplest first. -/
theorem pairwise_sortDraws (l : List Draws) :
    (sortDraws l).Pairwise fun s t => ¬ t.Simpler s := by
  have h : (sortDraws l).Pairwise fun s t => s.simplerOrEquivalent t = true :=
    List.pairwise_mergeSort
      (fun s t u hst htu => by
        rw [Draws.simplerOrEquivalent_iff] at *
        exact Nat.le_trans hst htu)
      (fun s t => by
        rw [Bool.or_eq_true, Draws.simplerOrEquivalent_iff, Draws.simplerOrEquivalent_iff]
        exact Nat.le_total _ _) l
  refine h.imp fun {s t} hst => ?_
  rw [Draws.simpler_iff_rank_lt]
  exact Nat.not_lt.2 (Draws.simplerOrEquivalent_iff.1 hst)

/-- A sequence that can be stored: it is well formed, and the header can hold its length. -/
def Draws.Storable (s : Draws) : Prop :=
  s.WellFormed ∧ s.length < 2 ^ 32

instance (s : Draws) : Decidable s.Storable :=
  inferInstanceAs (Decidable (_ ∧ _))

theorem Encoding.decode?_serialize {s : Draws} (h : s.Storable) : decode? (serialize s) = some s :=
  decode?_eq_some_iff.2 ⟨h.1, h.2, rfl⟩

theorem Encoding.serialize_inj {s t : Draws} (hs : s.Storable) (ht : t.Storable) :
    serialize s = serialize t ↔ s = t :=
  ⟨serialize_injective hs.1 ht.1, congrArg serialize⟩

/-! ## Shelves -/

/-- For each test and each corpus a finite set of sequences. -/
abbrev Shelves := Key → EntryKind → Finset Draws

namespace Shelves

/-- Nothing on any shelf. -/
def empty : Shelves := fun _ _ => ∅

/-- One shelf is changed, and all others stay. -/
def change (shelves : Shelves) (key : Key) (kind : EntryKind) (f : Finset Draws → Finset Draws) :
    Shelves := fun key' kind' =>
  if key' = key ∧ kind' = kind then f (shelves key' kind') else shelves key' kind'

theorem change_self (shelves : Shelves) (key : Key) (kind : EntryKind)
    (f : Finset Draws → Finset Draws) : shelves.change key kind f key kind = f (shelves key kind) :=
  if_pos ⟨rfl, rfl⟩

theorem change_of_ne (shelves : Shelves) {key key' : Key} {kind kind' : EntryKind}
    (f : Finset Draws → Finset Draws) (h : ¬ (key' = key ∧ kind' = kind)) :
    shelves.change key kind f key' kind' = shelves key' kind' :=
  if_neg h

theorem change_change (shelves : Shelves) (key : Key) (kind : EntryKind)
    (f g : Finset Draws → Finset Draws) :
    (shelves.change key kind f).change key kind g = shelves.change key kind fun S => g (f S) := by
  funext key' kind'
  unfold change
  split <;> rfl

end Shelves

/-- An operation on the examples of a test. -/
inductive ExampleOp where
  | save (key : Key) (s : Draws) (kind : EntryKind)
  | delete (key : Key) (s : Draws) (kind : EntryKind)
  | replace (key : Key) (old new : Draws) (kind : EntryKind)
  | demote (key : Key) (s : Draws)
  | count (key : Key) (kind : EntryKind)
  | load (key : Key)

/-- What an operation answers. -/
inductive ExampleAnswer where
  | done
  | counted (n : Nat)
  | loaded (examples : LoadedExamples)

namespace ExampleOp

/-- The test that an operation is about. -/
def key : ExampleOp → Key
  | save key _ _ | delete key _ _ | replace key _ _ _ | demote key _ | count key _ | load key => key

/-- The sequences that an operation is given. -/
def sequences : ExampleOp → List Draws
  | save _ s _ | delete _ s _ | demote _ s => [s]
  | replace _ old new _ => [old, new]
  | count _ _ | load _ => []

/-- The operation is about the main key of a test, and its sequences can be stored. -/
def Valid (op : ExampleOp) : Prop :=
  op.key.subKey = none ∧ ∀ s ∈ op.sequences, s.Storable

instance (op : ExampleOp) : Decidable op.Valid :=
  inferInstanceAs (Decidable (_ ∧ _))

/-- The operation on a backend. -/
def perform {σ : Type} (b : Backend σ) : ExampleOp → StoreM σ ExampleAnswer
  | save key s kind => do Examples.save b key s kind; return .done
  | delete key s kind => do Examples.delete b key s kind; return .done
  | replace key old new kind => do Examples.replace b key old new kind; return .done
  | demote key s => do Examples.demote b key s; return .done
  | count key kind => return .counted (← Examples.count b key kind)
  | load key => return .loaded (← Examples.load b key)

/-- What the operation does to the shelves. -/
def effect (shelves : Shelves) : ExampleOp → Shelves
  | save key s kind => shelves.change key kind (· ∪ {s})
  | delete key s kind => shelves.change key kind (· \ {s})
  | replace key old new kind => shelves.change key kind (· \ {old} ∪ {new})
  | demote key s => (shelves.change key .failing (· \ {s})).change key .covering (· ∪ {s})
  | count _ _ | load _ => shelves

end ExampleOp

/-- A list that has the members of a set, each once and the simplest first. -/
structure Lists (l : List Draws) (S : Finset Draws) : Prop where
  nodup : l.Nodup
  mem : ∀ s, s ∈ l ↔ s ∈ S
  sorted : l.Pairwise fun s t => ¬ t.Simpler s

/-- What an operation may answer when these are the shelves. -/
def ExampleOp.Answers (shelves : Shelves) : ExampleOp → ExampleAnswer → Prop
  | save _ _ _, .done | delete _ _ _, .done | replace _ _ _ _, .done | demote _ _, .done => True
  | count key kind, .counted n => n = (shelves key kind).card
  | load key, .loaded examples =>
    Lists examples.failing (shelves key .failing) ∧
      Lists examples.covering (shelves key .covering) ∧ examples.discarded = 0
  | _, _ => False

/-- What operations may answer one after another, from given shelves on. -/
def Answered : Shelves → List ExampleOp → List ExampleAnswer → Prop
  | _, [], [] => True
  | shelves, op :: ops, answer :: answers =>
    op.Answers shelves answer ∧ Answered (op.effect shelves) ops answers
  | _, _, _ => False

/-! ## Memories that hold shelves -/

theorem EntryKind.keyOf_eq_keyOf_iff {key key' : Key} (hk : key.subKey = none)
    (hk' : key'.subKey = none) {kind kind' : EntryKind} :
    kind.keyOf key = kind'.keyOf key' ↔ key = key' ∧ kind = kind' := by
  obtain ⟨fingerprint, _⟩ := key
  obtain ⟨fingerprint', _⟩ := key'
  cases hk
  cases hk'
  cases kind <;> cases kind' <;> simp [EntryKind.keyOf, Key.withSubKey]

/-- The memory holds the encodings of what is on the shelves. -/
structure Memory.Holds (m : Memory) (shelves : Shelves) : Prop where
  storable : ∀ key kind, ∀ s ∈ shelves key kind, s.Storable
  mem : ∀ key : Key, key.subKey = none → ∀ (kind : EntryKind) (b : Bytes),
    b ∈ m.valuesOf (kind.keyOf key) ↔ ∃ s ∈ shelves key kind, Encoding.serialize s = b

namespace Memory.Holds

open Encoding

variable {m : Memory} {shelves : Shelves} {key : Key} {kind : EntryKind} {s : Draws}

theorem empty : Memory.empty.Holds Shelves.empty where
  storable := fun _ _ _ hs => absurd hs (Finset.notMem_empty _)
  mem := fun _ _ _ b => by simp [Memory.empty, valuesOf, Shelves.empty]

/-- Saving puts a sequence on its shelf. -/
theorem insert (h : m.Holds shelves) (hk : key.subKey = none) (hs : s.Storable) :
    (m.insert (kind.keyOf key) (serialize s)).Holds (shelves.change key kind (· ∪ {s})) where
  storable := fun key' kind' t ht => by
    unfold Shelves.change at ht
    split at ht
    · rcases Finset.mem_union.1 ht with ht | ht
      · exact h.storable _ _ t ht
      · rwa [Finset.mem_singleton.1 ht]
    · exact h.storable _ _ t ht
  mem := fun key' hk' kind' b => by
    rw [mem_valuesOf_insert, h.mem key' hk', EntryKind.keyOf_eq_keyOf_iff hk' hk]
    by_cases he : key' = key ∧ kind' = kind
    · obtain ⟨rfl, rfl⟩ := he
      rw [Shelves.change_self]
      simp [or_and_right, exists_or, eq_comm, or_comm]
    · rw [shelves.change_of_ne _ he]
      simp [he]

/-- Deleting takes a sequence from its shelf. -/
theorem erase (h : m.Holds shelves) (hk : key.subKey = none) (hs : s.Storable) :
    (m.erase (kind.keyOf key) (serialize s)).Holds (shelves.change key kind (· \ {s})) where
  storable := fun key' kind' t ht => by
    unfold Shelves.change at ht
    split at ht
    · exact h.storable _ _ t (Finset.mem_sdiff.1 ht).1
    · exact h.storable _ _ t ht
  mem := fun key' hk' kind' b => by
    rw [valuesOf_erase]
    by_cases he : key' = key ∧ kind' = kind
    · obtain ⟨rfl, rfl⟩ := he
      rw [if_pos rfl, Shelves.change_self, List.mem_filter, h.mem key' hk']
      constructor
      · rintro ⟨⟨t, ht, rfl⟩, hne⟩
        refine ⟨t, Finset.mem_sdiff.2 ⟨ht, fun hts => ?_⟩, rfl⟩
        rw [Finset.mem_singleton.1 hts] at hne
        simp at hne
      · rintro ⟨t, ht, rfl⟩
        obtain ⟨ht, hts⟩ := Finset.mem_sdiff.1 ht
        refine ⟨⟨t, ht, rfl⟩, decide_eq_true fun he => hts ?_⟩
        exact Finset.mem_singleton.2 ((serialize_inj (h.storable _ _ t ht) hs).1 he)
    · rw [if_neg (mt (EntryKind.keyOf_eq_keyOf_iff hk' hk).1 he), shelves.change_of_ne _ he,
        h.mem key' hk']

/-- What is held decodes. -/
theorem isSome_decode? (h : m.Holds shelves) (hk : key.subKey = none) {b : Bytes}
    (hb : b ∈ m.valuesOf (kind.keyOf key)) : (decode? b).isSome = true := by
  obtain ⟨t, ht, rfl⟩ := (h.mem key hk kind b).1 hb
  rw [decode?_serialize (h.storable _ _ t ht)]
  rfl

theorem undecodable_eq_zero (h : m.Holds shelves) (hk : key.subKey = none) :
    m.undecodable key kind = 0 := by
  refine List.countP_eq_zero.2 fun b hb hn => ?_
  rw [← Option.not_isSome, h.isSome_decode? hk hb] at hn
  cases hn

/-- Reading a corpus back lists its shelf. -/
theorem lists_entries (h : m.Holds shelves) (hk : key.subKey = none) :
    Lists (m.entries key kind) (shelves key kind) where
  nodup := m.nodup_entries key kind
  mem := fun t => by
    rw [mem_entries, mem_corpus, h.mem key hk]
    constructor
    · rintro ⟨hw, hl, t', ht', he⟩
      rwa [← (serialize_inj (h.storable _ _ t' ht') ⟨hw, hl⟩).1 he]
    · intro ht
      obtain ⟨hw, hl⟩ := h.storable _ _ t ht
      exact ⟨hw, hl, t, ht, rfl⟩
  sorted := pairwise_sortDraws _

/-- A corpus has as many values as its shelf has members. -/
theorem length_valuesOf (h : m.Holds shelves) (hk : key.subKey = none) :
    (m.valuesOf (kind.keyOf key)).length = (shelves key kind).card := by
  have himage : (m.valuesOf (kind.keyOf key)).toFinset = (shelves key kind).image serialize := by
    ext b
    rw [List.mem_toFinset, h.mem key hk, Finset.mem_image]
  have hinj : Set.InjOn serialize (shelves key kind) := fun s hs t ht he =>
    (serialize_inj (h.storable _ _ s hs) (h.storable _ _ t ht)).1 he
  rw [← List.toFinset_card_of_nodup (m.nodup_valuesOf _), himage, Finset.card_image_of_injOn hinj]

/-- Loading leaves all that is held. -/
theorem load (h : m.Holds shelves) {m' : Memory} (hk : key.subKey = none)
    (hv : ∀ kind : EntryKind, m'.valuesOf (kind.keyOf key) =
      (m.valuesOf (kind.keyOf key)).filter fun b => (decode? b).isSome)
    (ho : ∀ key', (∀ kind : EntryKind, key' ≠ kind.keyOf key) →
      m'.valuesOf key' = m.valuesOf key') : m'.Holds shelves := by
  have hsame : ∀ key', m'.valuesOf key' = m.valuesOf key' := fun key' => by
    by_cases he : ∃ kind : EntryKind, key' = kind.keyOf key
    · obtain ⟨kind, rfl⟩ := he
      rw [hv, List.filter_eq_self]
      exact fun b hb => h.isSome_decode? hk hb
    · exact ho key' fun kind hkind => he ⟨kind, hkind⟩
  refine ⟨h.storable, fun key' hk' kind b => ?_⟩
  rw [hsame]
  exact h.mem key' hk' kind b

end Memory.Holds

/-! ## Operations -/

/-- An operation does to a memory what it does to the shelves, and answers for them. -/
theorem perform_holds {op : ExampleOp} {shelves : Shelves} {st : Storage Memory} (hop : op.Valid)
    (h : st.contents.Holds shelves) :
    ∃ answer st', op.perform memoryBackend st = (.ok answer, st') ∧
      op.Answers shelves answer ∧ st'.contents.Holds (op.effect shelves) := by
  obtain ⟨hk, hs⟩ := hop
  cases op with
  | save key s kind =>
    exact ⟨.done, _, StoreM.bind_of_ok (Examples.save_memory key s kind st), trivial,
      h.insert hk (hs s List.mem_cons_self)⟩
  | delete key s kind =>
    exact ⟨.done, _, StoreM.bind_of_ok (rfl : Examples.delete memoryBackend key s kind st = _),
      trivial, h.erase hk (hs s List.mem_cons_self)⟩
  | replace key old new kind =>
    refine ⟨.done, _, StoreM.bind_of_ok (Examples.replace_memory key old new kind st), trivial, ?_⟩
    have hold := hs old List.mem_cons_self
    have hnew := hs new (List.mem_cons_of_mem _ List.mem_cons_self)
    dsimp only
    split
    · rename_i he
      subst he
      show Memory.Holds _ (shelves.change key kind fun S => S \ {old} ∪ {old})
      simp only [Finset.sdiff_union_self_eq_union]
      exact h.insert hk hold
    · have herase : Memory.Holds _ (shelves.change key kind (· \ {old})) := h.erase hk hold
      have hheld :
          Memory.Holds _ ((shelves.change key kind (· \ {old})).change key kind (· ∪ {new})) :=
        herase.insert hk hnew
      rwa [Shelves.change_change] at hheld
  | demote key s =>
    have hs := hs s List.mem_cons_self
    exact ⟨.done, _, StoreM.bind_of_ok (Examples.demote_memory key s st), trivial,
      (h.erase hk hs).insert hk hs⟩
  | count key kind =>
    exact ⟨_, st, StoreM.bind_of_ok (rfl : Examples.count memoryBackend key kind st = _),
      h.length_valuesOf hk, h⟩
  | load key =>
    obtain ⟨st', hl, hv, ho⟩ := Examples.load_memory hk st
    refine ⟨_, st', StoreM.bind_of_ok hl, ⟨h.lists_entries hk, h.lists_entries hk, ?_⟩,
      h.load hk hv ho⟩
    show _ + _ = 0
    rw [h.undecodable_eq_zero hk, h.undecodable_eq_zero hk]

/-- Operations one after another do what they do to the shelves, and answer for them. -/
theorem performAll_holds {ops : List ExampleOp} {shelves : Shelves} {st : Storage Memory}
    (hops : ∀ op ∈ ops, op.Valid) (h : st.contents.Holds shelves) :
    ∃ answers st', ops.mapM (ExampleOp.perform memoryBackend) st = (.ok answers, st') ∧
      Answered shelves ops answers ∧ st'.contents.Holds (ops.foldl ExampleOp.effect shelves) := by
  induction ops generalizing shelves st with
  | nil => exact ⟨[], st, rfl, trivial, h⟩
  | cons op ops ih =>
    obtain ⟨hop, hops⟩ := List.forall_mem_cons.1 hops
    obtain ⟨answer, st₁, h₁, ha, hh⟩ := perform_holds hop h
    obtain ⟨answers, st₂, h₂, has, hh'⟩ := ih hops hh
    refine ⟨answer :: answers, st₂, ?_, ⟨ha, has⟩, hh'⟩
    rw [List.mapM_cons, StoreM.bind_of_ok h₁, StoreM.bind_of_ok h₂]
    rfl

/-- In memory the examples of all tests are shelves: from an empty memory on, operations in any order
on any tests succeed, and answer as if each did to its own shelf what its name says and nothing to any
other. -/
theorem examples_are_shelves (ops : List ExampleOp) (hops : ∀ op ∈ ops, op.Valid) (log : Log) :
    ∃ answers st, ops.mapM (ExampleOp.perform memoryBackend) ⟨Memory.empty, log⟩ =
        (.ok answers, st) ∧
      Answered Shelves.empty ops answers ∧
      st.contents.Holds (ops.foldl ExampleOp.effect Shelves.empty) :=
  performAll_holds hops Memory.Holds.empty

theorem examples_are_shelves_demoted :
    let key : Key := ⟨Vector.replicate 32 0, none⟩
    let other : Key := ⟨Vector.replicate 32 1, none⟩
    let ops : List ExampleOp := [.save key [⟨8, 5⟩] .failing, .save other [⟨8, 5⟩] .failing,
      .replace key [⟨8, 5⟩] [⟨8, 3⟩] .failing, .demote key [⟨8, 3⟩], .demote key [⟨1, 1⟩],
      .delete other [⟨8, 5⟩] .failing, .count key .covering, .load key, .load other]
    (∀ op ∈ ops, op.Valid) ∧
      ∃ answers st, ops.mapM (ExampleOp.perform memoryBackend) ⟨Memory.empty, #[]⟩ =
          (.ok answers, st) ∧
        Answered Shelves.empty ops answers ∧
        st.contents.Holds (ops.foldl ExampleOp.effect Shelves.empty) := by
  intro key other ops
  have hops : ∀ op ∈ ops, op.Valid := by decide
  exact ⟨hops, examples_are_shelves ops hops #[]⟩

end Falsify
