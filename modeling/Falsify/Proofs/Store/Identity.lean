import Falsify.Proofs.Encoding.Token
import Falsify.Proofs.Store.Shelves

/-!
# The identity of a test

The key of a test is a digest of its identity: the bytes of its name with further bytes right behind
them. As nothing stands between the two, the bytes tell two identities apart only up to where the
name ends (`Key.ofFunction_eq_iff`), and two tests share a key if what one has more of in its name,
the other has at the front of its further bytes. Tests with different keys have nothing to do with
each other in a store: each is told what it would be told if it were alone there
(`ExampleOp.performAll_alone`).

* `Memory.SameCorpora`: memories that are the same for a test;
* `ExampleOp.perform_same`, `ExampleOp.perform_frame`: what an operation on the test does to two
  such memories, and one on another test to one;
* `ExampleOp.performAll_alone`: any number of operations, by induction on them;
* `Key.identities_apart`: the theorem.
-/

namespace Falsify

/-! ## One test among others -/

/-- The corpora of a test hold the same values in both memories. -/
def Memory.SameCorpora (key : Key) (m m' : Memory) : Prop :=
  ∀ kind : EntryKind, m.valuesOf (kind.keyOf key) = m'.valuesOf (kind.keyOf key)

namespace Memory.SameCorpora

variable {key other : Key} {m m' m'' : Memory}

theorem refl (key : Key) (m : Memory) : SameCorpora key m m := fun _ => rfl

theorem trans (h : SameCorpora key m m') (h' : SameCorpora key m' m'') : SameCorpora key m m'' :=
  fun kind => (h kind).trans (h' kind)

theorem insert (h : SameCorpora key m m') (place : Key) (value : Bytes) :
    SameCorpora key (m.insert place value) (m'.insert place value) := fun kind => by
  rw [valuesOf_insert, valuesOf_insert, h kind]

theorem erase (h : SameCorpora key m m') (place : Key) (value : Bytes) :
    SameCorpora key (m.erase place value) (m'.erase place value) := fun kind => by
  rw [valuesOf_erase, valuesOf_erase, h kind]

theorem entries_eq (h : SameCorpora key m m') (kind : EntryKind) :
    m.entries key kind = m'.entries key kind := by
  rw [entries, entries, h kind]

theorem undecodable_eq (h : SameCorpora key m m') (kind : EntryKind) :
    m.undecodable key kind = m'.undecodable key kind := by
  rw [undecodable, undecodable, h kind]

section Others

variable (hk : key.subKey = none) (ho : other.subKey = none) (hne : other ≠ key)

include hk ho hne

theorem insert_other (m : Memory) (kind : EntryKind) (value : Bytes) :
    SameCorpora key m (m.insert (kind.keyOf other) value) := fun kind' => by
  rw [valuesOf_insert, if_neg fun h => hne ((EntryKind.keyOf_eq_keyOf_iff hk ho).1 h.1).1.symm]

theorem erase_other (m : Memory) (kind : EntryKind) (value : Bytes) :
    SameCorpora key m (m.erase (kind.keyOf other) value) := fun kind' => by
  rw [valuesOf_erase, if_neg fun h => hne ((EntryKind.keyOf_eq_keyOf_iff hk ho).1 h).1.symm]

end Others

end Memory.SameCorpora

namespace ExampleOp

open Memory

/-- An operation on a test is answered the same, and leaves the same, in memories that are the same
for the test. -/
theorem perform_same {op : ExampleOp} (hop : op.key.subKey = none) {st alone : Storage Memory}
    (h : SameCorpora op.key st.contents alone.contents) :
    ∃ answer st' alone', op.perform memoryBackend st = (.ok answer, st') ∧
      op.perform memoryBackend alone = (.ok answer, alone') ∧
      SameCorpora op.key st'.contents alone'.contents := by
  cases op with
  | save key s kind =>
    exact ⟨.done, _, _, StoreM.bind_of_ok (Examples.save_memory key s kind st),
      StoreM.bind_of_ok (Examples.save_memory key s kind alone), h.insert _ _⟩
  | delete key s kind =>
    exact ⟨.done, _, _, StoreM.bind_of_ok (rfl : Examples.delete memoryBackend key s kind st = _),
      StoreM.bind_of_ok (rfl : Examples.delete memoryBackend key s kind alone = _), h.erase _ _⟩
  | replace key old new kind =>
    refine ⟨.done, _, _, StoreM.bind_of_ok (Examples.replace_memory key old new kind st),
      StoreM.bind_of_ok (Examples.replace_memory key old new kind alone), ?_⟩
    dsimp only
    split
    · exact h.insert _ _
    · exact (h.erase _ _).insert _ _
  | demote key s =>
    exact ⟨.done, _, _, StoreM.bind_of_ok (Examples.demote_memory key s st),
      StoreM.bind_of_ok (Examples.demote_memory key s alone), (h.erase _ _).insert _ _⟩
  | count key kind =>
    have hcount : (st.contents.valuesOf (kind.keyOf key)).length =
        (alone.contents.valuesOf (kind.keyOf key)).length := congrArg _ (h kind)
    refine ⟨_, st, alone, StoreM.bind_of_ok (rfl : Examples.count memoryBackend key kind st = _),
      ?_, h⟩
    rw [hcount]
    exact StoreM.bind_of_ok (rfl : Examples.count memoryBackend key kind alone = _)
  | load key =>
    obtain ⟨st', hl, hv, -⟩ := Examples.load_memory hop st
    obtain ⟨alone', hl', hv', -⟩ := Examples.load_memory hop alone
    refine ⟨_, st', alone', StoreM.bind_of_ok hl, ?_, fun kind => ?_⟩
    · rw [h.entries_eq, h.entries_eq, h.undecodable_eq, h.undecodable_eq]
      exact StoreM.bind_of_ok hl'
    · rw [hv, hv', h kind]

/-- An operation on one test leaves the corpora of all others as they are. -/
theorem perform_frame {op : ExampleOp} {key : Key} (hop : op.key.subKey = none)
    (hk : key.subKey = none) (hne : op.key ≠ key) (st : Storage Memory) :
    ∃ answer st', op.perform memoryBackend st = (.ok answer, st') ∧
      SameCorpora key st.contents st'.contents := by
  have hinsert := SameCorpora.insert_other hk hop hne
  have herase := SameCorpora.erase_other hk hop hne
  cases op with
  | save other s kind =>
    exact ⟨.done, _, StoreM.bind_of_ok (Examples.save_memory other s kind st), hinsert _ _ _⟩
  | delete other s kind =>
    exact ⟨.done, _, StoreM.bind_of_ok (rfl : Examples.delete memoryBackend other s kind st = _),
      herase _ _ _⟩
  | replace other old new kind =>
    refine ⟨.done, _, StoreM.bind_of_ok (Examples.replace_memory other old new kind st), ?_⟩
    dsimp only
    split
    · exact hinsert _ _ _
    · exact (herase _ _ _).trans (hinsert _ _ _)
  | demote other s =>
    exact ⟨.done, _, StoreM.bind_of_ok (Examples.demote_memory other s st),
      (herase _ _ _).trans (hinsert _ _ _)⟩
  | count other kind =>
    exact ⟨_, st, StoreM.bind_of_ok (rfl : Examples.count memoryBackend other kind st = _),
      .refl key _⟩
  | load other =>
    obtain ⟨st', hl, -, ho⟩ := Examples.load_memory hop st
    refine ⟨_, st', StoreM.bind_of_ok hl, fun kind => (ho _ fun kind' he => ?_).symm⟩
    exact hne ((EntryKind.keyOf_eq_keyOf_iff hk hop).1 he).1.symm

/-- One operation, and then any number of them. -/
theorem performAll_cons {op : ExampleOp} {ops : List ExampleOp} {answer : ExampleAnswer}
    {answers : List ExampleAnswer} {st st₁ st₂ : Storage Memory}
    (h : op.perform memoryBackend st = (.ok answer, st₁))
    (hs : ops.mapM (perform memoryBackend) st₁ = (.ok answers, st₂)) :
    (op :: ops).mapM (perform memoryBackend) st = (.ok (answer :: answers), st₂) := by
  rw [List.mapM_cons, StoreM.bind_of_ok h, StoreM.bind_of_ok hs]
  rfl

/-- Of the answers to operations on any tests, those to the operations on one. -/
def answersFor (key : Key) (ops : List ExampleOp) (answers : List ExampleAnswer) :
    List ExampleAnswer :=
  ((ops.zip answers).filter fun answered => answered.1.key = key).map Prod.snd

theorem answersFor_own (op : ExampleOp) (ops : List ExampleOp) (answer : ExampleAnswer)
    (answers : List ExampleAnswer) : answersFor op.key (op :: ops) (answer :: answers) =
      answer :: answersFor op.key ops answers := by
  rw [answersFor, List.zip_cons_cons, List.filter_cons_of_pos (by simp)]
  rfl

theorem answersFor_other {key : Key} {op : ExampleOp} (h : op.key ≠ key) (ops : List ExampleOp)
    (answer : ExampleAnswer) (answers : List ExampleAnswer) :
    answersFor key (op :: ops) (answer :: answers) = answersFor key ops answers := by
  rw [answersFor, List.zip_cons_cons, List.filter_cons_of_neg (by simpa using h)]
  rfl

/-- A test is told what it would be told if no other test used the store: by induction on the
operations, with the memory of all tests and that of the one test side by side. -/
theorem performAll_alone {key : Key} (hk : key.subKey = none) {ops : List ExampleOp}
    (hops : ∀ op ∈ ops, op.key.subKey = none) {st alone : Storage Memory}
    (h : SameCorpora key st.contents alone.contents) :
    ∃ answers st' alone', ops.mapM (perform memoryBackend) st = (.ok answers, st') ∧
      (ops.filter fun op => op.key = key).mapM (perform memoryBackend) alone =
        (.ok (answersFor key ops answers), alone') ∧
      SameCorpora key st'.contents alone'.contents := by
  induction ops generalizing st alone with
  | nil => exact ⟨[], st, alone, rfl, rfl, h⟩
  | cons op ops ih =>
    obtain ⟨hop, hops⟩ := List.forall_mem_cons.1 hops
    by_cases hkey : op.key = key
    · subst hkey
      obtain ⟨answer, st₁, alone₁, hst, halone, h₁⟩ := perform_same hop h
      obtain ⟨answers, st₂, alone₂, hst', halone', h₂⟩ := ih hops h₁
      refine ⟨answer :: answers, st₂, alone₂, performAll_cons hst hst', ?_, h₂⟩
      rw [List.filter_cons_of_pos (by simp), answersFor_own]
      exact performAll_cons halone halone'
    · obtain ⟨answer, st₁, hst, hframe⟩ := perform_frame hop hk hkey st
      have h₁ : SameCorpora key st₁.contents alone.contents := fun kind =>
        (hframe kind).symm.trans (h kind)
      obtain ⟨answers, st₂, alone₂, hst', halone', h₂⟩ := ih hops h₁
      refine ⟨answer :: answers, st₂, alone₂, performAll_cons hst hst', ?_, h₂⟩
      rwa [List.filter_cons_of_neg (by simpa using hkey), answersFor_other hkey]

/-- What has been saved is loaded, where there was nothing else. -/
theorem load_saved {key : Key} (hk : key.subKey = none) {s : Draws} (hs : s.Storable) (log : Log) :
    ∃ st, [save key s .failing, load key].mapM (perform memoryBackend) ⟨Memory.empty, log⟩ =
      (.ok [.done, .loaded ⟨[s], [], 0⟩], st) := by
  have hsave : (save key s .failing).perform memoryBackend ⟨Memory.empty, log⟩ =
      (.ok .done, ⟨Memory.empty.insert key (Encoding.serialize s), log⟩) :=
    StoreM.bind_of_ok (Examples.save_memory key s .failing _)
  obtain ⟨st, hload, -⟩ :=
    Examples.load_memory hk ⟨Memory.empty.insert key (Encoding.serialize s), log⟩
  have hfailing : (Memory.empty.insert key (Encoding.serialize s)).valuesOf
      (EntryKind.failing.keyOf key) = [Encoding.serialize s] := by
    rw [valuesOf_insert, if_pos ⟨rfl, List.not_mem_nil⟩]
    rfl
  have hcovering : (Memory.empty.insert key (Encoding.serialize s)).valuesOf
      (EntryKind.covering.keyOf key) = [] := by
    have hne : EntryKind.covering.keyOf key ≠ EntryKind.failing.keyOf key := by simp [keyOf_inj hk]
    rw [valuesOf_insert, if_neg fun h => hne h.1]
    rfl
  simp only [entries, undecodable, hfailing, hcovering, List.filterMap_cons, List.filterMap_nil,
    List.countP_singleton, List.countP_nil, Encoding.decode?_serialize hs, sortDraws,
    List.mergeSort_singleton, List.mergeSort_nil] at hload
  exact ⟨st, performAll_cons hsave (performAll_cons (StoreM.bind_of_ok hload) rfl)⟩

end ExampleOp

/-! ## Keys of identities -/

namespace Key

variable {name name' : String} {extra extra' : Bytes}

/-- The digests of two messages do not collide. -/
def NoCollision (message message' : Bytes) : Prop :=
  Sha256.digest message = Sha256.digest message' → message = message'

/-- Keys are as different as the bytes that are digested. -/
theorem ofFunction_eq_iff (h : NoCollision (utf8 name ++ extra) (utf8 name' ++ extra')) :
    ofFunction name extra = ofFunction name' extra' ↔
      utf8 name ++ extra = utf8 name' ++ extra' := by
  refine ⟨fun heq => h (congrArg fingerprint heq), fun heq => ?_⟩
  rw [ofFunction, ofFunction, heq]

/-- Different identities have different keys, as far as the digests tell their bytes apart, unless
the one name goes on where the other ends and the further bytes make up for it; so they do if there
are as many further bytes in both, or if the names are the same. Tests with different keys never mix
in a store: in any sequence of operations on both, those on the one are answered as they are if those
on the other are left out, and leave the same behind. -/
theorem identities_apart (h : NoCollision (utf8 name ++ extra) (utf8 name' ++ extra')) :
    let key := ofFunction name extra
    let other := ofFunction name' extra'
    (key = other ↔
      (∃ shared, utf8 name' = utf8 name ++ shared ∧ extra = shared ++ extra') ∨
        ∃ shared, utf8 name = utf8 name' ++ shared ∧ extra' = shared ++ extra) ∧
    (extra.length = extra'.length ∨ name = name' → (key = other ↔ name = name' ∧ extra = extra')) ∧
    (key ≠ other → ∀ (ops : List ExampleOp) (st : Storage Memory),
      (∀ op ∈ ops, op.key = key ∨ op.key = other) →
      ∃ answers st' alone, ops.mapM (ExampleOp.perform memoryBackend) st = (.ok answers, st') ∧
        (ops.filter fun op => op.key ≠ other).mapM (ExampleOp.perform memoryBackend) st =
          (.ok (ExampleOp.answersFor key ops answers), alone) ∧
        Memory.SameCorpora key st'.contents alone.contents) := by
  intro key other
  have hkeys : key = other ↔ utf8 name ++ extra = utf8 name' ++ extra' := ofFunction_eq_iff h
  refine ⟨hkeys.trans List.append_eq_append_iff, fun halike => ⟨fun heq => ?_, ?_⟩,
    fun hne ops st hops => ?_⟩
  · rcases halike with hlength | rfl
    · obtain ⟨hname, hextra⟩ := List.append_inj' (hkeys.1 heq) hlength
      exact ⟨utf8_injective hname, hextra⟩
    · exact ⟨rfl, List.append_cancel_left (hkeys.1 heq)⟩
  · rintro ⟨rfl, rfl⟩
    rfl
  · have hmain : ∀ op ∈ ops, op.key.subKey = none := fun op hop => by
      rcases hops op hop with hkey | hkey <;> rw [hkey] <;> rfl
    have hours : ops.filter (fun op => op.key ≠ other) = ops.filter fun op => op.key = key :=
      List.filter_congr fun op hop => by
        rcases hops op hop with hkey | hkey <;> simp [hkey, hne, hne.symm]
    rw [hours]
    exact ExampleOp.performAll_alone rfl hmain (.refl key _)

theorem identities_apart_extra :
    let key := ofFunction "t" [1]
    let other := ofFunction "t" [2]
    let ops : List ExampleOp := [.save key [⟨8, 5⟩] .failing, .save other [⟨8, 5⟩] .failing,
      .demote other [⟨8, 5⟩], .count key .failing, .load key]
    NoCollision (utf8 "t" ++ [1]) (utf8 "t" ++ [2]) ∧ key ≠ other ∧
      (∀ op ∈ ops, op.key = key ∨ op.key = other) ∧
      ∃ answers st' alone,
        ops.mapM (ExampleOp.perform memoryBackend) ⟨Memory.empty, #[]⟩ = (.ok answers, st') ∧
        (ops.filter fun op => op.key ≠ other).mapM (ExampleOp.perform memoryBackend)
          ⟨Memory.empty, #[]⟩ = (.ok (ExampleOp.answersFor key ops answers), alone) ∧
        Memory.SameCorpora key st'.contents alone.contents := by
  intro key other ops
  have hdigest : NoCollision (utf8 "t" ++ [1]) (utf8 "t" ++ [2]) := by
    unfold NoCollision
    decide +kernel
  obtain ⟨-, hextra, hmix⟩ := identities_apart hdigest
  have hne : key ≠ other := fun heq => by
    obtain ⟨-, hbyte⟩ := (hextra (.inl rfl)).1 heq
    exact absurd hbyte (by decide)
  have hops : ∀ op ∈ ops, op.key = key ∨ op.key = other := by simp [ops, ExampleOp.key]
  exact ⟨hdigest, hne, hops, hmix hne ops _ hops⟩

/-- Two identities that share a key: what is saved for the one test is loaded for the other. -/
theorem identities_share :
    let key := ofFunction "a" [0x62]
    let other := ofFunction "ab" []
    ("a", ([0x62] : Bytes)) ≠ ("ab", []) ∧ utf8 "a" ++ [0x62] = utf8 "ab" ++ [] ∧ key = other ∧
      ∃ st, [ExampleOp.save key [⟨8, 5⟩] .failing, .load other].mapM
        (ExampleOp.perform memoryBackend) ⟨Memory.empty, #[]⟩ =
          (.ok [.done, .loaded ⟨[[⟨8, 5⟩]], [], 0⟩], st) := by
  intro key other
  have hbytes : utf8 "a" ++ [0x62] = utf8 "ab" ++ [] := by decide +kernel
  have hkey : key = other := by
    change ofFunction "a" [0x62] = ofFunction "ab" []
    rw [ofFunction, ofFunction, hbytes]
  refine ⟨by decide, hbytes, hkey, ?_⟩
  rw [hkey]
  exact ExampleOp.load_saved rfl (by decide) #[]

end Key

end Falsify
