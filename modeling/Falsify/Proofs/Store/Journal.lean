import Falsify.Store.Backend
import Falsify.Proofs.Store.Memory

/-!
# Journals of stores

A journal is kept beside a store and says what was asked of it and what came of that, call by call.
Keeping one changes nothing else: an operation that is made of calls gives the same answer, log and
contents without it.

* `StoreEvent`, `Backend.journaled`: any backend, with a journal of its calls;
* `Journal.Erases`: an operation with a journal and the same one without;
* `Journal.Enters`: what an operation may enter;
* `savedUnder`: the values that were saved under a key;
* `Examples.erases_load`: loading is the same with a journal.
-/

namespace Falsify

/-- What may be asked of a store. -/
inductive StoreRequest where
  | save (key : Key) (value : Bytes)
  | fetch (key : Key)
  | delete (key : Key) (value : Bytes)
  deriving DecidableEq

/-- A call of a store, with its answer. -/
inductive StoreEvent where
  | saved (key : Key) (value : Bytes) (answer : Except DatabaseError Unit)
  | fetched (key : Key) (answer : Except DatabaseError (List Bytes))
  | deleted (key : Key) (value : Bytes) (answer : Except DatabaseError Unit)

def StoreEvent.request : StoreEvent → StoreRequest
  | .saved key value _ => .save key value
  | .fetched key _ => .fetch key
  | .deleted key value _ => .delete key value

def StoreEvent.succeeded : StoreEvent → Bool
  | .saved _ _ answer => answer.isOk
  | .fetched _ answer => answer.isOk
  | .deleted _ _ answer => answer.isOk

/-- What a store holds, and the calls so far. -/
structure Journal (σ : Type) where
  contents : σ
  events : List StoreEvent

variable {σ α β : Type}

/-- The store without its journal. -/
def Storage.bare (st : Storage (Journal σ)) : Storage σ :=
  ⟨st.contents.contents, st.log⟩

/-- The store with a journal that has nothing in it yet. -/
def Storage.opened (st : Storage σ) : Storage (Journal σ) :=
  ⟨⟨st.contents, []⟩, st.log⟩

/-- The calls so far. -/
def Storage.events (st : Storage (Journal σ)) : List StoreEvent :=
  st.contents.events

@[simp]
theorem Storage.bare_opened (st : Storage σ) : st.opened.bare = st := rfl

/-- A call of the store, entered once it is answered. -/
def Journal.enter (entry : Except DatabaseError α → StoreEvent) (call : StoreM σ α) :
    StoreM (Journal σ) α := fun st =>
  let (answer, inner) := call st.bare
  (answer, ⟨⟨inner.contents, st.events ++ [entry answer]⟩, inner.log⟩)

/-- A backend that keeps a journal. -/
def Backend.journaled (b : Backend σ) : Backend (Journal σ) where
  save key value := Journal.enter (.saved key value) (b.save key value)
  fetch key := Journal.enter (.fetched key) (b.fetch key)
  delete key value := Journal.enter (.deleted key value) (b.delete key value)

theorem StoreM.tryCatch_apply (x : StoreM σ α) (f : DatabaseError → StoreM σ α)
    (st : Storage σ) : (tryCatch x f) st = match x st with
      | (.ok a, st') => (.ok a, st')
      | (.error e, st') => f e st' := by
  simp only [tryCatch, tryCatchThe, MonadExceptOf.tryCatch, ExceptT.tryCatch, ExceptT.mk, bind,
    StateT.bind]
  rcases x st with ⟨_ | _, _⟩ <;> rfl

namespace Journal

/-! ## Without the journal -/

/-- One operation is the other one with a journal. -/
def Erases (x : StoreM (Journal σ) α) (y : StoreM σ α) : Prop :=
  ∀ st, y st.bare = ((x st).1, (x st).2.bare)

theorem Erases.pure (a : α) : Erases (pure a : StoreM (Journal σ) α) (Pure.pure a) :=
  fun _ => rfl

theorem Erases.tell (level : LogLevel) (text : String) :
    Erases (StoreM.tell level text : StoreM (Journal σ) Unit) (StoreM.tell level text) :=
  fun _ => rfl

theorem Erases.enter (entry : Except DatabaseError α → StoreEvent) (call : StoreM σ α) :
    Erases (enter entry call) call := fun _ => rfl

theorem Erases.bind {x : StoreM (Journal σ) α} {y : StoreM σ α} {f : α → StoreM (Journal σ) β}
    {g : α → StoreM σ β} (h : Erases x y) (hf : ∀ a, Erases (f a) (g a)) :
    Erases (x >>= f) (y >>= g) := by
  intro st
  rcases hx : x st with ⟨e | a, st'⟩
  · have hy : y st.bare = (.error e, st'.bare) := by rw [h st, hx]
    rw [StoreM.bind_of_error hy, StoreM.bind_of_error hx]
  · have hy : y st.bare = (.ok a, st'.bare) := by rw [h st, hx]
    rw [StoreM.bind_of_ok hy, StoreM.bind_of_ok hx]
    exact hf a st'

theorem Erases.tryCatch {x : StoreM (Journal σ) α} {y : StoreM σ α}
    {f : DatabaseError → StoreM (Journal σ) α} {g : DatabaseError → StoreM σ α} (h : Erases x y)
    (hf : ∀ e, Erases (f e) (g e)) : Erases (tryCatch x f) (tryCatch y g) := by
  intro st
  rw [StoreM.tryCatch_apply, StoreM.tryCatch_apply, h st]
  rcases x st with ⟨e | a, st'⟩
  · exact hf e st'
  · rfl

/-! ## What is entered -/

/-- All that an operation enters is of some kind. -/
def Enters (p : StoreEvent → Prop) (x : StoreM (Journal σ) α) : Prop :=
  ∀ st, ∃ later, (x st).2.events = st.events ++ later ∧ ∀ event ∈ later, p event

variable {p : StoreEvent → Prop}

theorem Enters.pure (a : α) : Enters p (pure a : StoreM (Journal σ) α) := fun _ =>
  ⟨[], (List.append_nil _).symm, nofun⟩

theorem Enters.enter {entry : Except DatabaseError α → StoreEvent} (h : ∀ answer, p (entry answer))
    (call : StoreM σ α) : Enters p (Journal.enter entry call) := fun _ =>
  ⟨_, rfl, fun _ he => List.mem_singleton.1 he ▸ h _⟩

theorem Enters.bind {x : StoreM (Journal σ) α} {f : α → StoreM (Journal σ) β} (h : Enters p x)
    (hf : ∀ a, Enters p (f a)) : Enters p (x >>= f) := by
  intro st
  obtain ⟨later, he, hp⟩ := h st
  rcases hx : x st with ⟨e | a, st'⟩ <;> rw [hx] at he
  · rw [StoreM.bind_of_error hx]
    exact ⟨later, he, hp⟩
  · obtain ⟨later', he', hp'⟩ := hf a st'
    rw [StoreM.bind_of_ok hx]
    refine ⟨later ++ later', by rw [he', he, List.append_assoc], fun event hm => ?_⟩
    exact (List.mem_append.1 hm).elim (hp event) (hp' event)

end Journal

/-! ## What has been saved -/

/-- The values that were saved under a key, one after another. -/
def savedUnder (key : Key) (events : List StoreEvent) : List Bytes :=
  events.filterMap fun
    | .saved key' value (.ok ()) => if key' = key then some value else none
    | _ => none

theorem savedUnder_append (key : Key) (events later : List StoreEvent) :
    savedUnder key (events ++ later) = savedUnder key events ++ savedUnder key later :=
  List.filterMap_append

/-- A call that saves nothing under a key. -/
def StoreEvent.Spares (key : Key) (event : StoreEvent) : Prop :=
  ∀ value, event.request ≠ .save key value

theorem savedUnder_of_spares {key : Key} {events : List StoreEvent}
    (h : ∀ event ∈ events, event.Spares key) : savedUnder key events = [] := by
  rw [savedUnder, List.filterMap_eq_nil_iff]
  intro event he
  have hspares := h event he
  cases event with
  | saved key' value answer =>
    rcases answer with _ | _
    · rfl
    · refine if_neg ?_
      rintro rfl
      exact hspares value rfl
  | fetched | deleted => rfl

/-! ## Examples -/

namespace Examples

open Journal

theorem erases_discard (b : Backend σ) (key : Key) (kind : EntryKind) (entry : Bytes)
    (fault : TokenError) :
    Erases (discard b.journaled key kind entry fault) (discard b key kind entry fault) :=
  (Erases.tell _ _).bind fun _ => (Erases.enter _ _).tryCatch fun _ => Erases.tell _ _

theorem erases_decodeEntries (b : Backend σ) (key : Key) (kind : EntryKind)
    (entries : List Bytes) :
    Erases (decodeEntries b.journaled key kind entries) (decodeEntries b key kind entries) := by
  induction entries with
  | nil => exact .pure _
  | cons entry rest ih =>
    rw [decodeEntries, decodeEntries]
    split
    · exact ih.bind fun _ => .pure _
    · exact (erases_discard b key kind entry _).bind fun _ => ih.bind fun _ => .pure _

/-- Loading with a journal is loading. -/
theorem erases_load (b : Backend σ) (key : Key) :
    Erases (load b.journaled key) (load b key) := by
  have hkind : ∀ kind, Erases (loadKind b.journaled key kind) (loadKind b key kind) :=
    fun kind => (Erases.enter _ _).bind fun _ => (erases_decodeEntries b key kind _).bind fun _ =>
      .pure _
  exact (hkind .failing).bind fun _ => (hkind .covering).bind fun _ => .pure _

end Examples

end Falsify
