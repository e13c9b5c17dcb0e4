import Falsify.Store.Backend

/-!
# Stores that are watched

A backend around another one that notes each call and turns chosen calls down before they reach the
store. What it fetches is in the order of the bytes, so that it does not depend on the store.

* `Backend.traced`: the backend around another one.
-/

namespace Falsify

/-- A call that was made: under which corpus, with which value, and whether it was let through. -/
structure CallNote where
  call : StoreCall
  subKey : Option String
  value : Bytes
  passed : Bool

/-- A store with the calls made so far. -/
structure Traced (σ : Type) where
  inner : σ
  calls : Array CallNote

/-- An operation of the store inside. -/
def Traced.lift {σ α : Type} (x : StoreM σ α) : StoreM (Traced σ) α := fun s =>
  let (result, inner) := x ⟨s.contents.inner, s.log⟩
  (result, { s with contents := { s.contents with inner := inner.contents }, log := inner.log })

/-- Notes a call, and fails if such calls are to be turned down. -/
def Traced.note {σ : Type} (refused : List StoreCall) (call : StoreCall) (key : Key)
    (value : Bytes) : StoreM (Traced σ) Unit := do
  let passed := !refused.contains call
  let entry : CallNote := ⟨call, key.subKey, value, passed⟩
  modify fun s =>
    { s with contents := { s.contents with calls := s.contents.calls.push entry } }
  if passed then return () else throw (.refused call)

/-- Byte strings in order. -/
def sortBytes (values : List Bytes) : List Bytes :=
  values.mergeSort fun a b => !decide (b < a)

/-- A backend that notes each call and turns some down. -/
def Backend.traced {σ : Type} (refused : List StoreCall) (b : Backend σ) : Backend (Traced σ) where
  save key value := do
    Traced.note refused .save key value
    Traced.lift (b.save key value)
  fetch key := do
    Traced.note refused .fetch key []
    return sortBytes (← Traced.lift (b.fetch key))
  delete key value := do
    Traced.note refused .delete key value
    Traced.lift (b.delete key value)

end Falsify
