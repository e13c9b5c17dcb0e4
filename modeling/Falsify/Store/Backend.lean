import Falsify.Log
import Falsify.Store.FileTree
import Falsify.Store.Key

/-!
# Backends

A backend keeps sets of byte strings under keys. It may be kept anywhere, and each of its
operations may fail; what is above it is told and goes on.

* `Backend`: the three operations;
* `Backend.move`: a value leaves one key for another, in this order.
-/

namespace Falsify

/-- The operations of a backend. -/
inductive StoreCall where
  | save
  | fetch
  | delete
  deriving DecidableEq

def StoreCall.name : StoreCall → String
  | .save => "save"
  | .fetch => "fetch"
  | .delete => "delete"

/-- Why an operation failed. -/
inductive DatabaseError where
  | io (cause : FileError)
  | invalidKey (fault : KeyFault)
  /-- The backend was told to turn such calls down. -/
  | refused (call : StoreCall)
  deriving DecidableEq

def DatabaseError.message : DatabaseError → String
  | .io cause => s!"IO error: {cause.message}"
  | .invalidKey fault => s!"Invalid key: {fault.message}"
  | .refused call => s!"Invalid key: injected {call.name} failure"

/-- Where a backend keeps its values, and the log that it writes. -/
structure Storage (σ : Type) where
  contents : σ
  log : Log

/-- An operation on what is stored. -/
abbrev StoreM (σ : Type) := ExceptT DatabaseError (StateM (Storage σ))

/-- Adds a line to the log. -/
def StoreM.tell {σ : Type} (level : LogLevel) (text : String) : StoreM σ Unit :=
  modify fun s => { s with log := s.log.push ⟨level, text⟩ }

/-- A store of byte strings, each held once under a key. -/
structure Backend (σ : Type) where
  /-- Saving what is there already changes nothing. -/
  save : Key → Bytes → StoreM σ Unit
  /-- The values under a key, in no particular order. -/
  fetch : Key → StoreM σ (List Bytes)
  /-- Deleting what is not there changes nothing. -/
  delete : Key → Bytes → StoreM σ Unit

/-- Moves a value from one key to another: first it is deleted, then saved. -/
def Backend.move {σ : Type} (b : Backend σ) (source target : Key) (value : Bytes) :
    StoreM σ Unit := do
  b.delete source value
  b.save target value

end Falsify
