import Falsify.Encoding
import Falsify.Store.Backend

/-!
# Examples of a test

What a run keeps of a test: failing cases, to be tried again first, and covering cases, which
passed and showed something new. Each corpus has a key of its own, and the sequences in it are
kept encoded.

* `Examples.save`, `Examples.delete`, `Examples.replace`, `Examples.demote`;
* `Examples.load`: both corpora, simplest first, and without what no longer decodes.
-/

namespace Falsify

/-- The two corpora of a test. -/
inductive EntryKind where
  | failing
  | covering
  deriving DecidableEq

namespace EntryKind

def name : EntryKind → String
  | .failing => "failing"
  | .covering => "covering"

/-- The name as it stands in logs. -/
def title : EntryKind → String
  | .failing => "Failing"
  | .covering => "Covering"

def all : List EntryKind :=
  [.failing, .covering]

/-- The key of a corpus. Failing cases are kept under the test's own key. -/
def keyOf (kind : EntryKind) (key : Key) : Key :=
  match kind with
  | .failing => key
  | .covering => key.withSubKey "covering"

end EntryKind

/-- What has been read back of a test. -/
structure LoadedExamples where
  failing : List Draws
  covering : List Draws
  /-- How many entries did not decode. -/
  discarded : Nat

/-- Sequences with the simplest one first. -/
def sortDraws (sequences : List Draws) : List Draws :=
  sequences.mergeSort fun s t => s.simplerOrEquivalent t

namespace Examples

variable {σ : Type}

def save (b : Backend σ) (key : Key) (s : Draws) (kind : EntryKind) : StoreM σ Unit :=
  b.save (kind.keyOf key) (Encoding.serialize s)

def delete (b : Backend σ) (key : Key) (s : Draws) (kind : EntryKind) : StoreM σ Unit :=
  b.delete (kind.keyOf key) (Encoding.serialize s)

/-- One sequence takes the place of another: the old one is deleted first. -/
def replace (b : Backend σ) (key : Key) (old new : Draws) (kind : EntryKind) : StoreM σ Unit :=
  if old = new then save b key new kind
  else do
    delete b key old kind
    save b key new kind

/-- A failing case that no longer fails becomes a covering one. -/
def demote (b : Backend σ) (key : Key) (s : Draws) : StoreM σ Unit :=
  b.move (EntryKind.failing.keyOf key) (EntryKind.covering.keyOf key) (Encoding.serialize s)

/-- How many entries a corpus has. -/
def count (b : Backend σ) (key : Key) (kind : EntryKind) : StoreM σ Nat := do
  return (← b.fetch (kind.keyOf key)).length

/-- Deletes an entry that does not decode. If it cannot be deleted, that is told and nothing more.
-/
def discard (b : Backend σ) (key : Key) (kind : EntryKind) (entry : Bytes) (fault : TokenError) :
    StoreM σ Unit := do
  StoreM.tell .info s!"discarding undecodable {kind.title} entry for {key.text}: {fault.message}"
  try b.delete (kind.keyOf key) entry
  catch e => StoreM.tell .warn s!"could not delete undecodable entry for {key.text}: {e.message}"

/-- The sequences among some entries, in their order, and how many of the entries are none. -/
def decodeEntries (b : Backend σ) (key : Key) (kind : EntryKind) :
    List Bytes → StoreM σ (List Draws × Nat)
  | [] => return ([], 0)
  | entry :: rest =>
    match Encoding.deserialize entry with
    | .ok s => do
      let (sequences, discarded) ← decodeEntries b key kind rest
      return (s :: sequences, discarded)
    | .error fault => do
      discard b key kind entry fault
      let (sequences, discarded) ← decodeEntries b key kind rest
      return (sequences, discarded + 1)

/-- A corpus, simplest sequences first, and how many entries were discarded. -/
def loadKind (b : Backend σ) (key : Key) (kind : EntryKind) : StoreM σ (List Draws × Nat) := do
  let (sequences, discarded) ← decodeEntries b key kind (← b.fetch (kind.keyOf key))
  return (sortDraws sequences, discarded)

/-- Both corpora of a test. -/
def load (b : Backend σ) (key : Key) : StoreM σ LoadedExamples := do
  let (failing, badFailing) ← loadKind b key .failing
  let (covering, badCovering) ← loadKind b key .covering
  return ⟨failing, covering, badFailing + badCovering⟩

end Examples

end Falsify
