import Falsify.Store.Backend

/-!
# Stores in a directory

A store on disk: a directory for each key, named by the key's text, and in it a file for each
value, named by a fingerprint of the value. A file is written whole under a temporary name and
then renamed, so that nobody reads half a value. Names that start with a dot are temporary.

* `Directory.saveProgram`, `Directory.fetchProgram`, `Directory.deleteProgram`: the steps of each
  operation;
* `openDirectory`: the backend.
-/

namespace Falsify

/-- The directory of a store. -/
structure Directory where
  base : Path

namespace Directory

/-- The names between slashes. -/
def namesOf : List Char → List (List Char)
  | [] => [[]]
  | c :: rest =>
    match namesOf rest with
    | name :: names => if c = '/' then [] :: name :: names else (c :: name) :: names
    | [] => [[c]]

/-- The path of a text in which slashes part the names. Slashes in front of the first name lead
from the root, where every path starts. -/
def pathOf (text : String) : Path :=
  ((namesOf text.toList).map String.ofList).dropWhile (·.isEmpty)

def keyDirectory (d : Directory) (key : Key) : Path :=
  d.base.join (pathOf key.text)

/-- The file of a value: its name is the first half of the value's digest. -/
def valuePath (d : Directory) (key : Key) (value : Bytes) : Path :=
  (d.keyDirectory key).join [Text.Hex.encode ((Sha256.digest value).toList.take 16)]

/-- Writes a file next to its place and moves it there. A file that cannot be moved is removed. -/
def writeWhole (target : Path) (value : Bytes) : ExceptT FileError FileProgram Unit := do
  .perform (.createDirs target.parent)
  let temp ← .perform (.createTemp target.parent)
  match ← FileProgram.inspect (.write temp value) with
  | .error e =>
    let _ ← FileProgram.inspect (.removeFile temp)
    throw e
  | .ok () =>
    match ← FileProgram.inspect (.rename temp target) with
    | .error e =>
      let _ ← FileProgram.inspect (.removeFile temp)
      throw e
    | .ok () => return ()

/-- Saves a value unless there is something in its place already. -/
def saveProgram (d : Directory) (key : Key) (value : Bytes) :
    ExceptT FileError FileProgram Unit := do
  if ← .perform (.test (d.valuePath key value)) then return ()
  else writeWhole (d.valuePath key value) value

/-- Reads the files of the given names. One that is gone by now does not count; others that cannot
be read are given back with the reason. -/
def readAll (directory : Path) : List String → FileProgram (List Bytes × List (Path × FileError))
  | [] => return ([], [])
  | name :: rest => do
    let answer ← FileProgram.attempt (.read (directory.join [name]))
    let (values, unreadable) ← readAll directory rest
    match answer with
    | .ok value => return (value :: values, unreadable)
    | .error .notFound => return (values, unreadable)
    | .error e => return (values, (directory.join [name], e) :: unreadable)

/-- The values under a key, and the files that cannot be read. -/
def fetchProgram (d : Directory) (key : Key) :
    ExceptT FileError FileProgram (List Bytes × List (Path × FileError)) := do
  match ← FileProgram.inspect (.list (d.keyDirectory key)) with
  | .error .notFound => return ([], [])
  | .error e => throw e
  | .ok names => readAll (d.keyDirectory key) (names.filter fun name => !name.startsWith ".")

/-- Deletes a value, and the directory of the key if that was the last one. -/
def deleteProgram (d : Directory) (key : Key) (value : Bytes) :
    ExceptT FileError FileProgram Unit := do
  match ← FileProgram.inspect (.removeFile (d.valuePath key value)) with
  | .error .notFound => return ()
  | .error e => throw e
  | .ok () =>
    let _ ← FileProgram.inspect (.removeDir (d.keyDirectory key))
    return ()

/-- Runs a program on the tree that is stored. -/
def runStored {α : Type} (p : ExceptT FileError FileProgram α) : StoreM FileTree α := fun s =>
  let (result, tree) := FileProgram.run p s.contents
  (result.mapError .io, { s with contents := tree })

/-- The store in a directory as a backend. -/
def backend (d : Directory) : Backend FileTree where
  save key value := runStored (d.saveProgram key value)
  fetch key := do
    let (values, unreadable) ← runStored (d.fetchProgram key)
    for (path, e) in unreadable do
      let place := "/".intercalate path
      StoreM.tell .warn s!"skipping unreadable example /{place}: {e.message}"
    return values
  delete key value := runStored (d.deleteProgram key value)

end Directory

/-- The backend of a directory, which is made if it is not there. -/
def openDirectory (path : String) : StoreM FileTree (Backend FileTree) := do
  let directory : Directory := ⟨Directory.pathOf path⟩
  Directory.runStored (.perform (.createDirs directory.base))
  return directory.backend

end Falsify
