import Falsify.Bytes

/-!
# Directories and files

A tree of directories and files, and the single steps by which programs change it. A program is a
tree of such steps, each followed by what the program does with the answer; several programs at
work on one tree interleave step by step. Steps name what they work on by a path, which is followed
name by name from the root and may lead out of a directory again.

* `FileTree.resolve`: the place that a path leads to;
* `FileOp`: the steps, and `FileTree.perform`: what each does;
* `FileProgram`: programs, and `FileProgram.run`: one program on its own.
-/

namespace Falsify

/-- A place in the tree: the names of the directories around it, the outermost first, and its own
name. -/
abbrev Place := List String

/-- A way through the tree: the names between the slashes of its text. No name and one dot stay
where they are, two dots lead out of a directory. -/
abbrev Path := List String

namespace Path

/-- A name that leads nowhere else. -/
def stays (name : String) : Bool :=
  name.isEmpty || name = "."

/-- The path of some names that starts where another one ends. A slash at the end of that one is
not doubled. -/
def join (path : Path) (names : List String) : Path :=
  if path.getLast? = some "" then path.dropLast ++ names else path ++ names

/-- The path to the directory around the last name, without the names before it that lead nowhere
else. -/
def parent (path : Path) : Path :=
  (path.dropLast.reverse.dropWhile stays).reverse

/-- The last name is one dot, with or without slashes behind it. -/
def endsInDot (path : Path) : Bool :=
  (path.filter fun name => !name.isEmpty).getLast? = some "."

/-- The length of the path's text in bytes. -/
def size (path : Path) : Nat :=
  (path.map fun name => name.utf8ByteSize + 1).sum

end Path

/-- Why a step cannot be taken. -/
inductive FileError where
  | notFound
  | alreadyExists
  | notDirectory
  | isDirectory
  | notEmpty
  | nameTooLong
  | badName
  | badPath
  deriving DecidableEq

def FileError.message : FileError → String
  | .notFound => "No such file or directory (os error 2)"
  | .alreadyExists => "File exists (os error 17)"
  | .notDirectory => "Not a directory (os error 20)"
  | .isDirectory => "Is a directory (os error 21)"
  | .notEmpty => "Directory not empty (os error 39)"
  | .nameTooLong => "File name too long (os error 36)"
  | .badName => "file name contained an unexpected NUL byte"
  | .badPath => "Invalid argument (os error 22)"

/-- What there is at a place. -/
inductive FileEntry where
  | file (contents : Bytes)
  | directory
  deriving DecidableEq

/-- Directories and files by place. The empty place is the root, a directory that is always
there. -/
structure FileTree where
  entries : List (Place × FileEntry)

/-- A step, with the kind of answer that it gets. -/
inductive FileOp : Type → Type where
  /-- Whether there is anything at a place. -/
  | test (path : Path) : FileOp Bool
  /-- Makes a directory, and those around it that are missing. -/
  | createDirs (path : Path) : FileOp Unit
  /-- Makes an empty file of a new name, which starts with a dot, and answers its place. -/
  | createTemp (directory : Path) : FileOp Path
  | write (path : Path) (contents : Bytes) : FileOp Unit
  /-- Moves a file, over another one if need be. -/
  | rename (source target : Path) : FileOp Unit
  | removeFile (path : Path) : FileOp Unit
  /-- Removes an empty directory, but not by a path that ends in a dot. -/
  | removeDir (path : Path) : FileOp Unit
  /-- The names in a directory, in order. -/
  | list (path : Path) : FileOp (List String)
  | read (path : Path) : FileOp Bytes

namespace FileTree

def empty : FileTree := ⟨[]⟩

/-- What there is at a place. -/
def entry? (t : FileTree) (place : Place) : Option FileEntry :=
  if place.isEmpty then some .directory
  else (t.entries.find? fun e => e.1 = place).map Prod.snd

/-- Puts something at a place, instead of what was there. -/
def put (t : FileTree) (place : Place) (entry : FileEntry) : FileTree :=
  ⟨t.entries.filter (fun e => e.1 ≠ place) ++ [(place, entry)]⟩

def erase (t : FileTree) (place : Place) : FileTree :=
  ⟨t.entries.filter fun e => e.1 ≠ place⟩

/-- The most bytes that a name may have. -/
def maxNameLength : Nat := 255

/-- The most bytes that the text of a path may have. -/
def maxPathLength : Nat := 4095

/-- Why a path is not even followed, if it is not. -/
def pathFault? (path : Path) : Option FileError :=
  if path.any fun name => name.toList.contains '\x00' then some .badName
  else if path.size > maxPathLength then some .nameTooLong
  else none

/-- Follows a path from a place, through directories only. What is at its end need not exist. -/
def walk (t : FileTree) (here : Place) : Path → Except FileError Place
  | [] => .ok here
  | name :: rest =>
    match t.entry? here with
    | none => .error .notFound
    | some (.file _) => .error .notDirectory
    | some .directory =>
      if Path.stays name then t.walk here rest
      else if name = ".." then t.walk here.dropLast rest
      else if name.utf8ByteSize > maxNameLength then .error .nameTooLong
      else t.walk (here ++ [name]) rest

/-- The place that a path leads to from the root. -/
def resolve (t : FileTree) (path : Path) : Except FileError Place :=
  match pathFault? path with
  | some fault => .error fault
  | none => t.walk [] path

/-- The place that a path leads to, and what there is. -/
def locate (t : FileTree) (path : Path) : Except FileError (Place × FileEntry) := do
  let place ← t.resolve path
  match t.entry? place with
  | some entry => return (place, entry)
  | none => throw .notFound

/-- Follows a path from a directory and makes the directories that are missing on the way. -/
def createFrom (t : FileTree) (here : Place) : Path → Except FileError Unit × FileTree
  | [] => (.ok (), t)
  | name :: rest =>
    if Path.stays name then t.createFrom here rest
    else if name = ".." then t.createFrom here.dropLast rest
    else if name.utf8ByteSize > maxNameLength then (.error .nameTooLong, t)
    else
      match t.entry? (here ++ [name]) with
      | some .directory => t.createFrom (here ++ [name]) rest
      | some (.file _) => (.error (if rest.isEmpty then .alreadyExists else .notDirectory), t)
      | none => (t.put (here ++ [name]) .directory).createFrom (here ++ [name]) rest

/-- Makes the directories on a path that are missing. -/
def createDirs (t : FileTree) (path : Path) : Except FileError Unit × FileTree :=
  match pathFault? path with
  | some fault => (.error fault, t)
  | none => t.createFrom [] path

/-- The names in a directory, in order. -/
def childNames (t : FileTree) (place : Place) : List String :=
  (t.entries.filterMap fun e => if e.1.dropLast = place then e.1.getLast? else none).mergeSort

/-- The temporary name of a number: a dot, `tmp`, and six digits or more. -/
def tempName (n : Nat) : String :=
  let digits := toString n
  ".tmp" ++ String.ofList (List.replicate (6 - digits.length) '0') ++ digits

/-- A name that nothing in a directory has, looked for from number `n` on. -/
def freshName (taken : List String) (n : Nat) : (fuel : Nat) → String
  | 0 => tempName n
  | fuel + 1 => if taken.contains (tempName n) then freshName taken (n + 1) fuel else tempName n

/-- What a step does, and its answer. A step that cannot be taken changes nothing, but for the
directories that were made before one could not be. -/
def perform {β : Type} (t : FileTree) : FileOp β → Except FileError β × FileTree
  | .test path =>
    match t.locate path with
    | .ok _ => (.ok true, t)
    | .error _ => (.ok false, t)
  | .createDirs path => t.createDirs path
  | .createTemp directory =>
    match t.locate directory with
    | .ok (place, .directory) =>
      let names := t.childNames place
      let name := freshName names 0 names.length
      let path := directory.join [name]
      match pathFault? path with
      | some fault => (.error fault, t)
      | none => (.ok path, t.put (place ++ [name]) (.file []))
    | .ok (_, .file _) => (.error .notDirectory, t)
    | .error e => (.error e, t)
  | .write path contents =>
    match t.locate path with
    | .ok (place, .file _) => (.ok (), t.put place (.file contents))
    | .ok (_, .directory) => (.error .isDirectory, t)
    | .error e => (.error e, t)
  | .rename source target =>
    match t.locate source, t.resolve target with
    | .ok (place, .file contents), .ok goal =>
      match t.entry? goal with
      | some .directory => (.error .isDirectory, t)
      | _ => (.ok (), (t.erase place).put goal (.file contents))
    | .ok (_, .file _), .error e => (.error e, t)
    | .ok (_, .directory), _ => (.error .isDirectory, t)
    | .error e, _ => (.error e, t)
  | .removeFile path =>
    match t.locate path with
    | .ok (place, .file _) => (.ok (), t.erase place)
    | .ok (_, .directory) => (.error .isDirectory, t)
    | .error e => (.error e, t)
  | .removeDir path =>
    match t.locate path with
    | .ok (place, .directory) =>
      if path.endsInDot then (.error .badPath, t)
      else if (t.childNames place).isEmpty then (.ok (), t.erase place)
      else (.error .notEmpty, t)
    | .ok (_, .file _) => (.error .notDirectory, t)
    | .error e => (.error e, t)
  | .list path =>
    match t.locate path with
    | .ok (place, .directory) => (.ok (t.childNames place), t)
    | .ok (_, .file _) => (.error .notDirectory, t)
    | .error e => (.error e, t)
  | .read path =>
    match t.locate path with
    | .ok (_, .file contents) => (.ok contents, t)
    | .ok (_, .directory) => (.error .isDirectory, t)
    | .error e => (.error e, t)

/-- The places below a directory as texts, directories with a slash behind them, in order. -/
def listing (t : FileTree) (base : Place) : List String :=
  (t.entries.filterMap fun (place, entry) =>
    if base.isPrefixOf place && place ≠ base then
      let text := "/".intercalate (place.drop base.length)
      some (match entry with | .directory => text ++ "/" | .file _ => text)
    else none).mergeSort

end FileTree

/-- A program over a tree: a result, or a step and what follows each of its answers. -/
inductive FileProgram (α : Type) : Type 1 where
  | done (result : α)
  | step {β : Type} (op : FileOp β) (next : Except FileError β → FileProgram α)

namespace FileProgram

/-- One program after another. -/
def andThen {α β : Type} (p : FileProgram α) (f : α → FileProgram β) : FileProgram β :=
  match p with
  | .done a => f a
  | .step op next => .step op fun answer => (next answer).andThen f

instance : Monad FileProgram where
  pure := .done
  bind := andThen

/-- A single step; its failure is an answer like any other. -/
def attempt {β : Type} (op : FileOp β) : FileProgram (Except FileError β) :=
  .step op .done

/-- A single step, whose failure ends the program. -/
def perform {β : Type} (op : FileOp β) : ExceptT FileError FileProgram β :=
  ExceptT.mk (attempt op)

/-- A single step, whose answer the program looks at itself. -/
def inspect {β : Type} (op : FileOp β) : ExceptT FileError FileProgram (Except FileError β) :=
  ExceptT.lift (attempt op)

/-- Runs a program to its end, with nobody else at work. -/
def run {α : Type} (p : FileProgram α) (t : FileTree) : α × FileTree :=
  match p with
  | .done a => (a, t)
  | .step op next => (next (t.perform op).1).run (t.perform op).2

end FileProgram

end Falsify
