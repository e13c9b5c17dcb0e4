import Mathlib.Logic.Function.Basic
import Falsify.Store.Directory

/-!
# Processes that share a directory

Any number of processes work on one store in a directory. Each takes on one request after another
and goes through the steps of its program; between two steps of one process there may be any steps
of the others, and a process may stop for good anywhere. Who moves next is decided by a list of
moves, and what happens is written down.

* `Request`: what a process asks of a store, and `Request.program`: the steps for it;
* `Event`: what happens;
* `Shared.run`: the processes take the moves of a list;
* `Shared.run_alone`: one that nobody disturbs does what its program does on its own.
-/

namespace Falsify

/-- What a process asks of a store. -/
inductive Request where
  | save (key : Key) (value : Bytes)
  | fetch (key : Key)
  | delete (key : Key) (value : Bytes)
  deriving DecidableEq

/-- What a request comes to: the values, if it was to fetch some, or why it failed. -/
abbrev Answer := Except FileError (List Bytes)

namespace Request

def key : Request → Key
  | .save key _ => key
  | .fetch key => key
  | .delete key _ => key

/-- The steps for a request. -/
def program (d : Directory) : Request → ExceptT FileError FileProgram (List Bytes)
  | .save key value => do
    d.saveProgram key value
    return []
  | .fetch key => return (← d.fetchProgram key).1
  | .delete key value => do
    d.deleteProgram key value
    return []

end Request

/-- Something that a process does. -/
inductive Event : Type 1 where
  /-- It takes on a request. -/
  | took (process : Nat) (request : Request)
  /-- It takes a single step for its request and gets an answer. -/
  | stepped {β : Type} (process : Nat) (request : Request) (op : FileOp β)
    (answer : Except FileError β)
  /-- It is done with its request. -/
  | answered (process : Nat) (request : Request) (answer : Answer)

namespace Event

def process : Event → Nat
  | .took p _ => p
  | .stepped p _ _ _ => p
  | .answered p _ _ => p

/-- The answer to a request. -/
def answer? : Event → Option (Nat × Request × Answer)
  | .answered p r answer => some (p, r, answer)
  | _ => none

end Event

/-- A request that a process has taken on, and what is left to do for it. -/
structure Task : Type 1 where
  request : Request
  rest : FileProgram Answer

/-- A tree, the processes that are busy with it, and all that has happened so far. -/
structure Shared : Type 1 where
  tree : FileTree
  tasks : Nat → Option Task
  events : List Event

/-- All answers so far, the first one first. -/
def Shared.answers (s : Shared) : List (Nat × Request × Answer) :=
  s.events.filterMap Event.answer?

/-- Who does something next: a process takes on a request if it is idle, or goes on with the one it
has. -/
inductive Move where
  | take (process : Nat) (request : Request)
  | go (process : Nat)

/-- The request that a move brings in. -/
def Move.request? : Move → Option Request
  | .take _ request => some request
  | .go _ => none

namespace Shared

/-- A tree that no process has worked on yet. -/
def start (t : FileTree) : Shared :=
  ⟨t, fun _ => none, []⟩

def take (d : Directory) (s : Shared) (p : Nat) (r : Request) : Shared :=
  { s with
    tasks := Function.update s.tasks p (some ⟨r, (r.program d).run⟩)
    events := s.events ++ [.took p r] }

/-- A process goes on: it takes the next step, or it is done. -/
def advance (s : Shared) (p : Nat) (r : Request) : FileProgram Answer → Shared
  | .done answer =>
    { s with
      tasks := Function.update s.tasks p none
      events := s.events ++ [.answered p r answer] }
  | .step op next =>
    { tree := (s.tree.perform op).2
      tasks := Function.update s.tasks p (some ⟨r, next (s.tree.perform op).1⟩)
      events := s.events ++ [.stepped p r op (s.tree.perform op).1] }

/-- Takes a move. One that cannot be taken does nothing. -/
def move (d : Directory) (s : Shared) : Move → Shared
  | .take p r =>
    match s.tasks p with
    | none => s.take d p r
    | some _ => s
  | .go p =>
    match s.tasks p with
    | none => s
    | some task => s.advance p task.request task.rest

/-- Takes the moves of a list, one after another. -/
def run (d : Directory) (s : Shared) (moves : List Move) : Shared :=
  moves.foldl (move d) s

variable (d : Directory) {s : Shared} {p : Nat} {r : Request}

theorem move_go {rest : FileProgram Answer} (h : s.tasks p = some ⟨r, rest⟩) :
    s.move d (.go p) = s.advance p r rest := by
  rw [move, h]

/-- A process that nobody disturbs does what its program does on its own. -/
theorem run_alone {rest : FileProgram Answer} (h : s.tasks p = some ⟨r, rest⟩) :
    ∃ moves, (∀ m ∈ moves, m = .go p) ∧ (s.run d moves).tree = (rest.run s.tree).2 ∧
      .answered p r (rest.run s.tree).1 ∈ (s.run d moves).events := by
  induction rest generalizing s with
  | done answer =>
    refine ⟨[.go p], by simp, ?_⟩
    rw [run, List.foldl_cons, List.foldl_nil, move_go d h]
    exact ⟨rfl, List.mem_append_right _ (List.mem_singleton_self _)⟩
  | step op next ih =>
    obtain ⟨moves, hmoves, htree, hanswer⟩ := ih (s.tree.perform op).1
      (s := s.advance p r (.step op next)) (Function.update_self ..)
    refine ⟨.go p :: moves, List.forall_mem_cons.2 ⟨rfl, hmoves⟩, ?_⟩
    rw [run, List.foldl_cons, move_go d h]
    exact ⟨htree, hanswer⟩

end Shared

end Falsify
