import Falsify.Assoc
import Falsify.Draws
import Falsify.Random.ChaCha8

/-!
# Sources of draws

All randomness of a test case flows through a `Source`. It answers a draw from a given list of
forced draws as long as that lasts, by position, and from a seeded stream afterwards; it records
every draw, and it refuses to go on once its budget is used up. A draw can also be written by the
caller: then nothing is read, but the draw takes up its position.

* `Source.bits`, `Source.write`: the two ways to make a draw;
* `Source.drawUntil`: draws until one is accepted, which ends because each attempt uses up budget;
* `Source.bits_ok`: what a successful draw does to the record.
-/

namespace Falsify

/-- Why a draw could not give a value. None of these is a failure of the property under test. -/
inductive DrawError where
  /-- The budget of `limit` draws is used up. -/
  | overrun (limit : Nat)
  /-- A filter or an assumption turned the case down. -/
  | rejected (reason : String)
  /-- What was asked for makes no sense. -/
  | invalidArgument (reason : String)
  deriving DecidableEq

def DrawError.message : DrawError → String
  | .overrun limit => s!"draw budget of {limit} draws exhausted"
  | .rejected reason => s!"rejected: {reason}"
  | .invalidArgument reason => s!"invalid argument: {reason}"

/-- What code under test crashes with: a text, or some value that is no text. What comes of letting
go of such a value is told by a `Disposal`. -/
inductive Crash where
  | text (message : String)
  | other
  deriving DecidableEq

def Crash.message : Crash → String
  | .text message => message
  | .other => "test panicked"

/-- Why generating a value stopped: a draw failed, or the caller's own code crashed. -/
inductive Stop where
  | failed (error : DrawError)
  | crashed (crash : Crash)
  deriving DecidableEq

/-- How often a named filter accepted and refused a candidate. -/
structure PredicateCounts where
  satisfied : Nat
  unsatisfied : Nat
  deriving DecidableEq, Inhabited

/-- A source of draws in the middle of a test case. -/
structure Source where
  /-- Where fresh draws come from. -/
  stream : ChaCha8
  /-- The draws to answer first, by position. -/
  forced : Array Draw
  /-- What has been drawn. -/
  record : Array Draw
  /-- How many draws there may be. -/
  maxDraws : Nat
  /-- How the named filters have answered. -/
  predicates : Assoc String PredicateCounts
  /-- Nanoseconds that the caller's filters and maps have spent asleep. -/
  asleep : Nat

/-- A computation that draws from a source. The source keeps what was drawn before an error. -/
abbrev DrawM := ExceptT Stop (StateM Source)

namespace DrawM

theorem pure_apply {α : Type} (a : α) (s : Source) : (pure a : DrawM α) s = (.ok a, s) := rfl

theorem throw_apply {α : Type} (e : Stop) (s : Source) :
    (throw e : DrawM α) s = (.error e, s) := rfl

/-- One computation after another: an error ends both and keeps the source. -/
theorem bind_apply {α β : Type} (x : DrawM α) (f : α → DrawM β) (s : Source) :
    (x >>= f) s =
      match x s with
      | (.ok a, s') => f a s'
      | (.error e, s') => (.error e, s') := by
  change (ExceptT.bindCont f (x s).1) (x s).2 = _
  rcases x s with ⟨_ | _, _⟩ <;> rfl

end DrawM

namespace Source

/-- A source that answers from `forced` first and then from the stream of `seed`. -/
def replaying (forced : Draws) (seed : UInt64) (maxDraws : Nat) : Source where
  stream := ChaCha8.ofSeed seed
  forced := forced.toArray
  record := #[]
  maxDraws := maxDraws
  predicates := []
  asleep := 0

/-- A source of fresh draws only. -/
def fresh (seed : UInt64) (maxDraws : Nat) : Source :=
  replaying [] seed maxDraws

/-- Back to the start, with the stream of another seed. The forced draws are answered again. -/
def reseed (seed : UInt64) (s : Source) : Source :=
  { s with stream := ChaCha8.ofSeed seed, record := #[], predicates := [] }

/-- Some forced draws have not been reached yet. -/
def isReplaying (s : Source) : Bool :=
  s.record.size < s.forced.size

def drawCount (s : Source) : Nat :=
  s.record.size

/-- The record as a sequence. -/
def drawn (s : Source) : Draws :=
  s.record.toList

/-- The word behind the next draw, before it is cut to a width, and the stream after it. -/
def nextWord (s : Source) : UInt64 × ChaCha8 :=
  match s.forced[s.record.size]? with
  | some draw => (draw.value, s.stream)
  | none => s.stream.next

/-- Draws `width` bits, 64 at most. -/
def bits (width : UInt8) : DrawM UInt64 := fun s =>
  if s.maxDraws ≤ s.record.size then (.error (.failed (.overrun s.maxDraws)), s)
  else
    let draw := Draw.fit width s.nextWord.1
    (.ok draw.value, { s with stream := s.nextWord.2, record := s.record.push draw })

/-- Records a draw of a given value, in as few bits as hold it. -/
def write (value : UInt64) : DrawM Unit := fun s =>
  if s.maxDraws ≤ s.record.size then (.error (.failed (.overrun s.maxDraws)), s)
  else
    let width := UInt8.ofNat (max 1 (bitLength value.toNat))
    (.ok (), { s with record := s.record.push (Draw.fit width value) })

/-- Counts one answer of the filter called `name`. -/
def recordPredicate (name : String) (satisfied : Bool) (s : Source) : Source :=
  let count (old : Option PredicateCounts) : PredicateCounts :=
    let old := old.getD ⟨0, 0⟩
    if satisfied then { old with satisfied := old.satisfied + 1 }
    else { old with unsatisfied := old.unsatisfied + 1 }
  { s with predicates := Assoc.alter name count s.predicates }

/-- A draw that succeeds stayed within the budget and left a record longer by one. -/
theorem bits_ok {width : UInt8} {s s' : Source} {v : UInt64} (h : bits width s = (.ok v, s')) :
    s.record.size < s.maxDraws ∧ s'.maxDraws = s.maxDraws ∧ s'.record.size = s.record.size + 1 := by
  unfold bits at h
  split at h
  · cases h
  · rename_i hb
    cases h
    exact ⟨Nat.lt_of_not_le hb, rfl, Array.size_push _⟩

/-- Draws `width` bits again and again until `accept` makes something of them. -/
def drawUntil {α : Type} (width : UInt8) (accept : UInt64 → Option α) (s : Source) :
    Except Stop α × Source :=
  match _h : bits width s with
  | (.error e, s') => (.error e, s')
  | (.ok v, s') =>
    match accept v with
    | some a => (.ok a, s')
    | none => drawUntil width accept s'
termination_by s.maxDraws - s.record.size
decreasing_by
  have := bits_ok _h
  omega

end Source

end Falsify
