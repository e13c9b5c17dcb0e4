import Falsify.Outcome

/-!
# Deadlines

A body may take so long and no longer; time spent drawing values does not count. While cases are
generated and shrunk the bound is a quarter longer, so that a case next to it does not pass in one
run and fail in the next. The deadline itself holds for the final replay, and is what reports
name.

* `Deadline.bound`: the bound in force, if it can be kept;
* `Deadline.check`: whether a time is within it.
-/

namespace Falsify

inductive DeadlineMode where
  | configured
  | relaxed
  | disabled
  deriving DecidableEq

def DeadlineMode.name : DeadlineMode → String
  | .configured => "configured"
  | .relaxed => "relaxed"
  | .disabled => "disabled"

/-- A deadline and how it is applied. -/
structure Deadline where
  deadline : Option Duration
  mode : DeadlineMode

/-- What happens when a bound is too long to be kept. -/
def durationOverflow : Crash :=
  .text "overflow when multiplying duration by scalar"

namespace Deadline

def ofDeadline (deadline : Option Duration) : Deadline :=
  ⟨deadline, if deadline.isSome then .configured else .disabled⟩

/-- Another mode. Without a deadline there is only one. -/
def withMode (d : Deadline) (mode : DeadlineMode) : Deadline :=
  { d with mode := if d.deadline.isSome then mode else .disabled }

/-- The bound in force: the deadline, or five quarters of it. -/
def bound (d : Deadline) : Except Crash (Option Duration) :=
  match d.mode, d.deadline with
  | .configured, some deadline => .ok (some deadline)
  | .relaxed, some deadline =>
    match deadline.times? 5 with
    | some five => .ok (some ⟨five.nanos / 4⟩)
    | none => .error durationOverflow
  | _, _ => .ok none

/-- The failure of an execution that took longer than the bound in force. -/
def check (d : Deadline) (execution : Duration) : Except Crash (Option FailureReason) := do
  match ← d.bound, d.deadline with
  | some bound, some deadline =>
    return if bound < execution then some (.deadlineExceeded execution deadline) else none
  | _, _ => return none

end Deadline

end Falsify
