import Falsify.Arithmetic

/-!
# Spans of time

Spans of time in whole nanoseconds. A span is kept in a word of seconds and the nanoseconds left
over, which bounds what can be kept; sums and products beyond the bound are refused.

* `Duration.plus?`: a sum, as long as it can be kept;
* `Duration.times?`: a multiple, as long as it can be kept;
* `Duration.seconds`, `Duration.milliseconds`: the span as a floating-point number.
-/

namespace Falsify

/-- A span of time. -/
structure Duration where
  nanos : Nat
  deriving DecidableEq, Inhabited

namespace Duration

/-- Spans of this many nanoseconds and more cannot be kept. -/
def limit : Nat := 2 ^ 64 * 10 ^ 9

def zero : Duration := ⟨0⟩

def ofSeconds (n : Nat) : Duration := ⟨n * 10 ^ 9⟩

def ofMillis (n : Nat) : Duration := ⟨n * 10 ^ 6⟩

/-- Whole seconds, and nanoseconds. -/
def ofParts (seconds nanos : Nat) : Duration := ⟨seconds * 10 ^ 9 + nanos⟩

def wholeSeconds (d : Duration) : Nat := d.nanos / 10 ^ 9

def subsecNanos (d : Duration) : Nat := d.nanos % 10 ^ 9

/-- The sum of two spans. -/
def plus? (d e : Duration) : Option Duration :=
  if d.nanos + e.nanos < limit then some ⟨d.nanos + e.nanos⟩ else none

/-- A multiple of a span. -/
def times? (d : Duration) (k : Nat) : Option Duration :=
  if d.nanos * k < limit then some ⟨d.nanos * k⟩ else none

/-- The span as a number of seconds: the whole seconds and the rest are added as numbers. -/
def seconds (d : Duration) : Float :=
  (UInt64.ofNat d.wholeSeconds).toFloat + (UInt64.ofNat d.subsecNanos).toFloat / 1000000000.0

def milliseconds (d : Duration) : Float :=
  d.seconds * 1000.0

instance : LE Duration := ⟨fun a b => a.nanos ≤ b.nanos⟩

instance : LT Duration := ⟨fun a b => a.nanos < b.nanos⟩

instance (a b : Duration) : Decidable (a ≤ b) :=
  inferInstanceAs (Decidable (a.nanos ≤ b.nanos))

instance (a b : Duration) : Decidable (a < b) :=
  inferInstanceAs (Decidable (a.nanos < b.nanos))

/-- Addition without a bound. -/
instance : Add Duration := ⟨fun a b => ⟨a.nanos + b.nanos⟩⟩

/-- Subtraction stops at zero. -/
instance : Sub Duration := ⟨fun a b => ⟨a.nanos - b.nanos⟩⟩

end Duration

/-- Seconds since the epoch of a time that lies `nanos` nanoseconds from it; times before it count
as the epoch itself. -/
def timestamp (nanos : Int) : Float :=
  (Duration.mk nanos.toNat).seconds

end Falsify
