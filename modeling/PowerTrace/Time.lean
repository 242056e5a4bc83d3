/-!
# Instants and durations

Every statistic of this library is computed from a handful of operations on two kinds of
quantity: *instants*, in seconds, and *durations*, in microseconds.  This file names those
operations once, so that the same replay runs on the doubles a trace file holds and on exact
rationals:

* `TimeValue τ`: the operations, as data only (no laws);
* `TimeValue.span`: the duration between two instants;
* the instance at `Float`, whose `lower` and `upper` pass over a NaN operand.
-/

namespace PowerTrace

/-- The arithmetic of instants and durations.  Comparisons are `Bool`-valued because the doubles
are not linearly ordered: a comparison with NaN is `false` both ways round. -/
class TimeValue (τ : Type) extends Add τ, Sub τ, Mul τ, Div τ where
  /-- A count as a quantity. -/
  ofNat : Nat → τ
  /-- Strictly before, or strictly shorter. -/
  lt : τ → τ → Bool
  /-- Not after, or not longer. -/
  le : τ → τ → Bool
  /-- The lower of two quantities. -/
  lower : τ → τ → τ
  /-- The upper of two quantities. -/
  upper : τ → τ → τ

namespace TimeValue

variable {τ : Type} [TimeValue τ]

/-- The quantity zero: the empty duration, and the instant a track holds before its first event. -/
def zero : τ := ofNat 0

/-- Microseconds in a second. -/
def microsPerSecond : τ := ofNat 1000000

/-- The duration, in microseconds, from one instant to another. -/
def span (start stop : τ) : τ := (stop - start) * microsPerSecond

end TimeValue

/-- Doubles: the lower and the upper of two values is the other one when one of them is NaN. -/
instance : TimeValue Float where
  ofNat n := Float.ofNat n
  lt a b := a < b
  le a b := a ≤ b
  lower a b := if a.isNaN || b < a then b else a
  upper a b := if a.isNaN || a < b then b else a

end PowerTrace
