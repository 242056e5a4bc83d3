import PowerTrace.Time

/-!
# Interval sets

A set of instants given by intervals that are listed by their start.

* `IntervalSet.insert`: one more interval, after all that start no later;
* `IntervalSet.intersect`: the pieces common to two sets, by one sweep over both;
* `IntervalSet.total`: the summed length.
-/

namespace PowerTrace

/-- The instants from `start` up to `stop`, in seconds. -/
structure Interval (τ : Type) where
  /-- Start of the interval. -/
  start : τ
  /-- End of the interval. -/
  stop : τ
  deriving Repr

namespace Interval

variable {τ : Type} [TimeValue τ]

/-- Length in microseconds. -/
def duration (i : Interval τ) : τ := TimeValue.span i.start i.stop

/-- Whether the interval ends after it starts. -/
def isProper (i : Interval τ) : Bool := TimeValue.lt i.start i.stop

/-- The piece common to two intervals; it need not be proper. -/
def meet (i j : Interval τ) : Interval τ :=
  { start := TimeValue.upper i.start j.start, stop := TimeValue.lower i.stop j.stop }

end Interval

/-- Intervals listed by their start. -/
abbrev IntervalSet (τ : Type) := List (Interval τ)

namespace IntervalSet

variable {τ : Type} [TimeValue τ]

/-- Insert an interval after all that start no later than it does. -/
def insert (s : IntervalSet τ) (i : Interval τ) : IntervalSet τ :=
  match s with
  | [] => [i]
  | j :: rest => if TimeValue.le j.start i.start then j :: insert rest i else i :: j :: rest

/-- Summed length in microseconds. -/
def total (s : IntervalSet τ) : τ := s.foldl (fun sum i => sum + i.duration) TimeValue.zero

/-- The pieces common to two sets.  The sweep compares the first intervals of both and goes on past
the one that ends first; on equal ends it goes on past the second. -/
def intersect : IntervalSet τ → IntervalSet τ → IntervalSet τ
  | [], _ => []
  | _ :: _, [] => []
  | x :: xs, y :: ys =>
    let rest :=
      if TimeValue.lt x.stop y.stop then intersect xs (y :: ys) else intersect (x :: xs) ys
    if (x.meet y).isProper then x.meet y :: rest else rest
termination_by xs ys => xs.length + ys.length

theorem mem_insert {s : IntervalSet τ} {i j : Interval τ} : j ∈ s.insert i ↔ j = i ∨ j ∈ s := by
  induction s with
  | nil => simp [insert]
  | cons k rest ih =>
    unfold insert
    split
    · rw [List.mem_cons, ih, List.mem_cons]
      exact or_left_comm
    · rw [List.mem_cons]

end IntervalSet

end PowerTrace
