import PowerTrace.Time

/-!
# Running duration statistics

The aggregate kept for every idle depth and every frequency: how many durations were recorded,
the shortest, the longest, their mean and their sum.  Only the aggregate is kept, so the mean is
a running one: recording the `n`-th duration `d` moves the mean by `(d - mean) / n`.

* `DurationStats.record`: one more duration;
* `DurationStats.recordAll`: a whole list of them, in order.
-/

namespace PowerTrace

/-- The aggregate of the durations recorded so far, in microseconds. -/
structure DurationStats (τ : Type) where
  /-- How many durations were recorded. -/
  count : Nat
  /-- The shortest of them, zero while there is none. -/
  min : τ
  /-- The longest of them, zero while there is none. -/
  max : τ
  /-- Their running mean. -/
  avg : τ
  /-- Their sum. -/
  total : τ
  deriving Repr

namespace DurationStats

variable {τ : Type} [TimeValue τ]

/-- Nothing recorded yet. -/
def empty : DurationStats τ where
  count := 0
  min := TimeValue.zero
  max := TimeValue.zero
  avg := TimeValue.zero
  total := TimeValue.zero

instance : Inhabited (DurationStats τ) := ⟨empty⟩

/-- Fold one more duration into the aggregate.  The first one is both the shortest and the
longest, whatever the empty aggregate held. -/
def record (s : DurationStats τ) (d : τ) : DurationStats τ where
  count := s.count + 1
  min := if s.count = 0 then d else TimeValue.lower s.min d
  max := if s.count = 0 then d else TimeValue.upper s.max d
  avg := s.avg + (d - s.avg) / TimeValue.ofNat (s.count + 1)
  total := s.total + d

/-- Fold a list of durations into the aggregate, first to last. -/
def recordAll (s : DurationStats τ) (ds : List τ) : DurationStats τ := ds.foldl record s

omit [TimeValue τ] in
/-- Whether nothing was recorded yet. -/
def isEmpty (s : DurationStats τ) : Bool := s.count == 0

@[simp] theorem count_empty : (empty : DurationStats τ).count = 0 := rfl

@[simp] theorem count_record (s : DurationStats τ) (d : τ) : (s.record d).count = s.count + 1 := rfl

@[simp] theorem total_record (s : DurationStats τ) (d : τ) : (s.record d).total = s.total + d := rfl

@[simp] theorem recordAll_nil (s : DurationStats τ) : s.recordAll [] = s := rfl

@[simp] theorem recordAll_cons (s : DurationStats τ) (d : τ) (ds : List τ) :
    s.recordAll (d :: ds) = (s.record d).recordAll ds := rfl

theorem count_recordAll (s : DurationStats τ) (ds : List τ) :
    (s.recordAll ds).count = s.count + ds.length := by
  induction ds generalizing s with
  | nil => rfl
  | cons d ds ih => rw [recordAll_cons, ih, count_record, List.length_cons]; omega

theorem total_recordAll (s : DurationStats τ) (ds : List τ) :
    (s.recordAll ds).total = ds.foldl (· + ·) s.total := by
  induction ds generalizing s with
  | nil => rfl
  | cons d ds ih => rw [recordAll_cons, ih, total_record, List.foldl_cons]

end DurationStats

end PowerTrace
