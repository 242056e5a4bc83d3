import Mathlib.Algebra.Order.Group.MinMax
import PowerTrace.Proofs.ExactTime
import PowerTrace.Proofs.Sweep
import PowerTrace.Retained

/-!
# Shifted intervals

On exact instants only differences count: when all instants are moved by the same amount no duration
and no comparison changes.  Interval sets, stores of them and what is kept of every CPU can therefore
be moved before or after an operation.

* `TimeValue.span_shift`, `lt_shift`, `le_shift`: durations and comparisons stay;
* `IntervalSet.insert_shift`, `intersect_shift`: operations on sets move along;
* `IntervalSet.total_shift`: the summed length stays;
* `RetainedIntervals.record_shift`: what is kept moves along;
* `RetainedIntervals.overlap_shift`: an overlap query gives the same answer.
-/

namespace PowerTrace

namespace TimeValue

variable (a b c : ℚ)

theorem span_shift : span (a + c) (b + c) = span a b := by
  rw [span_eq, span_eq, add_sub_add_right_eq_sub]

theorem lt_shift : TimeValue.lt (a + c) (b + c) = TimeValue.lt a b :=
  decide_eq_decide.mpr (add_lt_add_iff_right c)

theorem le_shift : TimeValue.le (a + c) (b + c) = TimeValue.le a b :=
  decide_eq_decide.mpr (add_le_add_iff_right c)

theorem lower_shift : lower (a + c) (b + c) = lower a b + c := min_add_add_right a b c

theorem upper_shift : upper (a + c) (b + c) = upper a b + c := max_add_add_right a b c

end TimeValue

open TimeValue

variable (c : ℚ)

/-! ### Interval sets -/

/-- An interval that much later. -/
def Interval.shift (i : Interval ℚ) : Interval ℚ := ⟨i.start + c, i.stop + c⟩

/-- The interval a transition closes, that much later. -/
def ClosedInterval.shift (i : ClosedInterval ℚ) : ClosedInterval ℚ :=
  { i with start := i.start + c, stop := i.stop + c }

namespace Interval

variable (i j : Interval ℚ)

theorem duration_shift : (i.shift c).duration = i.duration := span_shift i.start i.stop c

theorem isProper_shift : (i.shift c).isProper = i.isProper := lt_shift i.start i.stop c

theorem meet_shift : (i.shift c).meet (j.shift c) = (i.meet j).shift c :=
  congrArg₂ Interval.mk (upper_shift i.start j.start c) (lower_shift i.stop j.stop c)

end Interval

namespace IntervalSet

/-- The same set that much later. -/
def shift (s : IntervalSet ℚ) : IntervalSet ℚ := s.map (Interval.shift c)

theorem insert_shift (s : IntervalSet ℚ) (i : Interval ℚ) :
    IntervalSet.insert (s.shift c) (i.shift c) = (IntervalSet.insert s i).shift c := by
  induction s with
  | nil => rfl
  | cons j rest ih =>
    show (if TimeValue.le (j.start + c) (i.start + c) then
        j.shift c :: IntervalSet.insert (IntervalSet.shift c rest) (i.shift c)
      else i.shift c :: j.shift c :: IntervalSet.shift c rest) = _
    rw [le_shift, ih, IntervalSet.insert]
    split <;> rfl

theorem intersect_shift (s t : IntervalSet ℚ) :
    intersect (s.shift c) (t.shift c) = (intersect s t).shift c := by
  induction s, t using sweep_induction with
  | nil_left t => rw [nil_intersect]; exact nil_intersect
  | nil_right s => rw [intersect_nil]; exact intersect_nil
  | step x xs y ys ihx ihy =>
    -- the same interval ends first, so the sweep goes on past the same one
    have hrest : (if TimeValue.lt (x.shift c).stop (y.shift c).stop then
          intersect (IntervalSet.shift c xs) (IntervalSet.shift c (y :: ys))
        else intersect (IntervalSet.shift c (x :: xs)) (IntervalSet.shift c ys)) =
        IntervalSet.shift c
          (if TimeValue.lt x.stop y.stop then intersect xs (y :: ys) else intersect (x :: xs) ys) := by
      rw [ihx, ihy, show TimeValue.lt (x.shift c).stop (y.shift c).stop = TimeValue.lt x.stop y.stop
        from lt_shift x.stop y.stop c]
      split <;> rfl
    show intersect (x.shift c :: IntervalSet.shift c xs) (y.shift c :: IntervalSet.shift c ys) = _
    rw [intersect, intersect, Interval.meet_shift, Interval.isProper_shift]
    rw [show (x.shift c :: IntervalSet.shift c xs) = IntervalSet.shift c (x :: xs) from rfl,
      show (y.shift c :: IntervalSet.shift c ys) = IntervalSet.shift c (y :: ys) from rfl, hrest]
    split <;> rfl

theorem total_shift (s : IntervalSet ℚ) : IntervalSet.total (s.shift c) = IntervalSet.total s := by
  rw [total, shift, List.foldl_map, total]
  simp only [Interval.duration_shift]

end IntervalSet

/-! ### Stores -/

namespace IntervalStore

/-- The same sets under the same handles, that much later. -/
def shift (s : IntervalStore ℚ) : IntervalStore ℚ := ⟨s.sets.map (IntervalSet.shift c)⟩

variable (s : IntervalStore ℚ)

theorem size_shift : (s.shift c).size = s.size := List.length_map _

theorem get?_shift (id : SetId) : (s.shift c).get? id = (s.get? id).map (IntervalSet.shift c) :=
  List.getElem?_map

theorem get_shift (id : SetId) : (s.shift c).get id = (s.get id).map (IntervalSet.shift c) := by
  rw [get, get?_shift, get]
  cases s.get? id <;> rfl

theorem add_shift (set : IntervalSet ℚ) :
    (s.shift c).add (set.shift c) = ((s.add set).1.shift c, (s.add set).2) := by
  rw [add, size_shift, add, shift, shift, List.map_append]
  rfl

theorem truncate_shift (n : ℕ) : (s.shift c).truncate n = (s.truncate n).shift c := by
  rw [truncate, shift, truncate, shift, List.map_take]

theorem push_shift (id : SetId) (i : Interval ℚ) :
    (s.shift c).push id (i.shift c) = (s.push id i).map (shift c) := by
  rw [push, get_shift, push]
  cases s.get id with
  | error err => rfl
  | ok set =>
    show (if (i.shift c).isProper then
        Except.ok ⟨(s.sets.map (IntervalSet.shift c)).set id.index
          (IntervalSet.insert (set.shift c) (i.shift c))⟩
      else Except.ok (s.shift c)) =
      Except.map (shift c)
        (if i.isProper then .ok ⟨s.sets.set id.index (IntervalSet.insert set i)⟩ else .ok s)
    rw [Interval.isProper_shift, IntervalSet.insert_shift, ← List.map_set]
    split <;> rfl

theorem intersect_shift (a b : SetId) :
    (s.shift c).intersect a b = (s.intersect a b).map fun p => (p.1.shift c, p.2) := by
  rw [intersect, get_shift, get_shift, intersect]
  cases s.get a with
  | error err => rfl
  | ok x =>
    cases s.get b with
    | error err => rfl
    | ok y =>
      show Except.ok ((s.shift c).add (IntervalSet.intersect (x.shift c) (y.shift c))) =
        Except.ok ((s.add (x.intersect y)).1.shift c, (s.add (x.intersect y)).2)
      rw [IntervalSet.intersect_shift, add_shift]

end IntervalStore

/-! ### What is kept -/

namespace RetainedIntervals

/-- The same intervals of the same CPUs, that much later. -/
def shift (r : RetainedIntervals ℚ) : RetainedIntervals ℚ := { r with store := r.store.shift c }

variable (r : RetainedIntervals ℚ)

theorem ensure_shift (cpu : CpuId) (depth : Depth) :
    (r.shift c).ensure cpu depth = ((r.ensure cpu depth).1.shift c, (r.ensure cpu depth).2) := by
  unfold ensure
  rw [show (r.shift c).setOf? cpu depth.val = r.setOf? cpu depth.val from rfl]
  cases r.setOf? cpu depth.val with
  | some id => rfl
  | none =>
    have halloc : (r.store.shift c).alloc = (r.store.alloc.1.shift c, r.store.alloc.2) :=
      r.store.add_shift c []
    show (RetainedIntervals.mk (r.store.shift c).alloc.1
      (r.index ++ [⟨cpu, depth, (r.store.shift c).alloc.2⟩]), (r.store.shift c).alloc.2) = _
    rw [halloc]
    rfl

theorem record_shift (cpu : CpuId) (i : ClosedInterval ℚ) :
    (r.shift c).record cpu (i.shift c) = (r.record cpu i).map (shift c) := by
  rw [record, show (i.shift c).depth = i.depth from rfl, ensure_shift, record]
  obtain ⟨kept, id⟩ := r.ensure cpu i.depth
  show (kept.store.shift c).push id (Interval.shift c ⟨i.start, i.stop⟩) >>= _ =
    (kept.store.push id ⟨i.start, i.stop⟩ >>= _).map (shift c)
  rw [IntervalStore.push_shift]
  cases kept.store.push id ⟨i.start, i.stop⟩ <;> rfl

theorem meetAll_shift (store : IntervalStore ℚ) (first : SetId) (rest : List SetId) :
    meetAll (store.shift c) first rest =
      (meetAll store first rest).map fun p => (p.1.shift c, p.2) := by
  induction rest generalizing store first with
  | nil => rfl
  | cons id rest ih =>
    show (store.shift c).intersect first id >>= (fun p => meetAll p.1 p.2 rest) =
      (store.intersect first id >>= fun p => meetAll p.1 p.2 rest).map _
    rw [IntervalStore.intersect_shift]
    cases store.intersect first id with
    | error err => rfl
    | ok p => exact ih p.1 p.2

/-- **An overlap query gives the same answer**, and what is kept afterwards moves along. -/
theorem overlap_shift (cpus : List CpuId) (depth : ℕ) :
    (r.shift c).overlap cpus depth = (r.overlap cpus depth).map fun p => (p.1, p.2.shift c) := by
  unfold overlap
  rw [show (r.shift c).setOf? = r.setOf? from rfl]
  rcases cpus.mapM (r.setOf? · depth) with _ | _ | ⟨first, rest⟩
  · rfl
  · rfl
  · show meetAll (r.store.shift c) first rest >>= _ = (meetAll r.store first rest >>= _).map _
    rw [meetAll_shift]
    cases meetAll r.store first rest with
    | error err => rfl
    | ok p =>
      have htotal : ((p.1.shift c).get? p.2).map IntervalSet.total =
          (p.1.get? p.2).map IntervalSet.total := by
        rw [IntervalStore.get?_shift, Option.map_map]
        congr 1
        exact funext (IntervalSet.total_shift c)
      show Except.ok ((((p.1.shift c).get? p.2).map IntervalSet.total).getD zero,
        { (r.shift c) with store := (p.1.shift c).truncate (r.store.shift c).size }) = _
      rw [htotal, IntervalStore.size_shift, IntervalStore.truncate_shift]
      rfl

end RetainedIntervals

end PowerTrace
