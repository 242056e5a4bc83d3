import PowerTrace.CState
import PowerTrace.IntervalStore

/-!
# Retained idle intervals

One interval set for every CPU and depth at which an interval was counted, for questions about
several CPUs at once.

* `RetainedIntervals.record`: keep an interval;
* `RetainedIntervals.overlap`: how long a list of CPUs was idle at one depth together.

An overlap query makes sets of its own on the way and releases them before it answers.
-/

namespace PowerTrace

/-- Where the intervals of one CPU at one depth are kept. -/
structure RetainedSet where
  /-- The CPU. -/
  cpu : CpuId
  /-- The depth. -/
  depth : Depth
  /-- The set that holds its intervals. -/
  set : SetId
  deriving DecidableEq, Repr

/-- The idle intervals of every CPU. -/
structure RetainedIntervals (τ : Type) where
  /-- The interval sets. -/
  store : IntervalStore τ
  /-- Which set is whose. -/
  index : List RetainedSet
  deriving Repr

namespace RetainedIntervals

variable {τ : Type}

/-- Nothing kept yet. -/
def empty : RetainedIntervals τ := ⟨.empty, []⟩

instance : Inhabited (RetainedIntervals τ) := ⟨empty⟩

/-- The handle of the intervals of a CPU at a depth, if any were kept. -/
def setOf? (r : RetainedIntervals τ) (cpu : CpuId) (depth : Nat) : Option SetId :=
  (r.index.find? fun e => e.cpu == cpu && e.depth.val == depth).map (·.set)

/-- The handle of the intervals of a CPU at a depth, made if need be. -/
def ensure (r : RetainedIntervals τ) (cpu : CpuId) (depth : Depth) :
    RetainedIntervals τ × SetId :=
  match r.setOf? cpu depth.val with
  | some id => (r, id)
  | none =>
    let (store, id) := r.store.alloc
    (⟨store, r.index ++ [⟨cpu, depth, id⟩]⟩, id)

variable [TimeValue τ]

/-- Keep an interval of a CPU. -/
def record (r : RetainedIntervals τ) (cpu : CpuId) (i : ClosedInterval τ) :
    Except Error (RetainedIntervals τ) := do
  let (r, id) := r.ensure cpu i.depth
  let store ← r.store.push id ⟨i.start, i.stop⟩
  .ok { r with store }

/-- The pieces common to a set and to all sets of a list, intersected one after the other. -/
def meetAll (store : IntervalStore τ) (first : SetId) (rest : List SetId) :
    Except Error (IntervalStore τ × SetId) :=
  rest.foldlM (fun (store, acc) id => store.intersect acc id) (store, first)

/-- How long, in microseconds, all CPUs of a list were idle at a depth together; and what is kept
afterwards.  No CPUs have no time together, nor has a CPU without intervals at that depth. -/
def overlap (r : RetainedIntervals τ) (cpus : List CpuId) (depth : Nat) :
    Except Error (τ × RetainedIntervals τ) :=
  match cpus.mapM (r.setOf? · depth) with
  | none | some [] => .ok (TimeValue.zero, r)
  | some (first :: rest) => do
    let (store, id) ← meetAll r.store first rest
    let total := ((store.get? id).map IntervalSet.total).getD TimeValue.zero
    .ok (total, { r with store := store.truncate r.store.size })

end RetainedIntervals

end PowerTrace
