import PowerTrace.Error
import PowerTrace.Interval

/-!
# A store of interval sets

Sets are kept in the order they were made and addressed by handles.  Combining two sets never
touches either of them: the result is a set of its own under a fresh handle, and all sets made
after some moment can be released together.

* `IntervalStore.alloc`, `push`, `get?`: make a set, add to it, look at it;
* `IntervalStore.intersect`: the pieces common to two sets, under a fresh handle;
* `IntervalStore.truncate`: release every set made after the first few.
-/

namespace PowerTrace

/-- The address of a set in a store. -/
structure SetId where
  /-- Its place in the order of making. -/
  index : Nat
  deriving DecidableEq, Repr

/-- Interval sets in the order they were made. -/
structure IntervalStore (τ : Type) where
  /-- The sets. -/
  sets : List (IntervalSet τ)
  deriving Repr

namespace IntervalStore

variable {τ : Type}

/-- No set made yet. -/
def empty : IntervalStore τ := ⟨[]⟩

instance : Inhabited (IntervalStore τ) := ⟨empty⟩

/-- How many sets the store holds. -/
def size (s : IntervalStore τ) : Nat := s.sets.length

/-- The set at a handle. -/
def get? (s : IntervalStore τ) (id : SetId) : Option (IntervalSet τ) := s.sets[id.index]?

/-- The set at a handle, or an error that names the handle. -/
def get (s : IntervalStore τ) (id : SetId) : Except Error (IntervalSet τ) :=
  match s.get? id with
  | some set => .ok set
  | none => .error (.other ("unknown interval set " ++ toString id.index))

/-- Keep one more set. -/
def add (s : IntervalStore τ) (set : IntervalSet τ) : IntervalStore τ × SetId :=
  (⟨s.sets ++ [set]⟩, ⟨s.size⟩)

/-- Make an empty set. -/
def alloc (s : IntervalStore τ) : IntervalStore τ × SetId := s.add []

/-- Release every set made after the first `n`. -/
def truncate (s : IntervalStore τ) (n : Nat) : IntervalStore τ := ⟨s.sets.take n⟩

variable [TimeValue τ]

/-- Add an interval to a set.  An interval that does not end after it starts adds nothing. -/
def push (s : IntervalStore τ) (id : SetId) (i : Interval τ) : Except Error (IntervalStore τ) := do
  let set ← s.get id
  if i.isProper then .ok ⟨s.sets.set id.index (set.insert i)⟩ else .ok s

/-- The pieces common to two sets, under a fresh handle. -/
def intersect (s : IntervalStore τ) (a b : SetId) : Except Error (IntervalStore τ × SetId) := do
  let x ← s.get a
  let y ← s.get b
  .ok (s.add (x.intersect y))

theorem intersect_eq_ok {s : IntervalStore τ} {a b : SetId} {x y : IntervalSet τ}
    (ha : s.get? a = some x) (hb : s.get? b = some y) :
    s.intersect a b = .ok (s.add (x.intersect y)) := by
  rw [intersect, get, get, ha, hb]
  rfl

omit [TimeValue τ] in
@[simp] theorem size_add (s : IntervalStore τ) (set : IntervalSet τ) :
    (s.add set).1.size = s.size + 1 := by
  simp [add, size]

omit [TimeValue τ] in
@[simp] theorem get?_add_self (s : IntervalStore τ) (set : IntervalSet τ) :
    (s.add set).1.get? (s.add set).2 = some set := by
  simp [add, get?, size]

end IntervalStore

end PowerTrace
