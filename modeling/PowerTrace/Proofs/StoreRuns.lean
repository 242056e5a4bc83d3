import PowerTrace.Proofs.Retention
import PowerTrace.Proofs.SortedSets

/-!
# What a store of interval sets holds

Whatever is done to a store, each of its sets is sorted, and is told by what was added to it since it
was made.  Two sets can therefore be intersected at any time, and the pieces are exact.

* `StoreOp`: what can be done to a store;
* `Additions`: what was added to each set, in the order of adding;
* `IntervalStore.sets_performAll`: a set is what was added to it, sorted by start;
* `IntervalStore.sorted_performAll`: every set is sorted;
* `IntervalStore.intersection_exact`: what all this says of every store, and of two of its sets.
-/

namespace PowerTrace

open TimeValue OrderedTime

variable {τ : Type}

/-- What can be done to a store of interval sets. -/
inductive StoreOp (τ : Type) where
  /-- An empty set is made. -/
  | alloc
  /-- An interval is added to a set. -/
  | push (id : SetId) (i : Interval τ)
  /-- The pieces common to two sets become a set. -/
  | intersect (a b : SetId)
  /-- All sets but the first few are released. -/
  | truncate (n : ℕ)
  deriving Repr

/-- The error about a handle that leads to no set. -/
def SetId.unknown (id : SetId) : Error := .other ("unknown interval set " ++ toString id.index)

/-- What was added to each set of a store, first to last.  A set made of common pieces starts with
them. -/
abbrev Additions (τ : Type) := List (List (Interval τ))

namespace IntervalStore

variable {s : IntervalStore τ} {id a b : SetId} {x : IntervalSet τ}

theorem get_eq_error (h : s.get? id = none) : s.get id = .error id.unknown := by
  rw [get, h]
  rfl

variable [TimeValue τ]

theorem push_eq_error (h : s.get? id = none) (i : Interval τ) : s.push id i = .error id.unknown := by
  rw [push, get_eq_error h]
  rfl

theorem intersect_eq_error_left (h : s.get? a = none) (b : SetId) :
    s.intersect a b = .error a.unknown := by
  rw [intersect, get_eq_error h]
  rfl

theorem intersect_eq_error_right (ha : s.get? a = some x) (hb : s.get? b = none) :
    s.intersect a b = .error b.unknown := by
  rw [intersect, get, ha, get_eq_error hb]
  rfl

/-- What becomes of a store.  An operation that fails leaves it as it is. -/
def perform (s : IntervalStore τ) : StoreOp τ → IntervalStore τ
  | .alloc => s.alloc.1
  | .push id i =>
    match s.push id i with
    | .ok s' => s'
    | .error _ => s
  | .intersect a b =>
    match s.intersect a b with
    | .ok (s', _) => s'
    | .error _ => s
  | .truncate n => s.truncate n

/-- What becomes of a store, first to last. -/
def performAll (s : IntervalStore τ) (ops : List (StoreOp τ)) : IntervalStore τ := ops.foldl perform s

theorem perform_push_of_error {e : Error} {i : Interval τ} (h : s.push id i = .error e) :
    s.perform (.push id i) = s := by
  rw [perform, h]

theorem perform_intersect_of_error {e : Error} (h : s.intersect a b = .error e) :
    s.perform (.intersect a b) = s := by
  rw [perform, h]

end IntervalStore

variable [TimeValue τ]

/-- What becomes of what was added. -/
def Additions.perform (l : Additions τ) : StoreOp τ → Additions τ
  | .alloc => l ++ [[]]
  | .push id i => l.modify id.index (· ++ [i])
  | .intersect a b =>
    match l[a.index]?, l[b.index]? with
    | some x, some y => l ++ [(IntervalSet.ofPushed x).intersect (IntervalSet.ofPushed y)]
    | _, _ => l
  | .truncate n => l.take n

/-- What becomes of what was added, first to last. -/
def Additions.performAll (l : Additions τ) (ops : List (StoreOp τ)) : Additions τ := ops.foldl perform l

namespace IntervalStore

variable {s : IntervalStore τ} {l : Additions τ}

/-! ### The sets are told by what was added to them -/

variable {R : Type} [LinearOrder R] [OrderedTime τ R]

omit [LinearOrder R] [OrderedTime τ R] in
theorem get?_eq_map (h : s.sets = l.map IntervalSet.ofPushed) (id : SetId) :
    s.get? id = l[id.index]?.map IntervalSet.ofPushed := by
  rw [get?, h, List.getElem?_map]

include R

theorem sets_perform_push (h : s.sets = l.map IntervalSet.ofPushed) (id : SetId) (i : Interval τ) :
    (s.perform (.push id i)).sets = (l.perform (.push id i)).map IntervalSet.ofPushed := by
  cases hget : l[id.index]? with
  | none =>
    have hnone : s.get? id = none := by rw [get?_eq_map h, hget]; rfl
    have hsame : l.modify id.index (· ++ [i]) = l :=
      List.modify_eq_self (List.getElem?_eq_none_iff.mp hget)
    rw [perform_push_of_error (push_eq_error hnone i), Additions.perform, hsame, h]
  | some is =>
    have hsome : s.get? id = some (IntervalSet.ofPushed is) := by rw [get?_eq_map h, hget]; rfl
    obtain ⟨s', hpush, -, hsets⟩ := exists_push hsome i
    rw [perform, hpush]
    refine List.ext_getElem? fun k => ?_
    have hk := hsets ⟨k⟩
    rw [get?, get?_eq_map h] at hk
    rw [hk, Additions.perform, List.getElem?_map]
    by_cases hid : id.index = k
    · subst hid
      rw [if_pos rfl, List.getElem?_modify_eq, hget]
      exact congrArg some (IntervalSet.ofPushed_concat is i).symm
    · rw [if_neg fun he => hid (congrArg SetId.index he).symm, List.getElem?_modify_ne _ _ hid]

theorem sets_perform_intersect (h : s.sets = l.map IntervalSet.ofPushed) (a b : SetId) :
    (s.perform (.intersect a b)).sets = (l.perform (.intersect a b)).map IntervalSet.ofPushed := by
  have hget := get?_eq_map h
  cases ha : l[a.index]? with
  | none =>
    have hnone : s.get? a = none := by rw [hget, ha]; rfl
    rw [perform_intersect_of_error (intersect_eq_error_left hnone b), Additions.perform, ha, h]
  | some is =>
    have hx : s.get? a = some (IntervalSet.ofPushed is) := by rw [hget, ha]; rfl
    cases hb : l[b.index]? with
    | none =>
      have hnone : s.get? b = none := by rw [hget, hb]; rfl
      rw [perform_intersect_of_error (intersect_eq_error_right hx hnone), Additions.perform, ha, hb, h]
    | some js =>
      have hy : s.get? b = some (IntervalSet.ofPushed js) := by rw [hget, hb]; rfl
      -- the pieces are sorted already
      have hpieces :=
        (IntervalSet.sorted_ofPushed is).intersect (IntervalSet.sorted_ofPushed js)
      rw [perform, intersect_eq_ok hx hy, Additions.perform, ha, hb]
      show s.sets ++ [_] = _
      rw [h, List.map_append, List.map_singleton, hpieces.ofPushed_eq]

theorem sets_perform (h : s.sets = l.map IntervalSet.ofPushed) (op : StoreOp τ) :
    (s.perform op).sets = (l.perform op).map IntervalSet.ofPushed := by
  cases op with
  | alloc =>
    show s.sets ++ [[]] = (l ++ [[]]).map IntervalSet.ofPushed
    rw [h, List.map_append, List.map_singleton, IntervalSet.ofPushed_nil]
  | push id i => exact sets_perform_push h id i
  | intersect a b => exact sets_perform_intersect h a b
  | truncate n =>
    show s.sets.take n = (l.take n).map IntervalSet.ofPushed
    rw [h, List.map_take]

/-- **Every set of a store is what was added to it, sorted by start.** -/
theorem sets_performAll (h : s.sets = l.map IntervalSet.ofPushed) (ops : List (StoreOp τ)) :
    (s.performAll ops).sets = (l.performAll ops).map IntervalSet.ofPushed := by
  induction ops generalizing s l with
  | nil => exact h
  | cons op ops ih => exact ih (sets_perform h op)

/-- **Every set of a store is sorted**, in whichever way it was made. -/
theorem sorted_performAll (ops : List (StoreOp τ)) :
    ∀ x ∈ ((empty : IntervalStore τ).performAll ops).sets, x.Sorted := by
  rw [sets_performAll (s := empty) (l := []) rfl ops]
  exact List.forall_mem_map.mpr fun is _ => IntervalSet.sorted_ofPushed is

/-! ### Two sets -/

/-- **A store holds what was added to it, and intersecting is exact.**  After all that can be done to a
store, in any order: each set is what was added to it since it was made, sorted by start, with those that
start together in the order of adding and those that are not proper left out; so every set is sorted.  Of
any two of its sets the common pieces can be made.  They come under a fresh handle, after all other
sets, which stay as they are.  They are sorted, and hold an instant if both sets hold it, whether or not
intervals of one set overlap.  If no instant is in two intervals of one of the sets, none is in two of the
pieces, and either way round the pieces are the same.  With a handle that leads to no set neither adding nor
intersecting does anything but fail. -/
theorem intersection_exact (ops : List (StoreOp τ)) :
    let s := (empty : IntervalStore τ).performAll ops
    s.sets = (Additions.performAll [] ops).map IntervalSet.ofPushed ∧
    (∀ x ∈ s.sets, x.Sorted) ∧
    (∀ a b x y, s.get? a = some x → s.get? b = some y →
      ∃ z : IntervalSet τ, s.intersect a b = .ok (⟨s.sets ++ [z]⟩, ⟨s.size⟩) ∧ z.Sorted ∧
        (∀ t, z.Holds t ↔ x.Holds t ∧ y.Holds t) ∧
        (x.NoOverlap → y.NoOverlap → z.NoOverlap ∧
          ∃ z', s.intersect b a = .ok (⟨s.sets ++ [z']⟩, ⟨s.size⟩) ∧
            List.Forall₂ Interval.Same z z')) ∧
    (∀ id i, s.get? id = none →
      s.push id i = .error id.unknown ∧ s.perform (.push id i) = s) ∧
    (∀ a b, s.get? a = none ∨ s.get? b = none →
      s.intersect a b = .error (if (s.get? a).isNone then a else b).unknown ∧
        s.perform (.intersect a b) = s) := by
  intro s
  have hsorted : ∀ x ∈ s.sets, x.Sorted := sorted_performAll ops
  refine ⟨sets_performAll (s := empty) (l := []) rfl ops, hsorted, fun a b x y ha hb => ?_, fun id i h => ?_,
    fun a b h => ?_⟩
  · have hx : x.Sorted := hsorted x (List.mem_of_getElem? ha)
    have hy : y.Sorted := hsorted y (List.mem_of_getElem? hb)
    have hz : (x.intersect y).Sorted := hx.intersect hy
    refine ⟨x.intersect y, intersect_eq_ok ha hb, hz, fun t => hx.holds_intersect hy, ?_⟩
    intro hxapart hyapart
    have hxo := hx.ordered_iff.mpr hxapart
    have hyo := hy.ordered_iff.mpr hyapart
    exact ⟨hz.ordered_iff.mp (hxo.intersect hyo), y.intersect x, intersect_eq_ok hb ha,
      IntervalSet.same_intersect_comm hxo hyo⟩
  · have hfails := push_eq_error h i
    exact ⟨hfails, perform_push_of_error hfails⟩
  · have hfails : s.intersect a b = .error (if (s.get? a).isNone then a else b).unknown := by
      cases ha : s.get? a with
      | none => exact intersect_eq_error_left ha b
      | some x =>
        have hb : s.get? b = none := h.resolve_left fun hnone => nomatch ha.symm.trans hnone
        exact intersect_eq_error_right ha hb
    exact ⟨hfails, perform_intersect_of_error hfails⟩

end IntervalStore

end PowerTrace
