import Mathlib.Algebra.BigOperators.Group.List.Basic
import PowerTrace.CState
import PowerTrace.PState

/-!
# Totals over a table

The statistics of an entity are kept in tables, and an operation changes one entry of a table.  A
total over the table then moves by what the entry moves by, whatever it is a total of.

* `sum_map_set`: totals over a list of which one entry is replaced;
* `CStateTrack.sum_slots_set`: totals over the depths of an idle track;
* `PStateTrack.sum_slots_modify`: totals over the slots of a frequency track.
-/

namespace PowerTrace

variable {τ M : Type} [AddCommMonoid M]

theorem sum_map_set {α : Type} (f : α → M) {l : List α} {i : Nat} (h : i < l.length) (a : α) :
    ((l.set i a).map f).sum + f l[i] = (l.map f).sum + f a := by
  induction l generalizing i with
  | nil => exact absurd h (Nat.not_lt_zero i)
  | cons b l ih =>
    cases i with
    | zero =>
      show f a + (l.map f).sum + f b = f b + (l.map f).sum + f a
      rw [add_right_comm, add_comm (f a), add_right_comm]
    | succ i =>
      have hlt : i < l.length := Nat.lt_of_succ_lt_succ h
      have ih := ih hlt
      show f b + ((l.set i a).map f).sum + f l[i] = f b + (l.map f).sum + f a
      rw [add_assoc, ih, add_assoc]

theorem CStateTrack.sum_slots_set (f : CState τ → M) (t : CStateTrack τ) (d : Depth)
    (s : CState τ) :
    ((t.slots.set d.val s d.isLt).toList.map f).sum + f (t.slot d) =
      (t.slots.toList.map f).sum + f s := by
  have hlen : d.val < t.slots.toList.length := by
    rw [Vector.length_toList]
    exact d.isLt
  have hslot : t.slots.toList[d.val] = t.slot d := Vector.getElem_toList _
  have hset := sum_map_set f hlen s
  rw [Vector.toList_set, ← hslot]
  exact hset

theorem PStateTrack.sum_slots_modify (f : PState τ → M) (g : PState τ → PState τ)
    (t : PStateTrack τ) {i : Nat} (h : i < t.slots.length) :
    ((t.slots.modify i g).map f).sum + f t.slots[i] = (t.slots.map f).sum + f (g t.slots[i]) := by
  have hset : t.slots.modify i g = t.slots.set i (g t.slots[i]) := by
    rw [List.modify_eq_take_cons_drop h, List.set_eq_take_append_cons_drop, if_pos h]
  rw [hset]
  exact sum_map_set f h _

end PowerTrace
