import Mathlib.Algebra.BigOperators.Group.List.Basic
import Mathlib.Algebra.Order.Field.Rat
import Mathlib.Tactic.Linarith
import Mathlib.Tactic.Ring
import PowerTrace.Time

/-!
# Exact time

The same replay on rational instants, where durations add up and nothing is rounded.

* the instance of `TimeValue` at `ℚ`;
* `TimeValue.span_add`: spans that meet add up;
* `TimeValue.span_nonneg`: a span that does not run backwards is not negative.
-/

namespace PowerTrace

/-- Exact rationals: every comparison means what it says. -/
instance : TimeValue ℚ where
  ofNat n := n
  lt a b := decide (a < b)
  le a b := decide (a ≤ b)
  lower := min
  upper := max

namespace TimeValue

theorem zero_eq : (zero : ℚ) = 0 := Nat.cast_zero

theorem lt_iff {a b : ℚ} : TimeValue.lt a b = true ↔ a < b := decide_eq_true_iff

theorem le_iff {a b : ℚ} : TimeValue.le a b = true ↔ a ≤ b := decide_eq_true_iff

theorem span_eq (a b : ℚ) : span a b = (b - a) * 1000000 := by
  show (b - a) * ((1000000 : ℕ) : ℚ) = (b - a) * 1000000
  norm_num

@[simp] theorem span_self (a : ℚ) : span a a = 0 := by
  rw [span_eq, sub_self, zero_mul]

theorem span_add (a b c : ℚ) : span a b + span b c = span a c := by
  rw [span_eq, span_eq, span_eq]
  ring

theorem span_nonneg {a b : ℚ} (h : a ≤ b) : 0 ≤ span a b := by
  rw [span_eq]
  exact mul_nonneg (sub_nonneg.mpr h) (by norm_num)

/-- A span that neither runs backwards nor has a length is empty. -/
theorem span_eq_zero {a b : ℚ} (h : a ≤ b) (hs : span a b ≤ 0) : span a b = 0 :=
  le_antisymm hs (span_nonneg h)

end TimeValue

end PowerTrace
