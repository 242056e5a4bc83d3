import Mathlib.Algebra.Order.Ring.Int
import Mathlib.Data.Prod.Lex
import Mathlib.Order.MinMax
import PowerTrace.Proofs.ExactTime

/-!
# The order of instants

Comparing instants and taking the lower or the upper of two is exact, also where the arithmetic of
instants rounds.  This file says what a proof about comparisons may use of both kinds of instant:

* `OrderedTime`: instants that are numbers are ordered by a rank, from a linear order;
* the instances at `ℚ`, where the rank is the instant, and at `Float`;
* `unpackedRank`, `unpacked_compare`: doubles are ordered by sign, then by exponent and mantissa, and
  both zeros are equal;
* `unpacked_sub_congr`: a difference does not tell the zeros apart either, unless it is zero.

NaN is not a number and compares with nothing.
-/

namespace PowerTrace

open TimeValue

/-- Instants whose comparisons come from a linear order, except for those that are no numbers. -/
class OrderedTime (τ : Type) [TimeValue τ] (R : outParam Type) [LinearOrder R] where
  /-- The place of an instant in the order. -/
  rank : τ → R
  /-- Whether an instant compares with others. -/
  IsNumber : τ → Prop
  isNumber_of_lt {a b : τ} : lt a b = true → IsNumber a ∧ IsNumber b
  lt_iff {a b : τ} : IsNumber a → IsNumber b → (lt a b = true ↔ rank a < rank b)
  le_iff {a b : τ} : IsNumber a → IsNumber b → (le a b = true ↔ rank a ≤ rank b)
  isNumber_lower {a b : τ} : IsNumber a → IsNumber b → IsNumber (lower a b)
  isNumber_upper {a b : τ} : IsNumber a → IsNumber b → IsNumber (upper a b)
  rank_lower {a b : τ} : IsNumber a → IsNumber b → rank (lower a b) = min (rank a) (rank b)
  rank_upper {a b : τ} : IsNumber a → IsNumber b → rank (upper a b) = max (rank a) (rank b)
  /-- A span depends on its ends only through their ranks. -/
  span_congr {a a' b b' : τ} : lt a b = true → IsNumber a' → IsNumber b' → rank a' = rank a →
    rank b' = rank b → span a' b' = span a b

/-- Exact rationals are their own ranks. -/
instance : OrderedTime ℚ ℚ where
  rank := id
  IsNumber _ := True
  isNumber_of_lt _ := ⟨trivial, trivial⟩
  lt_iff _ _ := TimeValue.lt_iff
  le_iff _ _ := TimeValue.le_iff
  isNumber_lower _ _ := trivial
  isNumber_upper _ _ := trivial
  rank_lower _ _ := rfl
  rank_upper _ _ := rfl
  span_congr := by
    rintro a a' b b' - - - rfl rfl
    rfl

/-! ### Doubles by sign, exponent and mantissa -/

open Float.Model (UnpackedFloat)

/-- The place of a double in the order: below zero the larger exponent or mantissa comes first. -/
def unpackedRank : UnpackedFloat → ℤ ×ₗ ℤ ×ₗ ℤ
  | .infinity .negative => toLex (-2, toLex (0, 0))
  | .finite .negative mantissa exponent _ => toLex (-1, toLex (-exponent, -mantissa))
  | .zero _ | .notANumber => toLex (0, toLex (0, 0))
  | .finite .positive mantissa exponent _ => toLex (1, toLex (exponent, mantissa))
  | .infinity .positive => toLex (2, toLex (0, 0))

theorem compare_natCast (m n : ℕ) : compare (m : ℤ) (n : ℤ) = compare m n := by
  rcases lt_trichotomy m n with h | rfl | h
  · rw [compare_lt_iff_lt.mpr h, compare_lt_iff_lt.mpr (Int.ofNat_lt.mpr h)]
  · rw [compare_eq_iff_eq.mpr rfl, compare_eq_iff_eq.mpr rfl]
  · rw [compare_gt_iff_gt.mpr h, compare_gt_iff_gt.mpr (Int.ofNat_lt.mpr h)]

theorem compare_neg_neg (a b : ℤ) : compare (-a) (-b) = (compare a b).swap := by
  rcases lt_trichotomy a b with h | rfl | h
  · rw [compare_lt_iff_lt.mpr h, compare_gt_iff_gt.mpr (neg_lt_neg h)]
    rfl
  · rw [compare_eq_iff_eq.mpr rfl, compare_eq_iff_eq.mpr rfl]
    rfl
  · rw [compare_gt_iff_gt.mpr h, compare_lt_iff_lt.mpr (neg_lt_neg h)]
    rfl

/-- **Numbers compare as their ranks do.** -/
theorem unpacked_compare {x y : UnpackedFloat} (hx : x ≠ .notANumber) (hy : y ≠ .notANumber) :
    x.compare y = some (compare (unpackedRank x) (unpackedRank y)) := by
  cases x with
  | notANumber => exact absurd rfl hx
  | infinity s =>
    cases y with
    | notANumber => exact absurd rfl hy
    | infinity s' => cases s <;> cases s' <;> rfl
    | zero s' => cases s <;> rfl
    | finite s' m' e' hm' => cases s <;> cases s' <;> rfl
  | zero s =>
    cases y with
    | notANumber => exact absurd rfl hy
    | infinity s' => cases s' <;> rfl
    | zero s' => rfl
    | finite s' m' e' hm' => cases s' <;> rfl
  | finite s m e hm =>
    cases y with
    | notANumber => exact absurd rfl hy
    | infinity s' => cases s <;> cases s' <;> rfl
    | zero s' => cases s <;> rfl
    | finite s' m' e' hm' =>
      cases s <;> cases s'
      · show some _ = some ((compare (-e) (-e')).then (compare (-(m : ℤ)) (-(m' : ℤ))))
        rw [compare_neg_neg, compare_neg_neg, compare_natCast, ← Ordering.swap_then]
      · rfl
      · rfl
      · show some _ = some ((compare e e').then (compare (m : ℤ) (m' : ℤ)))
        rw [compare_natCast]

theorem unpacked_compare_notANumber {x y : UnpackedFloat}
    (h : x = .notANumber ∨ y = .notANumber) : x.compare y = none := by
  rcases h with rfl | rfl
  · rfl
  · cases x with
    | notANumber => rfl
    | infinity s => cases s <;> rfl
    | zero s => rfl
    | finite s m e hm => cases s <;> rfl

/-- Doubles of one rank have the same sign and are both finite, both infinite or both zero. -/
theorem fst_eq_of_rank_eq {x y : UnpackedFloat} (h : unpackedRank x = unpackedRank y) :
    (ofLex (unpackedRank x)).1 = (ofLex (unpackedRank y)).1 :=
  congrArg (fun r => (ofLex r).1) h

/-- Only the zeros share a rank. -/
theorem eq_or_zero_of_rank_eq {x y : UnpackedFloat} (hx : x ≠ .notANumber) (hy : y ≠ .notANumber)
    (h : unpackedRank x = unpackedRank y) : x = y ∨ ∃ s s', x = .zero s ∧ y = .zero s' := by
  have hfst := fst_eq_of_rank_eq h
  cases x with
  | notANumber => exact absurd rfl hx
  | infinity s =>
    cases y with
    | notANumber => exact absurd rfl hy
    | infinity s' =>
      cases s <;> cases s'
      · exact .inl rfl
      · cases hfst
      · cases hfst
      · exact .inl rfl
    | zero s' => cases s <;> cases hfst
    | finite s' m' e' hm' => cases s <;> cases s' <;> cases hfst
  | zero s =>
    cases y with
    | notANumber => exact absurd rfl hy
    | infinity s' => cases s' <;> cases hfst
    | zero s' => exact .inr ⟨s, s', rfl, rfl⟩
    | finite s' m' e' hm' => cases s' <;> cases hfst
  | finite s m e hm =>
    cases y with
    | notANumber => exact absurd rfl hy
    | infinity s' => cases s <;> cases s' <;> cases hfst
    | zero s' => cases s <;> cases hfst
    | finite s' m' e' hm' =>
      refine .inl ?_
      cases s <;> cases s'
      · have h : toLex ((-1 : ℤ), toLex (-e, -(m : ℤ))) = toLex (-1, toLex (-e', -(m' : ℤ))) := h
        simp only [EmbeddingLike.apply_eq_iff_eq, Prod.mk.injEq, neg_inj, Nat.cast_inj, true_and] at h
        obtain ⟨rfl, rfl⟩ := h
        rfl
      · cases hfst
      · cases hfst
      · have h : toLex ((1 : ℤ), toLex (e, (m : ℤ))) = toLex (1, toLex (e', (m' : ℤ))) := h
        simp only [EmbeddingLike.apply_eq_iff_eq, Prod.mk.injEq, Nat.cast_inj, true_and] at h
        obtain ⟨rfl, rfl⟩ := h
        rfl

theorem unpacked_sub_zero_right {x : UnpackedFloat} (hx : unpackedRank x ≠ unpackedRank (.zero .positive))
    (s s' : UnpackedFloat.Sign) : x.sub .binary64 (.zero s) = x.sub .binary64 (.zero s') := by
  cases x with
  | notANumber => rfl
  | infinity s => rfl
  | zero s => exact absurd rfl hx
  | finite s m e hm => rfl

theorem unpacked_sub_zero_left {x : UnpackedFloat} (hx : unpackedRank x ≠ unpackedRank (.zero .positive))
    (s s' : UnpackedFloat.Sign) :
    (UnpackedFloat.zero s).sub .binary64 x = (UnpackedFloat.zero s').sub .binary64 x := by
  cases x with
  | notANumber => rfl
  | infinity s => rfl
  | zero s => exact absurd rfl hx
  | finite s m e hm => rfl

/-- A difference of numbers that differ depends on them only through their ranks. -/
theorem unpacked_sub_congr {x x' y y' : UnpackedFloat} (hx : x ≠ .notANumber)
    (hx' : x' ≠ .notANumber) (hy : y ≠ .notANumber) (hy' : y' ≠ .notANumber)
    (hne : unpackedRank x ≠ unpackedRank y) (hrx : unpackedRank x' = unpackedRank x)
    (hry : unpackedRank y' = unpackedRank y) : y'.sub .binary64 x' = y.sub .binary64 x := by
  obtain rfl | ⟨s, s', rfl, rfl⟩ := eq_or_zero_of_rank_eq hx' hx hrx
  · obtain rfl | ⟨s, s', rfl, rfl⟩ := eq_or_zero_of_rank_eq hy' hy hry
    · rfl
    · exact unpacked_sub_zero_left (fun h => hne h) s s'
  · obtain rfl | ⟨s, s', rfl, rfl⟩ := eq_or_zero_of_rank_eq hy' hy hry
    · exact unpacked_sub_zero_right (fun h => hne h.symm) s s'
    · exact absurd rfl hne

namespace FloatOrder

/-- The sign, exponent and mantissa of a double. -/
abbrev unpack (a : Float) : UnpackedFloat := a.toModel.unpack

theorem lt_iff_compare (a b : Float) : lt a b = true ↔ (unpack a).compare (unpack b) = some .lt := by
  show decide (decide (((unpack a).compare (unpack b) == some .lt) = true) = true) = true ↔ _
  rw [decide_eq_true_iff, decide_eq_true_iff, beq_iff_eq]

theorem le_iff_compare (a b : Float) :
    le a b = true ↔ ((unpack a).compare (unpack b)).any (·.isLE) = true := by
  show decide (decide (((unpack a).compare (unpack b)).any (·.isLE) = true) = true) = true ↔ _
  rw [decide_eq_true_iff, decide_eq_true_iff]

variable {a b : Float}

theorem isNumber_of_lt (h : lt a b = true) : unpack a ≠ .notANumber ∧ unpack b ≠ .notANumber := by
  rw [lt_iff_compare] at h
  refine ⟨fun ha => ?_, fun hb => ?_⟩
  · rw [unpacked_compare_notANumber (.inl ha)] at h
    cases h
  · rw [unpacked_compare_notANumber (.inr hb)] at h
    cases h

theorem lt_iff_rank (ha : unpack a ≠ .notANumber) (hb : unpack b ≠ .notANumber) :
    lt a b = true ↔ unpackedRank (unpack a) < unpackedRank (unpack b) := by
  rw [lt_iff_compare, unpacked_compare ha hb, Option.some.injEq, compare_lt_iff_lt]

theorem le_iff_rank (ha : unpack a ≠ .notANumber) (hb : unpack b ≠ .notANumber) :
    le a b = true ↔ unpackedRank (unpack a) ≤ unpackedRank (unpack b) := by
  rw [le_iff_compare, unpacked_compare ha hb, Option.any_some, ← compare_le_iff_le]
  cases compare (unpackedRank (unpack a)) (unpackedRank (unpack b)) <;> decide

theorem le_of_lt (h : lt a b = true) : le a b = true := by
  obtain ⟨ha, hb⟩ := isNumber_of_lt h
  exact (le_iff_rank ha hb).mpr ((lt_iff_rank ha hb).mp h).le

theorem isNaN_eq_false (ha : unpack a ≠ .notANumber) : a.isNaN = false := by
  show (unpack a).isNaN = false
  cases h : unpack a with
  | notANumber => exact absurd h ha
  | infinity s => rfl
  | zero s => rfl
  | finite s m e hm => rfl

theorem lower_eq (ha : unpack a ≠ .notANumber) : lower a b = if lt b a = true then b else a := by
  show (if (a.isNaN || lt b a) = true then b else a) = _
  rw [isNaN_eq_false ha, Bool.false_or]

theorem upper_eq (ha : unpack a ≠ .notANumber) : upper a b = if lt a b = true then b else a := by
  show (if (a.isNaN || lt a b) = true then b else a) = _
  rw [isNaN_eq_false ha, Bool.false_or]

/-- Doubles that are numbers are ordered by sign, exponent and mantissa. -/
instance : OrderedTime Float (ℤ ×ₗ ℤ ×ₗ ℤ) where
  rank a := unpackedRank (unpack a)
  IsNumber a := unpack a ≠ .notANumber
  isNumber_of_lt := isNumber_of_lt
  lt_iff := lt_iff_rank
  le_iff := le_iff_rank
  isNumber_lower ha hb := by
    rw [lower_eq ha]
    split
    · exact hb
    · exact ha
  isNumber_upper ha hb := by
    rw [upper_eq ha]
    split
    · exact hb
    · exact ha
  rank_lower ha hb := by
    rw [lower_eq ha]
    split
    · next h => exact (min_eq_right ((lt_iff_rank hb ha).mp h).le).symm
    · next h =>
      rw [lt_iff_rank hb ha, not_lt] at h
      exact (min_eq_left h).symm
  rank_upper ha hb := by
    rw [upper_eq ha]
    split
    · next h => exact (max_eq_right ((lt_iff_rank ha hb).mp h).le).symm
    · next h =>
      rw [lt_iff_rank ha hb, not_lt] at h
      exact (max_eq_left h).symm
  span_congr {a a' b b'} h ha' hb' hra hrb := by
    obtain ⟨ha, hb⟩ := isNumber_of_lt h
    have hne := ne_of_lt ((lt_iff_rank ha hb).mp h)
    have hsub : b' - a' = b - a :=
      congrArg (fun u => Float.ofModel (Float.Model.pack u))
        (unpacked_sub_congr ha ha' hb hb' hne hra hrb)
    show (b' - a') * _ = (b - a) * _
    rw [hsub]

end FloatOrder

end PowerTrace
