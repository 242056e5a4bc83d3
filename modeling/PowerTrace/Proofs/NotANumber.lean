import PowerTrace.Proofs.TimeOrder

/-!
# Durations that are no numbers

A duration that is not at most zero need not be above zero: NaN is neither.  This file says which
durations are NaN, whatever two doubles stand at the ends.

* `FloatOrder.isNaN_pack`: packing makes no NaN and loses none;
* `FloatOrder.isNaN_sub`, `FloatOrder.isNaN_span`: a duration is NaN if one of its ends is, or if both
  are the same infinity;
* `FloatOrder.not_le_zero_iff`: only NaN is neither at most zero nor above it.
-/

namespace PowerTrace

open Float.Model (Format UnpackedFloat)
open Float.Model.UnpackedFloat (packComponents)
open TimeValue

namespace FloatOrder

/-! ### Packing -/

theorem isNaN_iff_eq (u : UnpackedFloat) : u.isNaN = true ↔ u = .notANumber := by
  cases u with
  | notANumber => exact iff_of_true rfl rfl
  | infinity s => exact iff_of_false Bool.false_ne_true UnpackedFloat.noConfusion
  | zero s => exact iff_of_false Bool.false_ne_true UnpackedFloat.noConfusion
  | finite s m e hm => exact iff_of_false Bool.false_ne_true UnpackedFloat.noConfusion

theorem isNaN_dite {c : Prop} [Decidable c] {x : c → UnpackedFloat} {y : ¬ c → UnpackedFloat}
    (hx : ∀ h, (x h).isNaN = false) (hy : ∀ h, (y h).isNaN = false) :
    (dite c x y).isNaN = false := by
  by_cases h : c
  · rw [dif_pos h]
    exact hx h
  · rw [dif_neg h]
    exact hy h

theorem isNaN_unpack_iff {spec : Format} (b : BitVec spec.numBits) :
    (UnpackedFloat.unpack spec b).isNaN = true ↔
      UnpackedFloat.unpackExponent b = -1#_ ∧ UnpackedFloat.unpackMantissa b ≠ 0#_ := by
  unfold UnpackedFloat.unpack
  by_cases he : UnpackedFloat.unpackExponent b = -1#_
  · by_cases hm : UnpackedFloat.unpackMantissa b = 0#_
    · rw [if_pos he, if_pos hm]
      exact iff_of_false Bool.false_ne_true fun h => h.2 hm
    · rw [if_pos he, if_neg hm]
      exact iff_of_true rfl ⟨he, hm⟩
  · rw [if_neg he]
    refine iff_of_false (fun h => ?_) fun h => he h.1
    refine Bool.false_ne_true (Eq.trans (Eq.symm ?_) h)
    exact isNaN_dite (fun _ => isNaN_dite (fun _ => rfl) fun _ => rfl) fun _ => rfl

theorem isNaN_unpack_packComponents {spec : Format} (s : UnpackedFloat.Sign)
    (e : BitVec spec.exponentBits) (m : BitVec spec.mantissaBitsWithoutImplicit) :
    (UnpackedFloat.unpack spec (packComponents spec s e m)).isNaN = true ↔ e = -1#_ ∧ m ≠ 0#_ := by
  rw [isNaN_unpack_iff, UnpackedFloat.unpackExponent_packComponents,
    UnpackedFloat.unpackMantissa_packComponents]

/-- **Packing makes no NaN and loses none**: what is too large becomes infinite. -/
theorem isNaN_pack (u : UnpackedFloat) :
    (Float.ofModel (Float.Model.pack u)).isNaN = true ↔ u.isNaN = true := by
  show (UnpackedFloat.unpack .binary64 (UnpackedFloat.pack .binary64 u)).isNaN = true ↔ _
  fun_cases UnpackedFloat.pack with
  | case1 => exact iff_of_true ((isNaN_unpack_packComponents _ _ _).mpr (by decide)) rfl
  | case2 s =>
    exact iff_of_false (fun h => ((isNaN_unpack_packComponents _ _ _).mp h).2 rfl)
      Bool.false_ne_true
  | case3 s =>
    exact iff_of_false (fun h => ((isNaN_unpack_packComponents _ _ _).mp h).2 rfl)
      Bool.false_ne_true
  | case4 s m e hm biasedExponent hlarge =>
    exact iff_of_false (fun h => ((isNaN_unpack_packComponents _ _ _).mp h).2 rfl)
      Bool.false_ne_true
  | case5 s m e hm actualMantissaBits biasedExponent hsmall hnormal =>
    refine iff_of_false (fun h => ?_) Bool.false_ne_true
    -- the exponent that infinity and NaN have is out of reach
    have hnat : biasedExponent % 2 ^ 11 = 2047 :=
      congrArg BitVec.toNat ((isNaN_unpack_packComponents _ _ _).mp h).1
    have hsmall : ¬ 2 ^ 11 ≤ biasedExponent + 1 := hsmall
    omega
  | case6 s m e hm actualMantissaBits biasedExponent hsmall hsubnormal =>
    refine iff_of_false (fun h => ?_) Bool.false_ne_true
    exact absurd ((isNaN_unpack_packComponents _ _ _).mp h).1 (by decide)

/-! ### Arithmetic -/

theorem isNaN_roundWithAccuracy (spec : Format) (s : UnpackedFloat.Sign) (m : ℕ) (e : ℤ)
    (a : UnpackedFloat.Accuracy) : (UnpackedFloat.roundWithAccuracy spec s m e a).isNaN = false := by
  unfold UnpackedFloat.roundWithAccuracy
  exact isNaN_dite (fun _ => rfl) fun _ => rfl

theorem isNaN_normalize (spec : Format) (m e : ℤ) (s : UnpackedFloat.Sign) :
    (UnpackedFloat.normalize spec m e s).isNaN = false := by
  unfold UnpackedFloat.normalize
  split
  · exact isNaN_roundWithAccuracy ..
  · rfl
  · exact isNaN_roundWithAccuracy ..

/-- What makes a difference NaN: a side that is, or infinity on both sides. -/
def Cancels (x y : UnpackedFloat) : Prop :=
  x = .notANumber ∨ y = .notANumber ∨ ∃ s, x = .infinity s ∧ y = .infinity s

theorem not_cancels {x y : UnpackedFloat} (hx : x.isNaN = false) (hy : y.isNaN = false)
    (hinf : x.isInf = false ∨ y.isInf = false) : ¬ Cancels x y := by
  rintro (rfl | rfl | ⟨s, rfl, rfl⟩)
  · cases hx
  · cases hy
  · rcases hinf with h | h <;> cases h

theorem isNaN_unpacked_sub {spec : Format} (x y : UnpackedFloat) :
    (x.sub spec y).isNaN = true ↔ Cancels x y := by
  cases x with
  | notANumber => exact iff_of_true rfl (.inl rfl)
  | infinity s =>
    cases y with
    | notANumber => exact iff_of_true rfl (.inr (.inl rfl))
    | infinity s' =>
      cases s <;> cases s'
      · exact iff_of_true rfl (.inr (.inr ⟨.negative, rfl, rfl⟩))
      · exact iff_of_false Bool.false_ne_true (by simp [Cancels])
      · exact iff_of_false Bool.false_ne_true (by simp [Cancels])
      · exact iff_of_true rfl (.inr (.inr ⟨.positive, rfl, rfl⟩))
    | zero s' => exact iff_of_false Bool.false_ne_true (not_cancels rfl rfl (.inr rfl))
    | finite s' m' e' hm' => exact iff_of_false Bool.false_ne_true (not_cancels rfl rfl (.inr rfl))
  | zero s =>
    cases y with
    | notANumber => exact iff_of_true rfl (.inr (.inl rfl))
    | infinity s' => exact iff_of_false Bool.false_ne_true (not_cancels rfl rfl (.inl rfl))
    | zero s' =>
      refine iff_of_false (fun h => ?_) (not_cancels rfl rfl (.inl rfl))
      cases s <;> cases s' <;> cases h
    | finite s' m' e' hm' => exact iff_of_false Bool.false_ne_true (not_cancels rfl rfl (.inl rfl))
  | finite s m e hm =>
    cases y with
    | notANumber => exact iff_of_true rfl (.inr (.inl rfl))
    | infinity s' => exact iff_of_false Bool.false_ne_true (not_cancels rfl rfl (.inl rfl))
    | zero s' => exact iff_of_false Bool.false_ne_true (not_cancels rfl rfl (.inl rfl))
    | finite s' m' e' hm' =>
      refine iff_of_false (fun h => ?_) (not_cancels rfl rfl (.inl rfl))
      exact Bool.false_ne_true ((isNaN_normalize ..).symm.trans h)

/-- A product with a finite factor is NaN if the other factor is. -/
theorem isNaN_unpacked_mul_finite {spec : Format} (x : UnpackedFloat) (s : UnpackedFloat.Sign)
    (m : ℕ) (e : ℤ) (hm : 0 < m) :
    (x.mul spec (.finite s m e hm)).isNaN = true ↔ x.isNaN = true := by
  cases x with
  | notANumber => exact Iff.rfl
  | infinity s' => exact Iff.rfl
  | zero s' => exact Iff.rfl
  | finite s' m' e' hm' =>
    refine iff_of_false (fun h => ?_) Bool.false_ne_true
    exact Bool.false_ne_true ((isNaN_roundWithAccuracy ..).symm.trans h)

theorem isNaN_iff (a : Float) : a.isNaN = true ↔ unpack a = .notANumber := isNaN_iff_eq (unpack a)

theorem isInf_iff (a : Float) : a.isInf = true ↔ ∃ s, unpack a = .infinity s := by
  show (unpack a).isInf = true ↔ _
  cases unpack a with
  | infinity s => exact iff_of_true rfl ⟨s, rfl⟩
  | notANumber => exact iff_of_false Bool.false_ne_true fun ⟨_, h⟩ => UnpackedFloat.noConfusion h
  | zero s => exact iff_of_false Bool.false_ne_true fun ⟨_, h⟩ => UnpackedFloat.noConfusion h
  | finite s m e hm => exact iff_of_false Bool.false_ne_true fun ⟨_, h⟩ => UnpackedFloat.noConfusion h

/-- Two doubles are the same infinity if the first is infinite and they compare equal. -/
theorem isInf_and_beq_iff (a b : Float) :
    a.isInf = true ∧ (a == b) = true ↔ ∃ s, unpack a = .infinity s ∧ unpack b = .infinity s := by
  have hbeq : (a == b) = true ↔ (unpack a).compare (unpack b) = some .eq := by
    show ((unpack a).compare (unpack b) == some .eq) = true ↔ _
    exact beq_iff_eq
  rw [isInf_iff, hbeq, ← exists_and_right]
  refine exists_congr fun s => and_congr_right fun ha => ?_
  rw [ha]
  constructor
  · intro h
    have hb : unpack b ≠ .notANumber := by
      intro hb
      rw [unpacked_compare_notANumber (.inr hb)] at h
      cases h
    rw [unpacked_compare UnpackedFloat.noConfusion hb, Option.some.injEq, compare_eq_iff_eq] at h
    obtain heq | ⟨s', -, hzero, -⟩ := eq_or_zero_of_rank_eq UnpackedFloat.noConfusion hb h
    · exact heq.symm
    · cases hzero
  · intro hb
    rw [hb]
    cases s <;> rfl

theorem isNaN_sub (a b : Float) :
    (b - a).isNaN = true ↔ a.isNaN = true ∨ b.isNaN = true ∨ (a.isInf = true ∧ (a == b) = true) := by
  show (Float.ofModel (Float.Model.pack ((unpack b).sub .binary64 (unpack a)))).isNaN = true ↔ _
  rw [isNaN_pack, isNaN_unpacked_sub, Cancels, isInf_and_beq_iff, or_left_comm, isNaN_iff, isNaN_iff]
  simp only [and_comm]

/-- **A duration is NaN** if one of its ends is, or if both are the same infinity. -/
theorem isNaN_span (a b : Float) :
    (span a b).isNaN = true ↔
      a.isNaN = true ∨ b.isNaN = true ∨ (a.isInf = true ∧ (a == b) = true) := by
  have hmicros : unpack (microsPerSecond : Float) =
      .finite .positive 8589934592000000 (-33) (by decide) := rfl
  rw [← isNaN_sub]
  show (Float.ofModel (Float.Model.pack ((unpack (b - a)).mul .binary64
    (unpack microsPerSecond)))).isNaN = true ↔ _
  rw [isNaN_pack, hmicros, isNaN_unpacked_mul_finite]
  rfl

/-- **Only NaN is neither at most zero nor above it.** -/
theorem not_le_zero_iff (a : Float) :
    le a zero = false ↔ lt zero a = true ∨ a.isNaN = true := by
  have hzero : unpack (zero : Float) ≠ .notANumber := UnpackedFloat.noConfusion
  rw [isNaN_iff]
  by_cases ha : unpack a = .notANumber
  · refine iff_of_true (Bool.eq_false_iff.mpr fun hle => ?_) (.inr ha)
    rw [le_iff_compare, unpacked_compare_notANumber (.inl ha)] at hle
    cases hle
  · rw [or_iff_left ha, ← Bool.not_eq_true, le_iff_rank ha hzero, lt_iff_rank hzero ha, not_le]

theorem isNaN_eq_false_of_lt {a b : Float} (h : lt a b = true) : b.isNaN = false :=
  isNaN_eq_false (isNumber_of_lt h).2

end FloatOrder

end PowerTrace
