import PowerTrace.Proofs.Doubles

/-!
# Quotients of doubles

A quotient of two doubles is rarely a double itself.  It is computed as a mantissa of at least 53 digits
together with what was cut off behind it, shifted to the right place and rounded.  Whatever was cut off, the
result lies within one unit of its last place.

* `FloatOrder.hasValue_round`: what rounding makes of a mantissa;
* `FloatOrder.exists_hasValue_round`: it moves a number by no more than the spacing of the doubles there;
* `FloatOrder.HasValue.div`: quotients;
* `FloatOrder.hasValue_ofNat`: whole numbers are exact.
-/

namespace PowerTrace

open Float.Model (Format UnpackedFloat totalExponent)
open Float.Model.UnpackedFloat (ExtendedMantissa Accuracy roundWithAccuracy shiftToTargetExponent)

namespace FloatOrder

/-! ### Rounding -/

@[simp] theorem shiftRight_zero (x : ExtendedMantissa) : x >>> 0 = x := rfl

theorem shiftRight_succ (x : ExtendedMantissa) (n : ℕ) : x >>> (n + 1) = (x >>> n).shiftRightOne := rfl

@[simp] theorem mantissa_shiftRight (x : ExtendedMantissa) (n : ℕ) : (x >>> n).mantissa = x.mantissa / 2 ^ n := by
  induction n with
  | zero => rw [shiftRight_zero, pow_zero, Nat.div_one]
  | succ n ih =>
    show (x >>> n).mantissa / 2 = _
    rw [ih, Nat.div_div_eq_div_mul, pow_succ]

/-- Shifting out zeros loses nothing. -/
theorem shiftRight_exact (m n : ℕ) :
    (ExtendedMantissa.mk (m * 2 ^ n) false false) >>> n = ⟨m, false, false⟩ := by
  induction n generalizing m with
  | zero => rw [pow_zero, Nat.mul_one, shiftRight_zero]
  | succ n ih =>
    rw [shiftRight_succ, pow_succ', ← Nat.mul_assoc, ih]
    simp [ExtendedMantissa.shiftRightOne]

/-- Rounding takes a mantissa no further than to the next. -/
theorem roundedMantissa_bounds (x : ExtendedMantissa) :
    x.mantissa ≤ x.roundedMantissa ∧ x.roundedMantissa ≤ x.mantissa + 1 := by
  obtain ⟨m, r, s⟩ := x
  cases r <;> cases s <;> simp [ExtendedMantissa.roundedMantissa, ExtendedMantissa.accuracy,
    Accuracy.roundToNearestEven]
  omega

@[simp] theorem mantissa_ofMantissaAndAccuracy (m : ℕ) (a : Accuracy) :
    (ExtendedMantissa.ofMantissaAndAccuracy m a).mantissa = m := by
  fun_cases ExtendedMantissa.ofMantissaAndAccuracy <;> rfl

theorem targetExponent_eq {m s : ℕ} {e : ℤ} (hlog : m.log2 = 52 + s) (he : -1074 ≤ e + s) :
    Format.binary64.targetExponent (totalExponent m e) = e + s := by
  show max ((m.log2 : ℤ) + 1 + e - ((1 : ℕ) + (52 : ℕ) : ℕ)) (-1074) = _
  rw [hlog]
  omega

theorem shiftToTargetExponent_eq {m s : ℕ} {e : ℤ} (a : Accuracy) (hlog : m.log2 = 52 + s)
    (he : -1074 ≤ e + s) : shiftToTargetExponent .binary64 m e a =
      (ExtendedMantissa.ofMantissaAndAccuracy m a >>> s, e + s) := by
  have hshift : (e + s - e).toNat = s := by omega
  rw [shiftToTargetExponent, targetExponent_eq hlog he, UnpackedFloat.shiftToExponent]
  simp only [hshift]

/-- A mantissa that takes 53 digits or one more after rounding is finished by one more shift. -/
theorem finish_eq {r : ℕ} {e : ℤ} (hlow : 2 ^ 52 ≤ r) (hhigh : r ≤ 2 ^ 53)
    (he : -1074 ≤ e) (he' : e ≤ 970) :
    ∃ m' e', IsNormal m' e' ∧ (m' : ℚ) * 2 ^ e' = r * 2 ^ e ∧
      (shiftToTargetExponent .binary64 r e .exact).1.mantissa = m' ∧
      (shiftToTargetExponent .binary64 r e .exact).2 = e' := by
  rcases hhigh.lt_or_eq with hlt | rfl
  · have hlog : r.log2 = 52 + 0 := (Nat.log2_eq_iff (by omega)).mpr ⟨hlow, hlt⟩
    rw [shiftToTargetExponent_eq .exact hlog (by omega)]
    refine ⟨r, e, ⟨hlow, hlt, he, by omega⟩, rfl, rfl, by simp⟩
  · have hlog : (2 ^ 53).log2 = 52 + 1 := rfl
    rw [shiftToTargetExponent_eq .exact hlog (by omega)]
    refine ⟨2 ^ 52, e + 1, ⟨le_rfl, by decide, by omega, by omega⟩, ?_, rfl, rfl⟩
    rw [zpow_add_one₀ two_ne_zero]
    push_cast
    ring

/-- **What rounding makes of a mantissa** of 53 digits or more: a normal double, with the digits behind the
53rd rounded off. -/
theorem roundWithAccuracy_eq {m s : ℕ} {e : ℤ} (sign : UnpackedFloat.Sign) (a : Accuracy)
    (hlog : m.log2 = 52 + s) (he : -1074 ≤ e + s) (he' : e + s ≤ 970) {r : ℕ}
    (hr : (ExtendedMantissa.ofMantissaAndAccuracy m a >>> s).roundedMantissa = r) :
    ∃ m' e', ∃ hm' : 0 < m', roundWithAccuracy .binary64 sign m e a = .finite sign m' e' hm' ∧
      IsNormal m' e' ∧ (m' : ℚ) * 2 ^ e' = r * 2 ^ (e + s) := by
  have hm : m ≠ 0 := by
    rintro rfl
    simp at hlog
    omega
  obtain ⟨hlow, hhigh⟩ := (Nat.log2_eq_iff hm).mp hlog
  have hdiv : 2 ^ 52 ≤ m / 2 ^ s ∧ m / 2 ^ s < 2 ^ 53 := by
    rw [Nat.le_div_iff_mul_le (Nat.two_pow_pos s), Nat.div_lt_iff_lt_mul (Nat.two_pow_pos s), ← pow_add,
      ← pow_add]
    exact ⟨hlow, hhigh.trans_le (Nat.pow_le_pow_right two_pos (by omega))⟩
  obtain ⟨hrlow, hrhigh⟩ := roundedMantissa_bounds (ExtendedMantissa.ofMantissaAndAccuracy m a >>> s)
  rw [hr, mantissa_shiftRight, mantissa_ofMantissaAndAccuracy] at hrlow hrhigh
  obtain ⟨m', e', hnormal, hvalue, hm', he''⟩ := finish_eq (by omega : 2 ^ 52 ≤ r) (by omega) he he'
  have hpos : 0 < m' := Nat.two_pow_pos 52 |>.trans_le hnormal.full
  refine ⟨m', e', hpos, ?_, hnormal, hvalue⟩
  unfold roundWithAccuracy
  rw [shiftToTargetExponent_eq a hlog he]
  simp only [hr, hm', he'']
  rw [dif_neg hpos.ne']

theorem hasValue_round {m s : ℕ} {e : ℤ} (a : Accuracy) (hlog : m.log2 = 52 + s) (he : -1074 ≤ e + s)
    (he' : e + s ≤ 970) {r : ℕ}
    (hr : (ExtendedMantissa.ofMantissaAndAccuracy m a >>> s).roundedMantissa = r) :
    HasValue (Float.ofModel (Float.Model.pack (roundWithAccuracy .binary64 .positive m e a)))
      (r * 2 ^ (e + s)) := by
  obtain ⟨m', e', hm', hround, hnormal, hvalue⟩ := roundWithAccuracy_eq .positive a hlog he he' hr
  rw [hround, ← hvalue]
  exact hasValue_pack hm' hnormal

/-- A whole number that is shifted and then rounded is off by no more than one in its last place. -/
theorem abs_round_sub_le {q s r : ℕ} {x : ℚ} (hle : (q : ℚ) ≤ x) (hlt : x < q + 1)
    (hlow : q / 2 ^ s ≤ r) (hhigh : r ≤ q / 2 ^ s + 1) : |(r : ℚ) * 2 ^ s - x| ≤ 2 ^ s := by
  have hpos : 0 < 2 ^ s := Nat.two_pow_pos s
  have hover : r * 2 ^ s ≤ q + 2 ^ s := by
    have hmul := Nat.mul_le_mul_right (2 ^ s) hhigh
    have hdiv := Nat.div_mul_le_self q (2 ^ s)
    rw [Nat.add_mul] at hmul
    omega
  have hunder : q + 1 ≤ r * 2 ^ s + 2 ^ s := by
    have hmul := Nat.mul_le_mul_right (2 ^ s) hlow
    have hdiv := Nat.lt_div_mul_add (a := q) hpos
    omega
  have hover : (r : ℚ) * 2 ^ s ≤ q + 2 ^ s := by exact_mod_cast hover
  have hunder : (q : ℚ) + 1 ≤ r * 2 ^ s + 2 ^ s := by exact_mod_cast hunder
  rw [abs_le]
  constructor <;> linarith

/-- **Rounding** gives a double as near to the number `x · 2 ^ e` as the doubles lie dense there, if a mantissa
of at least 53 digits is `x` without its fraction. -/
theorem exists_hasValue_round {m : ℕ} {e : ℤ} {x : ℚ} (a : Accuracy) (hfull : 2 ^ 52 ≤ m)
    (hle : (m : ℚ) ≤ x) (hlt : x < m + 1) (hone : 1 ≤ x * 2 ^ e) {k : ℤ} (hk : k ≤ 1000)
    (hbound : x * 2 ^ e < 2 ^ k) :
    ∃ q, HasValue (Float.ofModel (Float.Model.pack (roundWithAccuracy .binary64 .positive m e a))) q ∧
      |q - x * 2 ^ e| ≤ 2 ^ (k - 53) := by
  have hpos : (0 : ℚ) < 2 ^ e := by positivity
  obtain ⟨s, hlog⟩ : ∃ s, m.log2 = 52 + s :=
    Nat.exists_eq_add_of_le ((Nat.le_log2 (by omega)).mpr hfull)
  obtain ⟨hlow, hhigh⟩ := (Nat.log2_eq_iff (by omega)).mp hlog
  have hdown : 0 < 53 + s + e := by
    rw [Nat.add_right_comm] at hhigh
    have hx : x < 2 ^ (53 + s : ℤ) := hlt.trans_le (by exact_mod_cast Nat.succ_le_of_lt hhigh)
    rw [← two_zpow_lt_iff, zpow_zero, zpow_add₀ two_ne_zero]
    exact hone.trans_lt (by gcongr)
  have hup : 52 + s + e < k := by
    rw [← two_zpow_lt_iff, zpow_add₀ two_ne_zero]
    refine lt_of_le_of_lt ?_ hbound
    gcongr
    exact le_trans (by exact_mod_cast hlow) hle
  obtain ⟨r, hr⟩ : ∃ r, (ExtendedMantissa.ofMantissaAndAccuracy m a >>> s).roundedMantissa = r := ⟨_, rfl⟩
  obtain ⟨hrlow, hrhigh⟩ := roundedMantissa_bounds (ExtendedMantissa.ofMantissaAndAccuracy m a >>> s)
  rw [hr, mantissa_shiftRight, mantissa_ofMantissaAndAccuracy] at hrlow hrhigh
  refine ⟨r * 2 ^ (e + s), hasValue_round a hlog (by omega) (by omega) hr, ?_⟩
  calc |(r : ℚ) * 2 ^ (e + s) - x * 2 ^ e| = |(r : ℚ) * 2 ^ s - x| * 2 ^ e := by
        rw [zpow_add₀ two_ne_zero, zpow_natCast, ← abs_of_pos hpos, ← abs_mul, abs_of_pos hpos]
        ring_nf
    _ ≤ 2 ^ s * 2 ^ e := by
        gcongr
        exact abs_round_sub_le hle hlt hrlow hrhigh
    _ ≤ 2 ^ (k - 53) := by
        rw [← zpow_natCast, ← zpow_add₀ two_ne_zero]
        exact zpow_le_zpow_right₀ one_le_two (by omega)

/-! ### Quotients -/

/-- A quotient is computed to 53 digits or 54. -/
theorem divCore_eq {m m' : ℕ} {e e' : ℤ} (h : IsNormal m e) (h' : IsNormal m' e')
    (he : -1074 ≤ e - e' - 53) :
    UnpackedFloat.divCore .binary64 m e m' e' =
      (m * 2 ^ 53 / m', e - e' - 53, UnpackedFloat.accuracyOfFraction (m * 2 ^ 53 % m') m') := by
  have htarget : min (e - e') (Format.binary64.targetExponent (totalExponent m e - totalExponent m' e')) =
      e - e' - 53 := by
    show min (e - e') (max (m.log2 + 1 + e - (m'.log2 + 1 + e') - ((1 : ℕ) + (52 : ℕ) : ℕ)) (-1074)) = _
    rw [h.log2_eq, h'.log2_eq]
    omega
  have hshift : (e - e' - (e - e' - 53)).toNat = 53 := by omega
  rw [UnpackedFloat.divCore]
  simp only [htarget, hshift, Nat.shiftLeft_eq]

theorem quotient_bounds {m m' : ℕ} {e e' : ℤ} (h : IsNormal m e) (h' : IsNormal m' e') :
    2 ^ 52 ≤ m * 2 ^ 53 / m' ∧ m * 2 ^ 53 / m' < 2 ^ 54 := by
  obtain ⟨hm, hm', -, -⟩ := h
  obtain ⟨hn, hn', -, -⟩ := h'
  rw [Nat.le_div_iff_mul_le (by omega), Nat.div_lt_iff_lt_mul (by omega)]
  omega

/-- **The quotient of two doubles** is as near to the exact one as the doubles lie dense there. -/
theorem HasValue.div {a c : Float} {v w : ℚ} (ha : HasValue a v) (hc : HasValue c w) (hv : 1 ≤ v)
    (hw : 1 ≤ w) (hone : 1 ≤ v / w) {k : ℤ} (hk : k ≤ 1000) (hlt : v / w < 2 ^ k) :
    ∃ q, HasValue (a / c) q ∧ |q - v / w| ≤ 2 ^ (k - 53) := by
  obtain ⟨m, e, hm, hua, hna, rfl⟩ := ha.isNormal hv
  obtain ⟨m', e', hm', huc, hnc, rfl⟩ := hc.isNormal hw
  have hm'pos : (0 : ℚ) < m' := by exact_mod_cast hm'
  obtain ⟨x, hx⟩ : ∃ x : ℚ, ((m * 2 ^ 53 : ℕ) : ℚ) / m' = x := ⟨_, rfl⟩
  have hquotient : (m : ℚ) * 2 ^ e / (m' * 2 ^ e') = x * 2 ^ (e - e' - 53) := by
    rw [← hx, zpow_sub₀ two_ne_zero, zpow_sub₀ two_ne_zero]
    push_cast
    field_simp
  obtain ⟨hlow, hhigh⟩ := quotient_bounds hna hnc
  have hfloor : ((m * 2 ^ 53 / m' : ℕ) : ℚ) ≤ x := hx ▸ Nat.cast_div_le
  have hceil : x < (m * 2 ^ 53 / m' : ℕ) + 1 := by
    rw [← hx, div_lt_iff₀ hm'pos]
    exact_mod_cast Nat.lt_mul_of_div_lt (Nat.lt_succ_self _) hm'
  rw [hquotient] at hone hlt ⊢
  have he : -54 < e - e' - 53 := by
    have hx54 : x < 2 ^ (54 : ℤ) := hceil.trans_le (by exact_mod_cast hhigh)
    have h1 : (2 : ℚ) ^ (0 : ℤ) < 2 ^ (54 + (e - e' - 53)) := by
      rw [zpow_zero, zpow_add₀ two_ne_zero]
      exact hone.trans_lt (by gcongr)
    rw [two_zpow_lt_iff] at h1
    omega
  have hdiv : a / c = Float.ofModel (Float.Model.pack (UnpackedFloat.div .binary64
      (unpack a) (unpack c))) := rfl
  rw [hdiv, hua, huc]
  simp only [UnpackedFloat.div, divCore_eq hna hnc (by omega)]
  exact exists_hasValue_round _ hlow hfloor hceil hone hk hlt

/-! ### Whole numbers -/

theorem log2_mul_two_pow {n : ℕ} (hn : n ≠ 0) (k : ℕ) : (n * 2 ^ k).log2 = n.log2 + k := by
  induction k with
  | zero => rw [pow_zero, Nat.mul_one, Nat.add_zero]
  | succ k ih =>
    rw [pow_succ', Nat.mul_left_comm, Nat.log2_two_mul (by positivity), ih, Nat.add_assoc]

theorem roundedMantissa_exact (m s : ℕ) :
    (ExtendedMantissa.ofMantissaAndAccuracy (m * 2 ^ s) .exact >>> s).roundedMantissa = m := by
  rw [ExtendedMantissa.ofMantissaAndAccuracy, shiftRight_exact]
  rfl

theorem hasValue_ofUInt64 {n : ℕ} (hpos : 0 < n) (hlt : n < 2 ^ 53) :
    HasValue n.toUInt64.toFloat n := by
  have hlog : n.log2 ≤ 52 := Nat.le_of_lt_succ ((Nat.log2_lt hpos.ne').mpr hlt)
  obtain ⟨d, hd⟩ := Nat.exists_eq_add_of_le hlog
  have htarget : Format.binary64.targetExponent (totalExponent n 0) = -d := by
    show max ((n.log2 : ℤ) + 1 + 0 - ((1 : ℕ) + (52 : ℕ) : ℕ)) (-1074) = _
    omega
  have hlog' : (n * 2 ^ d).log2 = 52 + 0 := by
    rw [log2_mul_two_pow hpos.ne', hd, Nat.add_zero]
  have hnormalize : UnpackedFloat.ofUInt64 .binary64 n.toUInt64 =
      roundWithAccuracy .binary64 .positive (n * 2 ^ d) (-d) .exact := by
    have hword : n.toUInt64.toNat = n := by
      show n % 2 ^ 64 = n
      omega
    have hsign : compare (n : ℤ) 0 = .gt := compare_gt_iff_gt.mpr (by exact_mod_cast hpos)
    rw [UnpackedFloat.ofUInt64, hword, UnpackedFloat.ofNat, UnpackedFloat.ofInt, UnpackedFloat.normalize,
      hsign]
    simp only [Int.toNat_natCast, UnpackedFloat.round, htarget, UnpackedFloat.decreaseExponent,
      Nat.shiftLeft_eq, zero_sub, neg_neg]
  have hvalue : (n : ℚ) = (n * 2 ^ d : ℕ) * 2 ^ (-d + (0 : ℕ) : ℤ) := by
    rw [Nat.cast_zero, add_zero, zpow_neg, zpow_natCast]
    push_cast
    field_simp
  have hmodel : n.toUInt64.toFloat =
      Float.ofModel (Float.Model.pack (UnpackedFloat.ofUInt64 .binary64 n.toUInt64)) := rfl
  rw [hmodel, hnormalize, hvalue]
  exact hasValue_round .exact hlog' (by omega) (by omega) (by simpa using roundedMantissa_exact (n * 2 ^ d) 0)

/-- **Whole numbers of no more than 53 digits are doubles.** -/
theorem hasValue_ofNat {n : ℕ} (hpos : 0 < n) (hlt : n < 2 ^ 53) : HasValue (Float.ofNat n) n := by
  -- a literal is read as a whole number times a power of ten, here the power one
  have hmodel : Float.ofNat n = n.toUInt64.toFloat * Float.ofBits 0x3FF0000000000000 := by
    show Float.ofScientific n false 0 = _
    rw [Float.ofScientific, dif_pos ⟨hlt, by decide⟩]
    rfl
  have hone : unpack (Float.ofBits 0x3FF0000000000000) = .finite .positive (2 ^ 52) (-52) (by decide) := rfl
  obtain ⟨m, e, hm, hu, hnormal, hv⟩ := (hasValue_ofUInt64 hpos hlt).isNormal (by exact_mod_cast hpos)
  have hlog : (m * 2 ^ 52).log2 = 52 + 52 := by rw [log2_mul_two_pow hm.ne', hnormal.log2_eq]
  have he : 52 + e < 53 := by
    rw [← two_zpow_lt_iff, zpow_add₀ two_ne_zero]
    calc (2 : ℚ) ^ (52 : ℤ) * 2 ^ e ≤ m * 2 ^ e := by
          gcongr
          exact_mod_cast hnormal.full
      _ = n := hv.symm
      _ < 2 ^ (53 : ℤ) := by exact_mod_cast hlt
  have hmul : n.toUInt64.toFloat * Float.ofBits 0x3FF0000000000000 =
      Float.ofModel (Float.Model.pack (UnpackedFloat.mul .binary64 (unpack n.toUInt64.toFloat)
        (unpack (Float.ofBits 0x3FF0000000000000)))) := rfl
  have hlow := hnormal.le_exponent
  have hexponent : e = e + -52 + (52 : ℕ) := by omega
  rw [hmodel, hmul, hu, hone, hv]
  conv_rhs => rw [hexponent]
  exact hasValue_round .exact hlog (by omega) (by omega) (roundedMantissa_exact m 52)

theorem hasValue_literal (n : ℕ) [n.AtLeastTwo] (hlt : n < 2 ^ 53) :
    HasValue (OfNat.ofNat n) (OfNat.ofNat n) := by
  have hpos : 0 < n := Nat.pos_of_neZero n
  rw [← Nat.cast_ofNat (R := ℚ)]
  exact hasValue_ofNat hpos hlt

end FloatOrder

end PowerTrace
