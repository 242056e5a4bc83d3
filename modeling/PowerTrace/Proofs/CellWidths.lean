import PowerTrace.Proofs.ReportText
import PowerTrace.Proofs.Rounding

/-!
# The width of an amount

A table for the eye has columns of eight characters for durations and frequencies.  An amount is put into
the unit that suits its size, rounded to two decimals and followed by the unit.  The unit is chosen before
the amount is rounded, and frequencies may have up to three digits before the point, so not all fit.

* `Text.length_placed_le_iff`: how many characters a number takes;
* `Report.length_duration_le_iff`: which durations fit eight characters;
* `Report.length_frequency_le_iff`: which frequencies do.
-/

namespace PowerTrace

open FloatOrder

namespace Text

theorem length_placed_zero (n : ℕ) : (placed 0 n).length = (Nat.toDigits 10 n).length := by
  rw [placed, if_pos rfl]

theorem length_placed {places : ℕ} (h : 0 < places) (n : ℕ) :
    (placed places n).length = (Nat.toDigits 10 (n / 10 ^ places)).length + 1 + places := by
  have hrest : (Nat.toDigits 10 (n % pow10 places)).length ≤ places :=
    (Nat.length_toDigits_le_iff (by decide) h).mpr (Nat.mod_lt _ (Nat.pow_pos (by decide)))
  rw [placed, if_neg h.ne', zeroFill, List.length_append, List.length_cons, List.length_append,
    List.length_replicate]
  show (Nat.toDigits 10 (n / 10 ^ places)).length + _ = _
  omega

theorem length_placed_le_iff {places digits : ℕ} (h : 0 < places) (hdigits : 0 < digits) (n : ℕ) :
    (placed places n).length ≤ digits + 1 + places ↔ n < 10 ^ digits * 10 ^ places := by
  rw [length_placed h, ← Nat.div_lt_iff_lt_mul (Nat.pow_pos (by decide)),
    ← Nat.length_toDigits_le_iff (b := 10) (by decide) hdigits]
  omega

theorem length_toString_le_iff {digits : ℕ} (h : 0 < digits) (n : ℕ) :
    (toString n).length ≤ digits ↔ n < 10 ^ digits := by
  rw [← Nat.length_toDigits_le_iff (b := 10) (by decide) h]
  simp [toString, Nat.repr]

end Text

namespace Report

/-- The decimals of a quotient. -/
theorem exists_fixed_quotient {a c : Float} {v w : ℚ} (ha : HasValue a v) (hc : HasValue c w)
    (hw : 1 ≤ w) (hle : w ≤ v) {k : ℤ} (hk : k ≤ 1000) (hlt : v / w < 2 ^ k) (places : ℕ) :
    ∃ n : ℕ, Text.fixed places (a / c) = String.ofList (Text.placed places n) ∧
      |(n : ℚ) - v / w * 10 ^ places| ≤ 1 / 2 + 2 ^ (k - 53) * 10 ^ places := by
  have hone : 1 ≤ v / w := (one_le_div (by linarith)).mpr hle
  obtain ⟨q, hq, hnear⟩ := ha.div hc (hw.trans hle) hw hone hk hlt
  obtain ⟨n, hn, hround⟩ := hq.fixed_eq places
  refine ⟨n, hn, ?_⟩
  calc |(n : ℚ) - v / w * 10 ^ places|
      = |((n : ℚ) - q * 10 ^ places) + (q - v / w) * 10 ^ places| := by ring_nf
    _ ≤ |(n : ℚ) - q * 10 ^ places| + |(q - v / w) * 10 ^ places| := abs_add_le _ _
    _ ≤ 1 / 2 + 2 ^ (k - 53) * 10 ^ places := by
      rw [abs_mul, abs_of_pos (by positivity : (0 : ℚ) < 10 ^ places)]
      gcongr

/-! ### Durations -/

/-- A duration that is shown as a thousand milliseconds, and not as a second. -/
def IsAlmostSecond (us : Float) : Prop := 999995 ≤ us ∧ us < 1000000

instance (us : Float) : Decidable (IsAlmostSecond us) := inferInstanceAs (Decidable (_ ∧ _))

/-- A fixed point that is followed by its unit. -/
theorem length_amount_le_iff {places digits n : ℕ} {text unit : String}
    (htext : text = String.ofList (Text.placed places n)) (hplaces : 0 < places) (hdigits : 0 < digits)
    {width : ℕ} (hwidth : digits + 1 + places + unit.length = width) :
    (text ++ unit).length ≤ width ↔ n < 10 ^ digits * 10 ^ places := by
  rw [← Text.length_placed_le_iff hplaces hdigits, htext, String.length_append, String.length_ofList]
  omega

theorem length_micros_le {us : Float} {v : ℚ} (hv : HasValue us v) (hlt : v < 1000) :
    (Text.fixed 0 us ++ "us").length ≤ 8 := by
  obtain ⟨n, hn, hround⟩ := hv.fixed_eq 0
  have hn' : n < 10 ^ 6 := by
    rw [pow_zero, mul_one, abs_le] at hround
    have hbound : (n : ℚ) < 10 ^ 6 := by linarith
    exact_mod_cast hbound
  have hdigits := (Nat.length_toDigits_le_iff (b := 10) (by decide) (by decide)).mpr hn'
  rw [hn, String.length_append, String.length_ofList, Text.length_placed_zero]
  exact Nat.add_le_add_right hdigits 2

/-- Milliseconds take eight characters up to 999.995, where three digits before the point become four. -/
theorem length_millis_le_iff {us : Float} {v : ℚ} (hv : HasValue us v) (hle : 1000 ≤ v)
    (hlt : v < 1000000) : (Text.fixed 2 (us / 1000) ++ "ms").length ≤ 8 ↔ v < 999995 := by
  have h1000 := hasValue_literal 1000 (by decide)
  by_cases heq : v = 999995
  · subst heq
    rw [hv.inj (hasValue_literal 999995 (by decide))]
    exact iff_of_false (by decide +kernel) (lt_irrefl _)
  obtain ⟨n, hn, hround⟩ := exists_fixed_quotient hv h1000 (by norm_num) hle (k := 10) (by decide)
    ((div_lt_iff₀ (by norm_num)).mpr (hlt.trans (by norm_num))) 2
  rw [length_amount_le_iff hn (by decide) (by decide : 0 < 3) (by decide)]
  norm_num at hround ⊢
  rw [abs_le] at hround
  obtain hfar | hnear := lt_or_ge v (2 ^ (19 : ℤ))
  · norm_num at hfar
    have hbound : (n : ℚ) < 100000 := by linarith
    exact iff_of_true (by exact_mod_cast hbound) (by linarith)
  -- the next double is `2 ^ (-33)` microseconds away, a little more than the quotient may be off
  obtain ⟨m, rfl⟩ := hv.exists_multiple (by decide) hnear (hlt.trans (by norm_num))
  norm_num at hround hlt ⊢
  rcases lt_trichotomy m (999995 * 2 ^ 33) with hlow | rfl | hhigh
  · have hlow : (m : ℚ) + 1 ≤ 999995 * 2 ^ 33 := by exact_mod_cast hlow
    have hbound : (n : ℚ) < 100000 := by linarith
    exact iff_of_true (by exact_mod_cast hbound) (by linarith)
  · exact absurd (by norm_num) heq
  · have hhigh : 999995 * 2 ^ 33 + 1 ≤ (m : ℚ) := by exact_mod_cast hhigh
    have hbound : (99999 : ℚ) < n := by linarith
    refine iff_of_false (not_lt.mpr ?_) (not_lt.mpr (by linarith))
    exact_mod_cast hbound

theorem length_seconds_le {us : Float} {v : ℚ} (hv : HasValue us v) (hle : 1000000 ≤ v)
    (hlt : v < 9999000000) : (Text.fixed 2 (us / 1000000) ++ "s").length ≤ 8 := by
  have h1000000 := hasValue_literal 1000000 (by decide)
  obtain ⟨n, hn, hround⟩ := exists_fixed_quotient hv h1000000 (by norm_num) hle (k := 14) (by decide)
    ((div_lt_iff₀ (by norm_num)).mpr (hlt.trans (by norm_num))) 2
  rw [length_amount_le_iff hn (by decide) (by decide : 0 < 4) (by decide)]
  rw [abs_le] at hround
  norm_num at hround ⊢
  have hbound : (n : ℚ) < 1000000 := by linarith
  exact_mod_cast hbound

/-- **Which durations fit a column of eight characters**, of those below 9999 seconds: all but the last five
microseconds before the first second. -/
theorem length_duration_le_iff {us : Float} (hpos : 0 < us) (hlt : us < 9999000000) :
    (duration us).length ≤ 8 ↔ ¬ IsAlmostSecond us := by
  have h1000 := hasValue_literal 1000 (by decide)
  have h999995 := hasValue_literal 999995 (by decide)
  have h1000000 := hasValue_literal 1000000 (by decide)
  have hmax := hasValue_literal 9999000000 (by decide)
  obtain ⟨v, hv⟩ := exists_hasValue hpos hlt hmax
  rw [hv.lt_iff hmax] at hlt
  rw [IsAlmostSecond, h999995.le_iff hv, hv.lt_iff h1000000]
  unfold duration
  by_cases hmicros : us < 1000
  · rw [if_pos hmicros]
    rw [hv.lt_iff h1000] at hmicros
    exact iff_of_true (length_micros_le hv hmicros) fun h => by linarith [h.1]
  · rw [if_neg hmicros]
    rw [hv.lt_iff h1000, not_lt] at hmicros
    by_cases hmillis : us < 1000000
    · rw [if_pos hmillis]
      rw [hv.lt_iff h1000000] at hmillis
      rw [length_millis_le_iff hv hmicros hmillis]
      simp [hmillis]
    · rw [if_neg hmillis]
      rw [hv.lt_iff h1000000, not_lt] at hmillis
      exact iff_of_true (length_seconds_le hv hmillis hlt) fun h => by linarith [h.2]

/-! ### Frequencies -/

/-- A frequency that has three digits before the point in its unit, or is rounded to that many. -/
def HasThreeDigits (hz : ℕ) : Prop := (99995 ≤ hz ∧ hz < 1000000) ∨ (99995000 ≤ hz ∧ hz < 1000000000)

instance (hz : ℕ) : Decidable (HasThreeDigits hz) := inferInstanceAs (Decidable (_ ∨ _))

/-- A frequency in a unit, of which it is less than a thousand, takes three characters before the point from
99.995 on. -/
theorem fixed_unit_lt_iff (hz unit threshold : ℕ) (hunit : 0 < unit) (hmax : unit ≤ 1000000000)
    (hthreshold : 200 * threshold = 19999 * unit) (hle : unit ≤ hz) (hlt : hz < 1000 * unit)
    (hat : (Text.fixed 2 (Float.ofNat threshold / Float.ofNat unit)).length = 6) :
    (Text.fixed 2 (Float.ofNat hz / Float.ofNat unit)).length ≤ 5 ↔ hz < threshold := by
  rcases eq_or_ne hz threshold with rfl | hne
  · rw [hat]
    exact iff_of_false (by decide) (lt_irrefl _)
  have hpos : (0 : ℚ) < unit := by exact_mod_cast hunit
  obtain ⟨n, hn, hround⟩ := exists_fixed_quotient (hasValue_ofNat (n := hz) (by omega) (by omega))
    (hasValue_ofNat (n := unit) hunit (by omega)) (by exact_mod_cast hunit) (by exact_mod_cast hle)
    (k := 10) (by decide)
    ((div_lt_iff₀ hpos).mpr (by exact_mod_cast hlt.trans (by omega : 1000 * unit < 2 ^ 10 * unit))) 2
  rw [hn, String.length_ofList, Text.length_placed_le_iff (by decide) (by decide : 0 < 2)]
  obtain ⟨x, hx⟩ : ∃ x : ℚ, (hz : ℚ) / unit = x := ⟨_, rfl⟩
  have hthreshold : 200 * (threshold : ℚ) = 19999 * unit := by exact_mod_cast hthreshold
  have hmax : (unit : ℚ) ≤ 1000000000 := by exact_mod_cast hmax
  norm_num [hx] at hround ⊢
  rw [abs_le] at hround
  rcases hne.lt_or_gt with hlow | hhigh
  · have hlow : (hz : ℚ) + 1 ≤ threshold := by exact_mod_cast hlow
    have hbelow : x ≤ 99.995 - 1 / 1000000000 := by
      rw [← hx, div_le_iff₀ hpos]
      linarith
    have hbound : (n : ℚ) < 10000 := by linarith
    exact iff_of_true (by exact_mod_cast hbound) (by exact_mod_cast lt_of_lt_of_le (lt_add_one _) hlow)
  · have hhigh : (threshold : ℚ) + 1 ≤ hz := by exact_mod_cast hhigh
    have habove : 99.995 + 1 / 1000000000 ≤ x := by
      rw [← hx, le_div_iff₀ hpos]
      linarith
    have hbound : (9999 : ℚ) < n := by linarith
    refine iff_of_false (not_lt.mpr (by exact_mod_cast hbound)) (not_lt.mpr ?_)
    exact_mod_cast (lt_add_one _).le.trans hhigh

/-- **Which frequencies fit a column of eight characters**, of those below 10 GHz: all but those that have
three digits before the point in kHz or in MHz. -/
theorem length_frequency_le_iff {hz : ℕ} (hlt : hz < 10000000000) :
    (frequency hz).length ≤ 8 ↔ ¬ HasThreeDigits hz := by
  have hunit : ∀ {text unit : String}, unit.length = 3 → ((text ++ unit).length ≤ 8 ↔ text.length ≤ 5) := by
    intro text unit hunit
    rw [String.length_append, hunit]
    omega
  unfold frequency
  dsimp only
  by_cases hhertz : hz < 1000
  · rw [if_pos hhertz]
    refine iff_of_true ?_ (by unfold HasThreeDigits; omega)
    have hlen := (Text.length_toString_le_iff (by decide : 0 < 3) hz).mpr hhertz
    rw [String.length_append]
    exact (Nat.add_le_add_right hlen 2).trans (by decide)
  rw [if_neg hhertz]
  by_cases hkilo : hz < 1000000
  · rw [if_pos hkilo, hunit (by decide), HasThreeDigits]
    have hfits := fixed_unit_lt_iff hz 1000 99995 (by decide) (by decide) (by decide) (by omega)
      (by omega) (by decide +kernel)
    refine Iff.trans hfits ?_
    omega
  rw [if_neg hkilo]
  by_cases hmega : hz < 1000000000
  · rw [if_pos hmega, hunit (by decide), HasThreeDigits]
    have hfits := fixed_unit_lt_iff hz 1000000 99995000 (by decide) (by decide) (by decide)
      (by omega) (by omega) (by decide +kernel)
    refine Iff.trans hfits ?_
    omega
  · rw [if_neg hmega, hunit (by decide), HasThreeDigits]
    have hfits := fixed_unit_lt_iff hz 1000000000 99995000000 (by decide) (by decide) (by decide)
      (by omega) (by omega) (by decide +kernel)
    refine Iff.trans hfits ?_
    omega

end Report

end PowerTrace
