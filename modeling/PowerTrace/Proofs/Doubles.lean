import Mathlib
import PowerTrace.Proofs.NotANumber
import PowerTrace.Text.Decimal

/-!
# Doubles as fractions

A positive double stands for a whole number of powers of two.  This file ties the three forms in which
a double is met, its bits, the mantissa and exponent that arithmetic works on, and its decimals, to that
number.

* `FloatOrder.fields_of_unpack`: the mantissa and the exponent are fields of the bits;
* `FloatOrder.IsStored`: which mantissas and exponents occur;
* `FloatOrder.IsNormal`, `FloatOrder.unpack_pack`: a normal double is stored as it is;
* `FloatOrder.HasValue`: what a positive double stands for;
* `FloatOrder.HasValue.lt_iff`, `FloatOrder.HasValue.inj`: doubles compare as their values do, and
  are told apart by them;
* `FloatOrder.HasValue.fixed_eq`: the decimals of a double are the nearest to its value.
-/

namespace PowerTrace

open Float.Model (Format UnpackedFloat)
open Float.Model.UnpackedFloat (packComponents)
open Text (Binary placed scaled pow2 pow10)
open TimeValue

namespace FloatOrder

/-! ### The fields of a double -/

section Fields

variable (b : BitVec Format.binary64.numBits)

theorem toNat_unpackMantissa : (UnpackedFloat.unpackMantissa b).toNat = b.toNat % 2 ^ 52 := by
  rw [UnpackedFloat.unpackMantissa, BitVec.toNat_cast, BitVec.extractLsb_toNat, Nat.shiftRight_zero]
  rfl

theorem toNat_unpackExponent : (UnpackedFloat.unpackExponent b).toNat = b.toNat / 2 ^ 52 % 2 ^ 11 := by
  rw [UnpackedFloat.unpackExponent, BitVec.toNat_cast, BitVec.extractLsb_toNat,
    Nat.shiftRight_eq_div_pow]
  rfl

theorem toNat_unpackSign : (UnpackedFloat.unpackSign b).toNat = b.toNat / 2 ^ 63 % 2 := by
  rw [UnpackedFloat.unpackSign, BitVec.toNat_cast, BitVec.extractLsb_toNat,
    Nat.shiftRight_eq_div_pow]
  rfl

end Fields

/-- The mantissa of a normal double has a leading one in front of its fraction. -/
theorem toNat_leadingOne (f : BitVec 52) : (1#1 ++ f).toNat = 2 ^ 52 + f.toNat := by
  rw [BitVec.toNat_append, ← Nat.shiftLeft_add_eq_or_of_lt f.isLt]
  rfl

theorem sign_eq_positive_iff (b : BitVec 1) :
    UnpackedFloat.Sign.ofBitVec b = .positive ↔ b.toNat = 0 := by
  unfold UnpackedFloat.Sign.ofBitVec
  split
  · next h => simp [h]
  · next h =>
    refine iff_of_false UnpackedFloat.Sign.noConfusion fun h0 => h (BitVec.eq_of_toNat_eq h0)

section Stored

variable {a : Float} {s : UnpackedFloat.Sign} {m : ℕ} {e : ℤ} {hm : 0 < m}

/-- **The mantissa and the exponent of a finite double are fields of its bits.**  With the exponent zero
there is no leading one, and the least exponent counts. -/
theorem fields_of_unpack (h : unpack a = .finite s m e hm) {bits exponent : ℕ}
    (hbits : a.toBits.toNat = bits) (hexponent : bits / 2 ^ 52 % 2 ^ 11 = exponent) :
    (s = .positive ↔ bits / 2 ^ 63 % 2 = 0) ∧ exponent ≠ 2047 ∧
      (exponent = 0 ∧ m = bits % 2 ^ 52 ∧ e = -1074 ∨
        exponent ≠ 0 ∧ m = 2 ^ 52 + bits % 2 ^ 52 ∧ e = exponent - 1075) := by
  have hfrac := toNat_unpackMantissa a.toBits.toBitVec
  have hexp := toNat_unpackExponent a.toBits.toBitVec
  have hsign := toNat_unpackSign a.toBits.toBitVec
  have hb : a.toBits.toBitVec.toNat = bits := hbits
  rw [hb] at hfrac hexp hsign
  rw [hexponent] at hexp
  have hu : unpack a = UnpackedFloat.unpack .binary64 a.toBits.toBitVec := rfl
  rw [hu, UnpackedFloat.unpack] at h
  split at h
  · split at h <;> cases h
  · next hinf =>
    have hne : exponent ≠ 2047 := fun h0 => hinf (BitVec.eq_of_toNat_eq (hexp.trans h0))
    split at h
    · next hzero =>
      have h0 : exponent = 0 := hexp.symm.trans (congrArg BitVec.toNat hzero)
      split at h
      · cases h
      · injection h with h1 h2 h3
        subst h1 h2 h3
        refine ⟨?_, hne, .inl ⟨h0, hfrac, ?_⟩⟩
        · rw [sign_eq_positive_iff, hsign]
        · rw [hexp, h0]
          rfl
    · next hzero =>
      have h0 : exponent ≠ 0 := fun h0 => hzero (BitVec.eq_of_toNat_eq (hexp.trans h0))
      injection h with h1 h2 h3
      subst h1 h2 h3
      refine ⟨?_, hne, .inr ⟨h0, ?_, ?_⟩⟩
      · rw [sign_eq_positive_iff, hsign]
      · rw [← hfrac]
        exact toNat_leadingOne _
      · rw [hexp]
        rfl

/-- The mantissa and the exponent of a finite double as it is stored: the mantissa has 53 binary digits,
and fewer only with the least exponent. -/
structure IsStored (m : ℕ) (e : ℤ) : Prop where
  mantissa_lt : m < 2 ^ 53
  le_exponent : -1074 ≤ e
  exponent_le : e ≤ 971
  full : 2 ^ 52 ≤ m ∨ e = -1074

theorem isStored_of_unpack (h : unpack a = .finite s m e hm) : IsStored m e := by
  obtain ⟨-, hinf, hcases⟩ := fields_of_unpack h rfl rfl
  constructor <;> omega

/-- Decimals are read off the same mantissa and exponent that arithmetic works on. -/
theorem ofFloat_of_unpack (h : unpack a = .finite .positive m e hm) :
    Binary.ofFloat a = .finite false m e := by
  obtain ⟨hsign, hinf, hcases⟩ := fields_of_unpack h rfl rfl
  have hsign : ¬ pow2 63 ≤ a.toBits.toNat := by
    have hsign := hsign.mp rfl
    have hlt := a.toBits.toNat_lt
    show ¬ 2 ^ 63 ≤ _
    omega
  have hpow : ∀ n, pow2 n = 2 ^ n := fun _ => rfl
  simp only [hpow] at hsign
  simp only [Binary.ofFloat, hpow]
  rw [if_neg hinf, decide_eq_false hsign]
  rcases hcases with ⟨h0, rfl, rfl⟩ | ⟨h0, rfl, rfl⟩
  · rw [if_pos h0]
  · rw [if_neg h0]

end Stored

/-! ### Packing -/

/-- The mantissa and the exponent of a double that has all its 53 binary digits. -/
structure IsNormal (m : ℕ) (e : ℤ) : Prop where
  full : 2 ^ 52 ≤ m
  mantissa_lt : m < 2 ^ 53
  le_exponent : -1074 ≤ e
  exponent_le : e ≤ 971

theorem IsNormal.log2_eq {m : ℕ} {e : ℤ} (h : IsNormal m e) : m.log2 = 52 := by
  have hfull := h.full
  exact (Nat.log2_eq_iff (by omega)).mpr ⟨hfull, h.mantissa_lt⟩

/-- **Packing and unpacking** leave a normal double as it is. -/
theorem unpack_pack (s : UnpackedFloat.Sign) {m : ℕ} {e : ℤ} (hm : 0 < m) (h : IsNormal m e) :
    unpack (Float.ofModel (Float.Model.pack (.finite s m e hm))) = .finite s m e hm := by
  have hlog := h.log2_eq
  obtain ⟨hlow, hhigh, he, he'⟩ := h
  have hfits : ¬ 2 ^ Format.binary64.exponentBits ≤
      (e + Format.binary64.exponentBias + Format.binary64.mantissaBitsWithoutImplicit).toNat + 1 := by
    show ¬ 2 ^ 11 ≤ (e + 1023 + 52).toNat + 1
    omega
  have hpack : UnpackedFloat.pack .binary64 (.finite s m e hm) =
      packComponents .binary64 s (BitVec.ofNat 11 (e + 1075).toNat) (BitVec.ofNat 52 m) := by
    rw [UnpackedFloat.pack]
    dsimp only
    rw [if_neg hfits, if_pos (by rw [hlog]; rfl)]
    show packComponents .binary64 s (BitVec.ofNat 11 (e + 1023 + 52).toNat) (BitVec.ofNat 52 m) = _
    rw [add_assoc]
    rfl
  have hexponent : (BitVec.ofNat 11 (e + 1075).toNat).toNat = (e + 1075).toNat := by
    rw [BitVec.toNat_ofNat]
    omega
  have hinf : BitVec.ofNat 11 (e + 1075).toNat ≠ -1#_ := by
    intro h
    have h : (e + 1075).toNat = 2047 := hexponent.symm.trans (congrArg BitVec.toNat h)
    omega
  have hzero : BitVec.ofNat 11 (e + 1075).toNat ≠ 0#_ := by
    intro h
    have h : (e + 1075).toNat = 0 := hexponent.symm.trans (congrArg BitVec.toNat h)
    omega
  have hmantissa : (1#1 ++ BitVec.ofNat 52 m).toNat = m := by
    rw [toNat_leadingOne, BitVec.toNat_ofNat]
    omega
  have hvalue : ((BitVec.ofNat 11 (e + 1075).toNat).toNat : ℤ) - ((1023 : ℕ) + (52 : ℕ)) = e := by
    rw [hexponent]
    omega
  show UnpackedFloat.unpack .binary64 (UnpackedFloat.pack .binary64 (.finite s m e hm)) = _
  rw [hpack, UnpackedFloat.unpack]
  simp only [UnpackedFloat.unpackExponent_packComponents, UnpackedFloat.unpackMantissa_packComponents,
    UnpackedFloat.unpackSign_packComponents, UnpackedFloat.Sign.ofBitVec_toBitVec]
  rw [if_neg hinf, if_neg hzero]
  congr

/-! ### The value of a double -/

/-- What a positive double stands for. -/
def HasValue (a : Float) (v : ℚ) : Prop :=
  ∃ m e, ∃ hm : 0 < m, unpack a = .finite .positive m e hm ∧ v = m * 2 ^ e

/-- With a larger exponent comes a larger value: only the least exponent allows for short mantissas. -/
theorem value_lt_of_exponent_lt {m m' : ℕ} {e e' : ℤ} (h : IsStored m e) (h' : IsStored m' e')
    (hlt : e < e') : (m : ℚ) * 2 ^ e < m' * 2 ^ e' := by
  have hm' : 2 ^ 52 ≤ m' := h'.full.resolve_right fun he => by
    have := h.le_exponent
    omega
  have hmantissa : (m : ℚ) < 2 ^ 53 := by exact_mod_cast h.mantissa_lt
  have hmantissa' : (2 : ℚ) ^ 52 ≤ m' := by exact_mod_cast hm'
  have hpos : (0 : ℚ) < 2 ^ e := by positivity
  calc (m : ℚ) * 2 ^ e < 2 ^ 53 * 2 ^ e := by gcongr
    _ = 2 ^ 52 * 2 ^ (e + 1) := by
      rw [zpow_add_one₀ two_ne_zero]
      ring
    _ ≤ m' * 2 ^ e' := by
      gcongr
      · exact one_le_two
      · omega

theorem value_lt_iff {m m' : ℕ} {e e' : ℤ} (h : IsStored m e) (h' : IsStored m' e') :
    (m : ℚ) * 2 ^ e < m' * 2 ^ e' ↔ e < e' ∨ e = e' ∧ m < m' := by
  rcases lt_trichotomy e e' with hlt | rfl | hgt
  · exact iff_of_true (value_lt_of_exponent_lt h h' hlt) (.inl hlt)
  · have hpos : (0 : ℚ) < 2 ^ e := by positivity
    rw [mul_lt_mul_iff_left₀ hpos, Nat.cast_lt]
    simp
  · refine iff_of_false (value_lt_of_exponent_lt h' h hgt).not_gt ?_
    omega

/-- **Positive doubles compare as their values do.** -/
theorem HasValue.lt_iff {a b : Float} {v w : ℚ} (ha : HasValue a v) (hb : HasValue b w) :
    a < b ↔ v < w := by
  obtain ⟨m, e, hm, ha, rfl⟩ := ha
  obtain ⟨m', e', hm', hb, rfl⟩ := hb
  rw [value_lt_iff (isStored_of_unpack ha) (isStored_of_unpack hb)]
  have hlt : a < b ↔ lt a b = true := (decide_eq_true_iff (p := a < b)).symm
  rw [hlt, lt_iff_rank (by rw [ha]; exact UnpackedFloat.noConfusion)
    (by rw [hb]; exact UnpackedFloat.noConfusion), ha, hb]
  show toLex ((1 : ℤ), toLex (e, (m : ℤ))) < toLex (1, toLex (e', (m' : ℤ))) ↔ _
  simp [Prod.Lex.toLex_lt_toLex]

theorem HasValue.le_iff {a b : Float} {v w : ℚ} (ha : HasValue a v) (hb : HasValue b w) :
    a ≤ b ↔ v ≤ w := by
  have hlt := hb.lt_iff ha
  obtain ⟨m, e, hm, ha, -⟩ := ha
  obtain ⟨m', e', hm', hb, -⟩ := hb
  have hle : a ≤ b ↔ le a b = true := (decide_eq_true_iff (p := a ≤ b)).symm
  have hlt' : b < a ↔ lt b a = true := (decide_eq_true_iff (p := b < a)).symm
  have hna : unpack a ≠ .notANumber := ha ▸ UnpackedFloat.noConfusion
  have hnb : unpack b ≠ .notANumber := hb ▸ UnpackedFloat.noConfusion
  rw [hle, le_iff_rank hna hnb, ← not_lt, ← lt_iff_rank hnb hna, ← hlt', hlt, not_lt]

/-- **A value belongs to no more than one double.** -/
theorem HasValue.inj {a b : Float} {v : ℚ} (ha : HasValue a v) (hb : HasValue b v) : a = b := by
  obtain ⟨m, e, hm, hua, hv⟩ := ha
  obtain ⟨m', e', hm', hub, hv'⟩ := hb
  have hsa := isStored_of_unpack hua
  have hsb := isStored_of_unpack hub
  have hab := mt (value_lt_iff hsa hsb).mpr (hv.symm.trans hv').not_lt
  have hba := mt (value_lt_iff hsb hsa).mpr (hv'.symm.trans hv).not_lt
  obtain rfl : e = e' := by omega
  obtain rfl : m = m' := by omega
  have hbits := (UnpackedFloat.unpack_inj_of_valid a.toModel.valid b.toModel.valid).mp (hua.trans hub.symm)
  exact Float.toBits_inj.mp (UInt64.toBitVec_inj.mp hbits)

/-- A double between zero and another has a value. -/
theorem exists_hasValue {a b : Float} {w : ℚ} (hpos : 0 < a) (hlt : a < b) (hb : HasValue b w) :
    ∃ v, HasValue a v := by
  obtain ⟨m', e', hm', hb, -⟩ := hb
  have hpos : lt zero a = true := decide_eq_true hpos
  have hlt : lt a b = true := decide_eq_true hlt
  have ha := (isNumber_of_lt hlt).1
  have hzero : unpack (zero : Float) = .zero .positive := rfl
  rw [lt_iff_rank UnpackedFloat.noConfusion ha, hzero] at hpos
  rw [lt_iff_rank ha (by rw [hb]; exact UnpackedFloat.noConfusion), hb] at hlt
  cases hu : unpack a with
  | notANumber => exact absurd hu ha
  | infinity s =>
    rw [hu] at hpos hlt
    cases s
    · exact absurd hpos (by decide)
    · simp [unpackedRank, Prod.Lex.toLex_lt_toLex] at hlt
  | zero s =>
    rw [hu] at hpos
    exact absurd hpos (lt_irrefl _)
  | finite s m e hm =>
    cases s
    · rw [hu] at hpos
      simp [unpackedRank, Prod.Lex.toLex_lt_toLex] at hpos
    · exact ⟨_, m, e, hm, hu, rfl⟩

/-- A double that is at least one is normal. -/
theorem HasValue.isNormal {a : Float} {v : ℚ} (h : HasValue a v) (hv : 1 ≤ v) :
    ∃ m e, ∃ hm : 0 < m, unpack a = .finite .positive m e hm ∧ IsNormal m e ∧ v = m * 2 ^ e := by
  obtain ⟨m, e, hm, ha, rfl⟩ := h
  have hs := isStored_of_unpack ha
  refine ⟨m, e, hm, ha, ⟨hs.full.resolve_right ?_, hs.mantissa_lt, hs.le_exponent, hs.exponent_le⟩, rfl⟩
  rintro rfl
  have hmantissa : (m : ℚ) < 2 ^ 53 := by exact_mod_cast hs.mantissa_lt
  refine hv.not_gt ?_
  calc (m : ℚ) * 2 ^ (-1074 : ℤ) < 2 ^ 53 * 2 ^ (-1074 : ℤ) := by gcongr
    _ = 2 ^ (-1021 : ℤ) := by
      rw [← zpow_natCast, ← zpow_add₀ two_ne_zero]
      rfl
    _ < 1 := zpow_lt_one_of_neg₀ one_lt_two (by decide)

theorem hasValue_pack {m : ℕ} {e : ℤ} (hm : 0 < m) (h : IsNormal m e) :
    HasValue (Float.ofModel (Float.Model.pack (.finite .positive m e hm))) (m * 2 ^ e) :=
  ⟨m, e, hm, unpack_pack .positive hm h, rfl⟩

theorem two_zpow_lt_iff {j k : ℤ} : (2 : ℚ) ^ j < 2 ^ k ↔ j < k := zpow_lt_zpow_iff_right₀ one_lt_two

/-- Between two powers of two the doubles are evenly spaced. -/
theorem HasValue.exists_multiple {a : Float} {v : ℚ} (h : HasValue a v) {k : ℤ} (hk : -1021 ≤ k)
    (hlow : 2 ^ k ≤ v) (hhigh : v < 2 ^ (k + 1)) : ∃ m : ℕ, v = m * 2 ^ (k - 52) := by
  obtain ⟨m, e, hm, ha, rfl⟩ := h
  have hs := isStored_of_unpack ha
  have hpos : (0 : ℚ) < 2 ^ e := by positivity
  have hmantissa : (m : ℚ) < 2 ^ 53 := by exact_mod_cast hs.mantissa_lt
  have hupper : k < 53 + e := by
    rw [← two_zpow_lt_iff, zpow_add₀ two_ne_zero]
    exact hlow.trans_lt (by gcongr; exact_mod_cast hmantissa)
  have hfull : 2 ^ 52 ≤ m := hs.full.resolve_right (by omega)
  have hlower : 52 + e < k + 1 := by
    rw [← two_zpow_lt_iff, zpow_add₀ two_ne_zero]
    refine lt_of_le_of_lt ?_ hhigh
    gcongr
    exact_mod_cast hfull
  exact ⟨m, by congr; omega⟩

/-! ### Decimals -/

theorem abs_roundDiv_sub_le {num den : ℕ} (h : 0 < den) :
    |(Text.roundDiv num den : ℚ) - num / den| ≤ 1 / 2 := by
  obtain ⟨hle, hge⟩ := @Text.roundDiv_bounds num den h
  have hden : (0 : ℚ) < den := by exact_mod_cast h
  have hle : 2 * ((Text.roundDiv num den : ℚ) * den) ≤ 2 * num + den := by exact_mod_cast hle
  have hge : 2 * (num : ℚ) ≤ 2 * (Text.roundDiv num den * den) + den := by exact_mod_cast hge
  have hmul : (num : ℚ) / den * den = num := div_mul_cancel₀ _ hden.ne'
  rw [abs_le]
  constructor <;> nlinarith

/-- **The decimals of a double** are those of the whole number nearest to its value in their last place. -/
theorem HasValue.fixed_eq {a : Float} {v : ℚ} (h : HasValue a v) (places : ℕ) :
    ∃ n : ℕ, Text.fixed places a = String.ofList (placed places n) ∧
      |(n : ℚ) - v * 10 ^ places| ≤ 1 / 2 := by
  obtain ⟨m, e, hm, ha, rfl⟩ := h
  refine ⟨scaled places m e, ?_, ?_⟩
  · simp only [Text.fixed, Text.fixedWith, ofFloat_of_unpack ha]
    rfl
  · have hden : (0 : ℚ) < 2 ^ (-e).toNat := by positivity
    have hpow : (2 : ℚ) ^ e * 2 ^ (-e).toNat = 2 ^ e.toNat := by
      rw [← zpow_natCast, ← zpow_natCast, ← zpow_add₀ two_ne_zero]
      congr 1
      omega
    have hvalue : ((m * pow10 places * pow2 e.toNat : ℕ) : ℚ) / (pow2 (-e).toNat : ℕ) =
        m * 2 ^ e * 10 ^ places := by
      show ((m * 10 ^ places * 2 ^ e.toNat : ℕ) : ℚ) / (2 ^ (-e).toNat : ℕ) = _
      push_cast
      rw [div_eq_iff hden.ne', ← hpow]
      ring
    rw [← hvalue]
    exact abs_roundDiv_sub_le (Nat.two_pow_pos _)

end FloatOrder

end PowerTrace
