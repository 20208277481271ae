import Mathlib

/-! Products of binary64 numbers with whole numbers. The arithmetic is that of `Float`, by its
logical model; what is proved about it is how far a rounded product can be from the exact one, which
is enough to say when the product of a whole number and a factor above or below one gets past the
number. -/

namespace Binary64

open Float.Model Float.Model.UnpackedFloat

/-! ### Rounding a mantissa -/

/-- A mantissa with its two residual bits says where a number is between two whole numbers. -/
def Locates (x : ℚ) : ExtendedMantissa → Prop
  | ⟨m, false, false⟩ => x = m
  | ⟨m, false, true⟩ => m < x ∧ x < m + 1 / 2
  | ⟨m, true, false⟩ => x = m + 1 / 2
  | ⟨m, true, true⟩ => m + 1 / 2 < x ∧ x < m + 1

theorem locates_half {em : ExtendedMantissa} {x : ℚ} (h : Locates x em) :
    Locates (x / 2) em.shiftRightOne := by
  obtain ⟨m, round, sticky⟩ := em
  have hm : (m : ℚ) = 2 * (m / 2 : ℕ) + (m % 2 : ℕ) := by exact_mod_cast (Nat.div_add_mod m 2).symm
  -- The bit that leaves the mantissa is the new round bit, the old one joins the sticky bit.
  rcases Nat.mod_two_eq_zero_or_one m with hmod | hmod
  · have hbit : (m % 2 != 0) = false := by rw [hmod]; rfl
    rw [hmod, Nat.cast_zero, add_zero] at hm
    simp only [ExtendedMantissa.shiftRightOne, hbit]
    cases round <;> cases sticky <;> simp only [Locates, Bool.or_self, Bool.or_true, Bool.true_or] at h ⊢
    · linarith
    · constructor <;> linarith
    · constructor <;> linarith
    · constructor <;> linarith
  · have hbit : (m % 2 != 0) = true := by rw [hmod]; rfl
    rw [hmod, Nat.cast_one] at hm
    simp only [ExtendedMantissa.shiftRightOne, hbit]
    cases round <;> cases sticky <;> simp only [Locates, Bool.or_self, Bool.or_true, Bool.true_or] at h ⊢
    · linarith
    · constructor <;> linarith
    · constructor <;> linarith
    · constructor <;> linarith

theorem locates_shift {em : ExtendedMantissa} {x : ℚ} (h : Locates x em) (n : ℕ) :
    Locates (x / 2 ^ n) (em >>> n) := by
  show Locates (x / 2 ^ n) (n.repeat ExtendedMantissa.shiftRightOne em)
  induction n with
  | zero =>
    rw [pow_zero, div_one]
    exact h
  | succ n ih =>
    rw [pow_succ, ← div_div]
    exact locates_half ih

/-- Rounding goes to a nearest whole number. -/
theorem rounded_near {em : ExtendedMantissa} {x : ℚ} (h : Locates x em) :
    |(em.roundedMantissa : ℚ) - x| ≤ 1 / 2 := by
  obtain ⟨m, round, sticky⟩ := em
  have hmod : ((m % 2 : ℕ) : ℚ) = 0 ∨ ((m % 2 : ℕ) : ℚ) = 1 := by
    rcases Nat.mod_two_eq_zero_or_one m with hmod | hmod <;> simp [hmod]
  cases round <;> cases sticky <;>
    simp only [Locates, ExtendedMantissa.accuracy, ExtendedMantissa.roundedMantissa,
      Accuracy.roundToNearestEven, Nat.cast_add, Nat.cast_one] at h ⊢ <;>
    rw [abs_le]
  · constructor <;> linarith
  · constructor <;> linarith
  · rcases hmod with hmod | hmod <;> rw [hmod] <;> constructor <;> linarith
  · constructor <;> linarith

/-- A whole number on one side of a number is on that side of what it is rounded to. -/
theorem le_of_near {k j : ℕ} {x : ℚ} (hnear : |(k : ℚ) - x| ≤ 1 / 2) (h : (j : ℚ) ≤ x) : j ≤ k := by
  have hk := (abs_le.mp hnear).1
  have hlt : (j : ℚ) < k + 1 := by linarith
  exact Nat.lt_succ_iff.mp (by exact_mod_cast hlt)

theorem near_le {k j : ℕ} {x : ℚ} (hnear : |(k : ℚ) - x| ≤ 1 / 2) (h : x ≤ j) : k ≤ j := by
  have hk := (abs_le.mp hnear).2
  have hlt : (k : ℚ) < j + 1 := by linarith
  exact Nat.lt_succ_iff.mp (by exact_mod_cast hlt)

/-! ### Rounding a number -/

/-- The number with a mantissa and an exponent. -/
def scaled (m : ℕ) (e : ℤ) : ℚ := m * 2 ^ e

theorem scaled_nonneg (m : ℕ) (e : ℤ) : 0 ≤ scaled m e :=
  mul_nonneg m.cast_nonneg (zpow_nonneg zero_le_two e)

theorem scaled_le_scaled {m m' : ℕ} {e e' : ℤ} (hm : m ≤ m') (he : e ≤ e') :
    scaled m e ≤ scaled m' e' :=
  mul_le_mul (by exact_mod_cast hm) (zpow_le_zpow_right₀ one_le_two he) (zpow_nonneg zero_le_two e)
    m'.cast_nonneg

theorem scaled_shift (m n : ℕ) (e : ℤ) : scaled (m * 2 ^ n) e = scaled m (e + n) := by
  rw [scaled, scaled, zpow_add₀ two_ne_zero, zpow_natCast]
  push_cast
  ring

/-- The exponent of the result of rounding. -/
def unit (m : ℕ) (e : ℤ) : ℤ := max (m.log2 + e - 52) (-1074)

theorem targetExponent_eq (m : ℕ) (e : ℤ) :
    Format.binary64.targetExponent (totalExponent m e) = unit m e := by
  simp only [Format.targetExponent, totalExponent, Format.mantissaBits, Format.minExponent, unit]
  norm_num
  omega

/-- A mantissa of at most 53 bits, or `2 ^ 53`, as a float. -/
def ofRounded (sign : Sign) (k : ℕ) (e : ℤ) : UnpackedFloat :=
  if h : k = 0 then .zero sign
  else if k < 2 ^ 53 then .finite sign k e (Nat.pos_of_ne_zero h)
  else .finite sign (2 ^ 52) (e + 1) (by decide)

/-- The mantissa that rounding gives. -/
def roundedAt (m : ℕ) (e : ℤ) : ℕ :=
  ((ExtendedMantissa.ofMantissaAndAccuracy m .exact) >>> (unit m e - e).toNat).roundedMantissa

theorem shiftToTargetExponent_small {m : ℕ} {e : ℤ} (hm : m < 2 ^ 53) (he : -1074 ≤ e) :
    shiftToTargetExponent Format.binary64 m e .exact = (⟨m, false, false⟩, e) := by
  have hlog : m.log2 ≤ 52 := by
    by_cases hzero : m = 0
    · rw [hzero]
      decide
    · exact Nat.lt_succ_iff.mp ((Nat.log2_lt hzero).mpr hm)
  have hshift : (unit m e - e).toNat = 0 := by
    unfold unit
    omega
  rw [shiftToTargetExponent, targetExponent_eq, shiftToExponent, hshift, Nat.cast_zero, add_zero]
  rfl

theorem shiftToTargetExponent_carry {e : ℤ} (he : -1074 ≤ e) :
    shiftToTargetExponent Format.binary64 (2 ^ 53) e .exact = (⟨2 ^ 52, false, false⟩, e + 1) := by
  have hshift : (unit (2 ^ 53) e - e).toNat = 1 := by
    rw [unit, Nat.log2_two_pow]
    omega
  rw [shiftToTargetExponent, targetExponent_eq, shiftToExponent, hshift]
  rfl

section Rounding

variable {m : ℕ} {e : ℤ}

theorem roundedAt_near (m : ℕ) (e : ℤ) :
    |(roundedAt m e : ℚ) - m / 2 ^ (unit m e - e).toNat| ≤ 1 / 2 := by
  have hexact : Locates (m : ℚ) (.ofMantissaAndAccuracy m .exact) := by
    show (m : ℚ) = m
    rfl
  exact rounded_near (locates_shift hexact _)

theorem div_lt (m : ℕ) (e : ℤ) : (m : ℚ) / 2 ^ (unit m e - e).toNat < 2 ^ 53 := by
  rw [div_lt_iff₀ (by positivity), ← pow_add]
  have hlog : m < 2 ^ (m.log2 + 1) := Nat.lt_log2_self
  have hle : m.log2 + 1 ≤ 53 + (unit m e - e).toNat := by
    unfold unit
    omega
  exact_mod_cast hlog.trans_le (Nat.pow_le_pow_right two_pos hle)

theorem roundedAt_le (m : ℕ) (e : ℤ) : roundedAt m e ≤ 2 ^ 53 :=
  near_le (roundedAt_near m e) (by exact_mod_cast (div_lt m e).le)

theorem le_div (hm : m ≠ 0) (he : e ≤ unit m e) (hunit : unit m e ≠ -1074) :
    (2 : ℚ) ^ 52 ≤ m / 2 ^ (unit m e - e).toNat := by
  rw [le_div_iff₀ (by positivity), ← pow_add]
  have hlog : 2 ^ m.log2 ≤ m := Nat.log2_self_le hm
  have hle : 52 + (unit m e - e).toNat = m.log2 := by
    unfold unit at he hunit ⊢
    omega
  rw [hle]
  exact_mod_cast hlog

theorem le_roundedAt (hm : m ≠ 0) (he : e ≤ unit m e) (hunit : unit m e ≠ -1074) :
    2 ^ 52 ≤ roundedAt m e :=
  le_of_near (roundedAt_near m e) (by exact_mod_cast le_div hm he hunit)

theorem roundWithAccuracy_eq (sign : Sign) (he : e ≤ unit m e) :
    roundWithAccuracy Format.binary64 sign m e .exact =
      ofRounded sign (roundedAt m e) (unit m e) := by
  have hexponent : e + ((unit m e - e).toNat : ℤ) = unit m e := by omega
  have hmin : -1074 ≤ unit m e := le_max_right _ _
  have hfirst : shiftToTargetExponent Format.binary64 m e .exact =
      ((ExtendedMantissa.ofMantissaAndAccuracy m .exact) >>> (unit m e - e).toNat, unit m e) := by
    rw [shiftToTargetExponent, targetExponent_eq, shiftToExponent, hexponent]
  rw [roundWithAccuracy, hfirst]
  show (match shiftToTargetExponent Format.binary64 (roundedAt m e) (unit m e) .exact with
    | (em, e) => if h : em.mantissa = 0 then UnpackedFloat.zero sign
      else UnpackedFloat.finite sign em.mantissa e (Nat.pos_of_ne_zero h)) = _
  rcases (roundedAt_le m e).lt_or_eq with hlt | heq
  · rw [shiftToTargetExponent_small hlt hmin, ofRounded]
    simp only [hlt, if_true]
  · rw [heq, shiftToTargetExponent_carry hmin]
    rfl

end Rounding

/-! ### Packing -/

/-- What `unpack` gives for a finite number. -/
structure Canonical (m : ℕ) (e : ℤ) : Prop where
  small : m < 2 ^ 53
  least : -1074 ≤ e
  normal : 2 ^ 52 ≤ m ∨ e = -1074

theorem toNat_append_implicit (m : BitVec 52) : (1#1 ++ m).toNat = 2 ^ 52 + m.toNat := by
  rw [BitVec.toNat_append, ← Nat.shiftLeft_add_eq_or_of_lt m.isLt]
  rfl

theorem unpack_canonical {bits : BitVec 64} {sign : Sign} {m : ℕ} {e : ℤ} {hpos : 0 < m}
    (h : UnpackedFloat.unpack Format.binary64 bits = .finite sign m e hpos) :
    Canonical m e ∧ e ≤ 971 := by
  have hbias : (Format.binary64.exponentBias : ℤ) = 1023 := rfl
  simp only [UnpackedFloat.unpack, hbias] at h
  have hsmall : (@unpackMantissa Format.binary64 bits).toNat < 2 ^ 52 := BitVec.isLt _
  split at h
  · split at h <;> cases h
  · next hfinite =>
    split at h
    · next hzero =>
      split at h
      · cases h
      · injection h with _ hm he
        rw [hzero] at he
        have hexp : e = -1074 := by
          rw [← he]
          rfl
        exact ⟨⟨by omega, by omega, Or.inr hexp⟩, by omega⟩
    · next hzero =>
      injection h with _ hm he
      have hmin : (@unpackExponent Format.binary64 bits).toNat ≠ 0 :=
        fun h => hzero (BitVec.eq_of_toNat_eq h)
      have hmax : (@unpackExponent Format.binary64 bits).toNat ≠ 2047 :=
        fun h => hfinite (BitVec.eq_of_toNat_eq h)
      have hlt : (@unpackExponent Format.binary64 bits).toNat < 2048 := BitVec.isLt _
      have hm' := hm.symm.trans (toNat_append_implicit _)
      have he' : ((@unpackExponent Format.binary64 bits).toNat : ℤ) - (1023 + 52) = e := he
      exact ⟨⟨by omega, by omega, Or.inl (by omega)⟩, by omega⟩

theorem unpack_normal {sign : Sign} {exponent : BitVec 11} {mantissa : BitVec 52} {m : ℕ} {e : ℤ}
    {hpos : 0 < m} (hmin : exponent ≠ 0#11) (hmax : exponent ≠ -1#11) (hm : 2 ^ 52 + mantissa.toNat = m)
    (he : (exponent.toNat : ℤ) - 1075 = e) :
    UnpackedFloat.unpack Format.binary64 (packComponents Format.binary64 sign exponent mantissa) =
      .finite sign m e hpos := by
  simp only [UnpackedFloat.unpack, unpackMantissa_packComponents, unpackExponent_packComponents,
    unpackSign_packComponents, Sign.ofBitVec_toBitVec]
  rw [if_neg hmax, if_neg hmin]
  congr 1
  · exact (toNat_append_implicit mantissa).trans hm

theorem unpack_subnormal {sign : Sign} {mantissa : BitVec 52} {m : ℕ} {hpos : 0 < m}
    (hm : mantissa.toNat = m) :
    UnpackedFloat.unpack Format.binary64 (packComponents Format.binary64 sign 0#11 mantissa) =
      .finite sign m (-1074) hpos := by
  have hzero : mantissa ≠ 0#52 := by
    rintro rfl
    exact hpos.ne hm
  simp only [UnpackedFloat.unpack, unpackMantissa_packComponents, unpackExponent_packComponents,
    unpackSign_packComponents, Sign.ofBitVec_toBitVec]
  rw [if_neg (by decide), if_pos trivial, dif_neg hzero]
  congr 1

theorem unpack_pack {sign : Sign} {m : ℕ} {e : ℤ} {hpos : 0 < m} (h : Canonical m e) :
    UnpackedFloat.unpack Format.binary64 (UnpackedFloat.pack Format.binary64 (.finite sign m e hpos)) =
      if e ≤ 971 then .finite sign m e hpos else .infinity sign := by
  have hbias : (Format.binary64.exponentBias : ℤ) = 1023 := rfl
  obtain ⟨hsmall, hleast, hnormal⟩ := h
  have hbiased : (e + Format.binary64.exponentBias + (52 : ℕ)).toNat = (e + 1075).toNat := by
    rw [hbias]
    omega
  unfold UnpackedFloat.pack
  simp only [hbiased]
  by_cases hfits : e ≤ 971
  · rw [if_pos hfits, if_neg (by omega)]
    by_cases hfull : 2 ^ 52 ≤ m
    · have hlog : m.log2 = 52 := Nat.le_antisymm
        (Nat.lt_succ_iff.mp ((Nat.log2_lt hpos.ne').mpr hsmall)) ((Nat.le_log2 hpos.ne').mpr hfull)
      have hexponent : (BitVec.ofNat 11 (e + 1075).toNat).toNat = (e + 1075).toNat := by
        rw [BitVec.toNat_ofNat, Nat.mod_eq_of_lt (by omega)]
      rw [if_pos (by rw [hlog]; rfl)]
      refine unpack_normal (fun hzero => ?_) (fun hones => ?_) ?_ ?_
      · rw [hzero] at hexponent
        simp at hexponent
        omega
      · rw [hones] at hexponent
        simp at hexponent
        omega
      · rw [BitVec.toNat_ofNat]
        omega
      · rw [hexponent]
        omega
    · have hlog : m.log2 < 52 := (Nat.log2_lt hpos.ne').mpr (by omega)
      obtain rfl : e = -1074 := hnormal.resolve_left hfull
      rw [if_neg (by show ¬(_ = 53); omega)]
      refine unpack_subnormal ?_
      rw [BitVec.toNat_ofNat, Nat.mod_eq_of_lt (by omega)]
  · rw [if_neg hfits, if_pos (by omega)]
    cases sign <;> rfl

theorem unpack_pack_zero (sign : Sign) :
    UnpackedFloat.unpack Format.binary64 (UnpackedFloat.pack Format.binary64 (.zero sign)) = .zero sign := by
  cases sign <;> rfl

/-! ### What a float stands for -/

/-- The number, not negative, that a float stands for; an infinity stands for any that is too
large. -/
def StandsFor (x : ℚ) : UnpackedFloat → Prop
  | .zero _ => x = 0
  | .finite .positive m e _ => x = scaled m e
  | .infinity .positive => scaled (2 ^ 52) 972 ≤ x
  | _ => False

theorem StandsFor.nonneg {x : ℚ} {f : UnpackedFloat} (h : StandsFor x f) : 0 ≤ x := by
  cases f with
  | zero sign => exact h.ge
  | notANumber => exact h.elim
  | infinity sign =>
    cases sign with
    | positive => exact (scaled_nonneg _ _).trans h
    | negative => exact h.elim
  | finite sign m e hpos =>
    cases sign with
    | positive =>
      obtain rfl : x = scaled m e := h
      exact scaled_nonneg m e
    | negative => exact h.elim

theorem standsFor_pack {m : ℕ} {e : ℤ} (hpos : 0 < m) (h : Canonical m e) :
    StandsFor (scaled m e) (UnpackedFloat.unpack Format.binary64
      (UnpackedFloat.pack Format.binary64 (.finite .positive m e hpos))) := by
  rw [unpack_pack h]
  split
  · rfl
  · next hlarge =>
    exact scaled_le_scaled (h.normal.resolve_right (by omega)) (by omega)

theorem standsFor_ofRounded {k : ℕ} {e : ℤ} (hk : k ≤ 2 ^ 53) (he : -1074 ≤ e)
    (hnormal : 2 ^ 52 ≤ k ∨ e = -1074) :
    StandsFor (scaled k e) (UnpackedFloat.unpack Format.binary64
      (UnpackedFloat.pack Format.binary64 (ofRounded .positive k e))) := by
  unfold ofRounded
  split
  · next hzero =>
    rw [unpack_pack_zero, hzero]
    show scaled 0 e = 0
    rw [scaled, Nat.cast_zero, zero_mul]
  · split
    · next hsmall => exact standsFor_pack _ ⟨hsmall, he, hnormal⟩
    · next hlarge =>
      have heq : scaled k e = scaled (2 ^ 52) (e + 1) := by
        rw [Nat.le_antisymm hk (Nat.le_of_not_lt hlarge)]
        exact scaled_shift (2 ^ 52) 1 e
      rw [heq]
      exact standsFor_pack _ ⟨by decide, by omega, Or.inl le_rfl⟩

/-- `x.ceil()`, made a whole number of 64 bits: the nearest one if it is too large, zero for NaN. -/
def ceilToUInt64 (x : Float) : UInt64 :=
  match x.toModel.unpack with
  | .finite .positive m e _ => UInt64.ofNatClamp ⌈scaled m e⌉₊
  | .infinity .positive => UInt64.ofNatClamp (UInt64.size - 1)
  | _ => 0

/-- `x.floor()`, made a whole number of 64 bits. -/
def floorToUInt64 (x : Float) : UInt64 :=
  match x.toModel.unpack with
  | .finite .positive m e _ => UInt64.ofNatClamp ⌊scaled m e⌋₊
  | .infinity .positive => UInt64.ofNatClamp (UInt64.size - 1)
  | _ => 0

/-- `x.round()`, halves away from zero, made a whole number of 64 bits. -/
def roundToUInt64 (x : Float) : UInt64 :=
  match x.toModel.unpack with
  | .finite .positive m e _ => UInt64.ofNatClamp ⌊scaled m e + 1 / 2⌋₊
  | .infinity .positive => UInt64.ofNatClamp (UInt64.size - 1)
  | _ => 0

theorem toNat_ofNatClamp (n : ℕ) : (UInt64.ofNatClamp n).toNat = min n (UInt64.size - 1) := by
  unfold UInt64.ofNatClamp
  split
  · next hlt => exact (Nat.min_eq_left (Nat.le_sub_one_of_lt hlt)).symm
  · next hge =>
    rw [Nat.min_eq_right (by omega)]
    rfl

theorem le_ceilToUInt64 {x : ℚ} {f : Float} {n : ℕ} (h : StandsFor x f.toModel.unpack) (hlt : (n : ℚ) < x) :
    min (n + 1) (UInt64.size - 1) ≤ (ceilToUInt64 f).toNat := by
  unfold ceilToUInt64
  split
  · next m e _ hunpack =>
    rw [hunpack] at h
    obtain rfl : x = scaled m e := h
    rw [toNat_ofNatClamp]
    exact min_le_min_right _ (Nat.lt_ceil.mpr hlt)
  · rw [toNat_ofNatClamp, min_self]
    exact min_le_right _ _
  · next hfinite hinfinity =>
    revert h
    cases hunpack : f.toModel.unpack with
    | zero sign =>
      rintro rfl
      exact absurd hlt (not_lt.mpr n.cast_nonneg)
    | notANumber => exact False.elim
    | infinity sign =>
      cases sign with
      | positive => exact absurd hunpack hinfinity
      | negative => exact False.elim
    | finite sign m e hpos =>
      cases sign with
      | positive => exact absurd hunpack (hfinite m e hpos)
      | negative => exact False.elim

theorem floorToUInt64_lt {x : ℚ} {f : Float} {n : UInt64} (h : StandsFor x f.toModel.unpack)
    (hlt : x < n.toNat) : floorToUInt64 f < n := by
  have hn : 0 < n.toNat := by exact_mod_cast h.nonneg.trans_lt hlt
  rw [UInt64.lt_iff_toNat_lt]
  unfold floorToUInt64
  split
  · next m e _ hunpack =>
    rw [hunpack] at h
    obtain rfl : x = scaled m e := h
    rw [toNat_ofNatClamp]
    exact (min_le_left _ _).trans_lt ((Nat.floor_lt (scaled_nonneg m e)).mpr hlt)
  · next hunpack =>
    rw [hunpack] at h
    have hbound : (n.toNat : ℚ) < scaled (2 ^ 52) 12 := by
      have hpow : n.toNat < 2 ^ 52 * 2 ^ 12 := n.toNat_lt
      rw [scaled]
      exact_mod_cast hpow
    exact absurd ((hlt.trans hbound).trans_le (scaled_le_scaled le_rfl (by decide))) (not_lt.mpr h)
  · exact hn

/-! ### Products -/

/-- A mantissa and an exponent between which and their neighbours a number lies that was rounded to
them. -/
structure Encloses (n : ℕ) (m : ℕ) (e : ℤ) : Prop where
  normal : 2 ^ 52 ≤ m
  small : m < 2 ^ 53
  least : -52 ≤ e
  above : (n : ℚ) < scaled (m + 1) e
  below : scaled (2 * m - 1) (e - 1) ≤ n
  -- Below a power of two the neighbour is nearer.
  belowPower : m = 2 ^ 52 → scaled (4 * m - 1) (e - 2) ≤ n

section Product

variable {n m m' k : ℕ} {e e' T : ℤ}

/-- The rounded product of two mantissas. -/
structure Product (m m' : ℕ) (e e' : ℤ) (k : ℕ) (T : ℤ) : Prop where
  near : |(k : ℚ) - scaled (m * m') (e + e' - T)| ≤ 1 / 2
  small : scaled (m * m') (e + e' - T) < 2 ^ 53
  normal : (2 : ℚ) ^ 52 ≤ scaled (m * m') (e + e' - T) ∨ T = -1074

theorem le_unit (hm : 2 ^ 52 ≤ m) (hm' : 0 < m') : e ≤ unit (m * m') e := by
  have hlog : 52 ≤ (m * m').log2 :=
    (Nat.le_log2 (by positivity)).mpr (hm.trans (Nat.le_mul_of_pos_right m hm'))
  unfold unit
  omega

theorem product_rounded (hm : 2 ^ 52 ≤ m) (hm' : 0 < m') :
    Product m m' e e' (roundedAt (m * m') (e + e')) (unit (m * m') (e + e')) := by
  have heq : scaled (m * m') (e + e' - unit (m * m') (e + e')) =
      ((m * m' : ℕ) : ℚ) / 2 ^ (unit (m * m') (e + e') - (e + e')).toNat := by
    rw [scaled, div_eq_mul_inv, ← zpow_natCast, ← zpow_neg]
    congr 2
    have hunit : e + e' ≤ unit (m * m') (e + e') := le_unit hm hm'
    omega
  refine ⟨?_, ?_, ?_⟩
  · rw [heq]
    exact roundedAt_near _ _
  · rw [heq]
    exact div_lt _ _
  · by_cases hmin : unit (m * m') (e + e') = -1074
    · exact Or.inr hmin
    · rw [heq]
      exact Or.inl (le_div (by positivity) (le_unit hm hm') hmin)

theorem scaled_lt_scaled (hm : m < m') : scaled m e < scaled m' e :=
  mul_lt_mul_of_pos_right (by exact_mod_cast hm) (zpow_pos two_pos e)

theorem scaled_product (m m' : ℕ) (e e' T : ℤ) :
    scaled (m * m') (e + e' - T) = m * scaled m' e' * 2 ^ (e - T) := by
  have hexponent : e + e' - T = e' + (e - T) := by omega
  rw [scaled, scaled, hexponent, zpow_add₀ two_ne_zero]
  push_cast
  ring

theorem scaled_above_one : scaled (2 ^ 52 + 1) (-52) = 1 + 1 / 2 ^ 52 := by
  rw [scaled]
  norm_num

theorem scaled_below_one : scaled (2 ^ 53 - 1) (-53) = 1 - 1 / 2 ^ 53 := by
  rw [scaled]
  norm_num

/-- The product with a factor above one is rounded to a number above the one that was rounded to
`m`. -/
theorem Product.above (h : Product m m' e e' k T) (hn : Encloses n m e)
    (hfactor : scaled (2 ^ 52 + 1) (-52) ≤ scaled m' e') : (n : ℚ) < scaled k T := by
  refine hn.above.trans_le ?_
  rcases le_or_gt T e with hle | hlt
  · -- The next mantissa is a whole number of units of the result.
    have hnext : (m : ℚ) + 1 ≤ m * scaled m' e' := by
      have hm : (2 : ℚ) ^ 52 ≤ m := by exact_mod_cast hn.normal
      have hmul : (m : ℚ) * (1 + 1 / 2 ^ 52) ≤ m * scaled m' e' :=
        mul_le_mul_of_nonneg_left (scaled_above_one ▸ hfactor) m.cast_nonneg
      linarith
    obtain ⟨d, hd⟩ := Int.eq_ofNat_of_zero_le (sub_nonneg.mpr hle)
    have hj : (((m + 1) * 2 ^ d : ℕ) : ℚ) ≤ scaled (m * m') (e + e' - T) := by
      rw [scaled_product, hd, zpow_natCast]
      push_cast
      exact mul_le_mul_of_nonneg_right hnext (by positivity)
    have heq : scaled (m + 1) e = scaled ((m + 1) * 2 ^ d) T := by
      rw [scaled_shift]
      congr 1
      omega
    rw [heq]
    exact scaled_le_scaled (le_of_near h.near hj) le_rfl
  · have hunit : T ≠ -1074 := by
      have := hn.least
      omega
    have hk : 2 ^ 52 ≤ k := le_of_near h.near (by exact_mod_cast h.normal.resolve_right hunit)
    have hcarry : scaled (m + 1) e ≤ scaled (2 ^ 52) (e + 1) := by
      calc scaled (m + 1) e ≤ scaled (2 ^ 52 * 2 ^ 1) e := scaled_le_scaled hn.small le_rfl
        _ = scaled (2 ^ 52) (e + 1) := scaled_shift (2 ^ 52) 1 e
    exact hcarry.trans (scaled_le_scaled hk hlt)

/-- The product with a factor below one is rounded to a number below the one that was rounded to
`m`. -/
theorem Product.below (h : Product m m' e e' k T) (hn : Encloses n m e)
    (hfactor : scaled m' e' ≤ scaled (2 ^ 53 - 1) (-53)) : scaled k T < n := by
  have hm : (2 : ℚ) ^ 52 ≤ m := by exact_mod_cast hn.normal
  have hsmall : (m : ℚ) < 2 ^ 53 := by exact_mod_cast hn.small
  have hproduct : scaled (m * m') (e + e' - T) ≤ (m - m / 2 ^ 53) * 2 ^ (e - T) := by
    rw [scaled_product]
    refine mul_le_mul_of_nonneg_right ?_ (zpow_nonneg zero_le_two _)
    have hmul : (m : ℚ) * scaled m' e' ≤ m * (1 - 1 / 2 ^ 53) :=
      mul_le_mul_of_nonneg_left (scaled_below_one ▸ hfactor) m.cast_nonneg
    linarith
  have hk : k ≤ 2 ^ 53 := near_le h.near (by exact_mod_cast h.small.le)
  have hleast := hn.least
  rcases lt_trichotomy T e with hlt | heq | hgt
  · rcases hn.normal.lt_or_eq with hmore | hpower
    · -- The result has a finer unit than `m`.
      calc scaled k T ≤ scaled (2 ^ 53) (e - 1) := scaled_le_scaled hk (by omega)
        _ < scaled (2 * m - 1) (e - 1) := scaled_lt_scaled (by omega)
        _ ≤ n := hn.below
    · refine lt_of_lt_of_le ?_ (hn.belowPower hpower.symm)
      rcases (show T ≤ e - 2 ∨ T = e - 1 by omega) with hfine | hunit
      · calc scaled k T ≤ scaled (2 ^ 53) (e - 2) := scaled_le_scaled hk hfine
          _ < scaled (4 * m - 1) (e - 2) := scaled_lt_scaled (by omega)
      · have hpred : k ≤ 2 ^ 53 - 1 := by
          refine near_le h.near (hproduct.trans ?_)
          rw [hunit, ← hpower]
          norm_num
        have hshift := scaled_shift (2 ^ 53 - 1) 1 (e - 2)
        calc scaled k T ≤ scaled (2 ^ 53 - 1) (e - 1) := scaled_le_scaled hpred hunit.le
          _ = scaled ((2 ^ 53 - 1) * 2 ^ 1) (e - 2) := by
            rw [hshift]
            congr 1
            omega
          _ < scaled (4 * m - 1) (e - 2) := scaled_lt_scaled (by omega)
  · subst heq
    rw [sub_self, zpow_zero, mul_one] at hproduct
    have hleast' := h.normal.resolve_right (by omega)
    have hmore : 2 ^ 52 < m := by
      refine hn.normal.lt_of_ne fun hpower => ?_
      have hm' : (m : ℚ) = 2 ^ 52 := by exact_mod_cast hpower.symm
      rw [hm'] at hproduct
      linarith
    have hlt : k < m := by
      have hnear := (abs_le.mp h.near).2
      have hmore' : (2 : ℚ) ^ 52 < m := by exact_mod_cast hmore
      have hlt : (k : ℚ) < m := by linarith
      exact_mod_cast hlt
    have hshift := scaled_shift k 1 (T - 1)
    calc scaled k T = scaled (k * 2 ^ 1) (T - 1) := by
          rw [hshift]
          congr 1
          omega
      _ < scaled (2 * m - 1) (T - 1) := scaled_lt_scaled (by omega)
      _ ≤ n := hn.below
  · -- Half of `m` would not fill the mantissa.
    have hhalf : (2 : ℚ) ^ (e - T) ≤ 2 ^ (-1 : ℤ) := zpow_le_zpow_right₀ one_le_two (by omega)
    have hbound : scaled (m * m') (e + e' - T) ≤ m * 2 ^ (-1 : ℤ) :=
      hproduct.trans (mul_le_mul (by linarith [div_nonneg m.cast_nonneg (by positivity : (0 : ℚ) ≤ 2 ^ 53)])
        hhalf (zpow_nonneg zero_le_two _) m.cast_nonneg)
    have hfull := h.normal.resolve_right (by omega)
    rw [zpow_neg_one] at hbound
    linarith

end Product

/-! ### Whole numbers -/

theorem scaled_sub (m : ℕ) (e T : ℤ) : scaled m e = scaled m (e - T) * 2 ^ T := by
  rw [scaled, scaled, mul_assoc, ← zpow_add₀ two_ne_zero]
  congr 2
  omega

theorem lt_scaled {x : ℚ} {m : ℕ} {e T : ℤ} (h : x < scaled m (e - T)) : x * 2 ^ T < scaled m e := by
  rw [scaled_sub m e T]
  exact mul_lt_mul_of_pos_right h (zpow_pos two_pos T)

theorem scaled_le {x : ℚ} {m : ℕ} {e T : ℤ} (h : scaled m (e - T) ≤ x) : scaled m e ≤ x * 2 ^ T := by
  rw [scaled_sub m e T]
  exact mul_le_mul_of_nonneg_right h (zpow_nonneg zero_le_two T)

theorem log2_mul_two_pow {m : ℕ} (hm : m ≠ 0) (d : ℕ) : (m * 2 ^ d).log2 = m.log2 + d := by
  induction d with
  | zero => rw [pow_zero, mul_one, add_zero]
  | succ d ih =>
    have hne : m * 2 ^ d ≠ 0 := by positivity
    rw [pow_succ, ← mul_assoc, mul_comm _ 2, Nat.log2_two_mul hne, ih, add_assoc]

/-- The mantissa and the exponent that `round` gives for a whole number that is not zero. -/
theorem ofUInt64_eq {n : UInt64} (hn : n ≠ 0) : ∃ k T, k ≤ 2 ^ 53 ∧ -52 ≤ T ∧ T ≤ 11 ∧
    UnpackedFloat.ofUInt64 Format.binary64 n = ofRounded .positive k T ∧
    |(k : ℚ) - scaled n.toNat (-T)| ≤ 1 / 2 ∧ (2 : ℚ) ^ 52 ≤ scaled n.toNat (-T) ∧
    scaled n.toNat (-T) < 2 ^ 53 := by
  have hpos : n.toNat ≠ 0 := fun h => hn (UInt64.toNat_inj.mp h)
  have hlog : n.toNat.log2 ≤ 63 := Nat.lt_succ_iff.mp ((Nat.log2_lt hpos).mpr n.toNat_lt)
  obtain ⟨d, hd⟩ : ∃ d, d = 52 - n.toNat.log2 := ⟨_, rfl⟩
  have hshifted : (n.toNat * 2 ^ d).log2 = n.toNat.log2 + d := log2_mul_two_pow hpos d
  have hunit : unit (n.toNat * 2 ^ d) (-d) = n.toNat.log2 - 52 := by
    rw [unit, hshifted]
    push_cast
    omega
  have hround : UnpackedFloat.ofUInt64 Format.binary64 n =
      roundWithAccuracy Format.binary64 .positive (n.toNat * 2 ^ d) (-d) .exact := by
    have hcompare : compare (n.toNat : ℤ) 0 = .gt := compare_gt_iff_gt.mpr (by omega)
    have hamount : (-unit n.toNat 0).toNat = d := by
      unfold unit
      omega
    rw [UnpackedFloat.ofUInt64, UnpackedFloat.ofNat, UnpackedFloat.ofInt,
      Float.Model.UnpackedFloat.normalize, hcompare]
    simp only [Float.Model.UnpackedFloat.round, Int.toNat_natCast, targetExponent_eq, decreaseExponent,
      Nat.shiftLeft_eq, zero_sub, hamount]
  have hvalue : scaled (n.toNat * 2 ^ d) (-d - (n.toNat.log2 - 52)) =
      scaled n.toNat (-(n.toNat.log2 - 52)) := by
    rw [scaled_shift]
    congr 1
    omega
  have hle : (-d : ℤ) ≤ unit (n.toNat * 2 ^ d) (-d) := by
    rw [hunit]
    omega
  have hfull : 2 ^ 52 ≤ n.toNat * 2 ^ d := by
    refine (Nat.le_log2 (by positivity)).mp ?_
    omega
  have hproduct : Product (n.toNat * 2 ^ d) 1 (-d) 0 _ _ := product_rounded hfull one_pos
  obtain ⟨hnear, hsmall, hnormal⟩ := hproduct
  simp only [mul_one, add_zero, hunit, hvalue] at hnear hsmall hnormal
  refine ⟨roundedAt (n.toNat * 2 ^ d) (-d), _, roundedAt_le _ _, ?_, ?_,
    hround.trans ?_, hnear, hnormal.resolve_right (by omega), hsmall⟩
  · omega
  · omega
  · rw [← hunit]
    exact roundWithAccuracy_eq .positive hle

theorem toFloat_encloses {n : UInt64} (hn : n ≠ 0) : ∃ m e hpos,
    n.toFloat.toModel.unpack = .finite .positive m e hpos ∧ Encloses n.toNat m e := by
  obtain ⟨k, T, hk, hleast, hmost, hround, hnear, hnormal, hsmall⟩ := ofUInt64_eq hn
  have hunpack : n.toFloat.toModel.unpack = UnpackedFloat.unpack Format.binary64
      (UnpackedFloat.pack Format.binary64 (ofRounded .positive k T)) := by
    rw [← hround]
    rfl
  have hk' : 2 ^ 52 ≤ k := le_of_near hnear (by exact_mod_cast hnormal)
  have hn' : (n.toNat : ℚ) = scaled n.toNat (-T) * 2 ^ T := by
    have hsub := scaled_sub n.toNat 0 T
    rw [zero_sub] at hsub
    rw [← hsub, scaled, zpow_zero, mul_one]
  have hpow : (0 : ℚ) < 2 ^ T := zpow_pos two_pos T
  rw [hunpack]
  obtain ⟨hlow, hhigh⟩ := abs_le.mp hnear
  generalize scaled n.toNat (-T) = y at *
  rcases hk.lt_or_eq with hlt | rfl
  · have hpos : 0 < k := by omega
    have hof : ofRounded .positive k T = .finite .positive k T hpos := by
      rw [ofRounded, dif_neg hpos.ne', if_pos hlt]
    refine ⟨k, T, hpos, ?_, hk', hlt, hleast, ?_, ?_, fun hpower => ?_⟩
    · rw [hof, unpack_pack ⟨hlt, by omega, Or.inl hk'⟩, if_pos (by omega)]
    · rw [hn']
      refine lt_scaled ?_
      rw [sub_self, scaled, zpow_zero]
      push_cast
      linarith
    · rw [hn']
      refine scaled_le ?_
      rw [sub_right_comm, sub_self, scaled, Nat.cast_sub (by omega)]
      norm_num
      linarith
    · rw [hn']
      refine scaled_le ?_
      rw [sub_right_comm, sub_self, scaled, hpower]
      norm_num
      linarith
  · have hof : ofRounded .positive (2 ^ 53) T = .finite .positive (2 ^ 52) (T + 1) (by decide) := rfl
    refine ⟨2 ^ 52, T + 1, by decide, ?_, le_rfl, by decide, by omega, ?_, ?_, fun _ => ?_⟩
    · rw [hof, unpack_pack ⟨by decide, by omega, Or.inl le_rfl⟩, if_pos (by omega)]
    · rw [hn']
      refine lt_scaled ?_
      rw [add_sub_cancel_left, scaled]
      norm_num
      linarith
    · rw [hn']
      refine scaled_le ?_
      rw [add_sub_cancel_right, sub_self, scaled]
      norm_num at hlow ⊢
      linarith
    · rw [hn']
      refine scaled_le ?_
      have hexponent : T + 1 - 2 - T = -1 := by omega
      rw [hexponent, scaled]
      norm_num at hlow ⊢
      linarith

/-! ### Factors -/

theorem one_unpack : (1.0 : Float).toModel.unpack = .finite .positive (2 ^ 52) (-52) (by decide) := rfl

theorem zero_unpack : (0.0 : Float).toModel.unpack = .zero .positive := rfl

theorem le_iff {f g : Float} : f ≤ g ↔ f.toModel.unpack.le g.toModel.unpack = true := by
  show decide (f.toModel ≤ g.toModel) = true ↔ _
  rw [decide_eq_true_iff]
  rfl

theorem lt_iff {f g : Float} : f < g ↔ f.toModel.unpack.lt g.toModel.unpack = true := by
  show decide (f.toModel < g.toModel) = true ↔ _
  rw [decide_eq_true_iff]
  rfl

theorem float_canonical {f : Float} {sign : Sign} {m : ℕ} {e : ℤ} {hpos : 0 < m}
    (h : f.toModel.unpack = .finite sign m e hpos) : Canonical m e :=
  (unpack_canonical h).1

theorem factor_above {f : Float} (hfinite : f.isFinite = true) (h : ¬f ≤ 1.0) : ∃ m e hpos,
    f.toModel.unpack = .finite .positive m e hpos ∧ scaled (2 ^ 52 + 1) (-52) ≤ scaled m e := by
  rw [le_iff, one_unpack] at h
  have hfinite' : f.toModel.unpack.isFinite = true := hfinite
  cases hunpack : f.toModel.unpack with
  | zero sign =>
    rw [hunpack] at h
    exact absurd rfl h
  | notANumber =>
    rw [hunpack] at hfinite'
    cases hfinite'
  | infinity sign =>
    rw [hunpack] at hfinite'
    cases hfinite'
  | finite sign m e hpos =>
    rw [hunpack] at h
    cases sign with
    | negative => exact absurd rfl h
    | positive =>
      refine ⟨m, e, hpos, rfl, ?_⟩
      have hcompare : ¬((compare e (-52)).then (compare m (2 ^ 52))).isLE = true := h
      rcases lt_trichotomy e (-52) with hlt | rfl | hgt
      · rw [compare_lt_iff_lt.mpr hlt] at hcompare
        exact absurd rfl hcompare
      · have hm : ¬m ≤ 2 ^ 52 := by
          intro hle
          rw [compare_eq_iff_eq.mpr rfl] at hcompare
          exact hcompare (Std.isLE_compare.mpr hle)
        exact scaled_le_scaled (Nat.lt_of_not_le hm) le_rfl
      · have hm : 2 ^ 52 ≤ m := (float_canonical hunpack).normal.resolve_right (by omega)
        calc scaled (2 ^ 52 + 1) (-52) ≤ scaled (2 ^ 52 * 2 ^ 1) (-52) :=
              scaled_le_scaled (by decide) le_rfl
          _ = scaled (2 ^ 52) (-51) := scaled_shift (2 ^ 52) 1 (-52)
          _ ≤ scaled m e := scaled_le_scaled hm (by omega)

theorem factor_below {f : Float} (h : 0.0 ≤ f) (h' : f < 1.0) :
    (∃ sign, f.toModel.unpack = .zero sign) ∨ ∃ m e hpos,
      f.toModel.unpack = .finite .positive m e hpos ∧ scaled m e ≤ scaled (2 ^ 53 - 1) (-53) := by
  rw [le_iff, zero_unpack] at h
  rw [lt_iff, one_unpack] at h'
  cases hunpack : f.toModel.unpack with
  | zero sign => exact Or.inl ⟨sign, rfl⟩
  | notANumber =>
    rw [hunpack] at h
    cases h
  | infinity sign =>
    rw [hunpack] at h h'
    cases sign with
    | negative => cases h
    | positive => cases h'
  | finite sign m e hpos =>
    rw [hunpack] at h h'
    cases sign with
    | negative => cases h
    | positive =>
      refine Or.inr ⟨m, e, hpos, rfl, ?_⟩
      have hcompare : (compare e (-52)).then (compare m (2 ^ 52)) = .lt := by
        have hlt : (some ((compare e (-52)).then (compare m (2 ^ 52))) == some .lt) = true := h'
        exact Option.some.inj (beq_iff_eq.mp hlt)
      obtain ⟨hsmall, -, hnormal⟩ := float_canonical hunpack
      have he : e ≤ -53 := by
        rcases lt_trichotomy e (-52) with hlt | rfl | hgt
        · omega
        · rw [compare_eq_iff_eq.mpr rfl] at hcompare
          have hm : m < 2 ^ 52 := compare_lt_iff_lt.mp hcompare
          omega
        · rw [compare_gt_iff_gt.mpr hgt] at hcompare
          cases hcompare
      exact scaled_le_scaled (by omega) he

theorem mul_standsFor {n : UInt64} {f : Float} {m m' : ℕ} {e e' : ℤ} {hpos : 0 < m} {hpos' : 0 < m'}
    (hn : n.toFloat.toModel.unpack = .finite .positive m e hpos) (hnormal : 2 ^ 52 ≤ m)
    (hf : f.toModel.unpack = .finite .positive m' e' hpos') : ∃ k T, Product m m' e e' k T ∧
      StandsFor (scaled k T) (n.toFloat * f).toModel.unpack := by
  have hle : e + e' ≤ unit (m * m') (e + e') := le_unit hnormal hpos'
  have hmul : (n.toFloat * f).toModel.unpack = UnpackedFloat.unpack Format.binary64
      (UnpackedFloat.pack Format.binary64 (ofRounded .positive (roundedAt (m * m') (e + e'))
        (unit (m * m') (e + e')))) := by
    rw [← roundWithAccuracy_eq .positive hle]
    show UnpackedFloat.unpack Format.binary64 (UnpackedFloat.pack Format.binary64
      (UnpackedFloat.mul Format.binary64 n.toFloat.toModel.unpack f.toModel.unpack)) = _
    rw [hn, hf]
    rfl
  refine ⟨_, _, product_rounded hnormal hpos', ?_⟩
  rw [hmul]
  refine standsFor_ofRounded (roundedAt_le _ _) (le_max_right _ _) ?_
  by_cases hmin : unit (m * m') (e + e') = -1074
  · exact Or.inr hmin
  · exact Or.inl (le_roundedAt (Nat.mul_pos hpos hpos').ne' hle hmin)

/-- The product of a whole number and a factor above one, rounded up, is above the number. -/
theorem lt_ceil_mul {n : UInt64} {factor : Float} (hn : n ≠ 0) (hfinite : factor.isFinite = true)
    (habove : ¬factor ≤ 1.0) :
    min (n.toNat + 1) (UInt64.size - 1) ≤ (ceilToUInt64 (n.toFloat * factor)).toNat := by
  obtain ⟨m, e, hpos, hunpack, hencloses⟩ := toFloat_encloses hn
  obtain ⟨m', e', hpos', hfactor, hscaled⟩ := factor_above hfinite habove
  obtain ⟨k, T, hproduct, hstands⟩ := mul_standsFor hunpack hencloses.normal hfactor
  exact le_ceilToUInt64 hstands (hproduct.above hencloses hscaled)

/-- The product of a whole number and a factor below one, rounded down, is below the number. -/
theorem floor_mul_lt {n : UInt64} {factor : Float} (hn : n ≠ 0) (hnonneg : 0.0 ≤ factor)
    (hbelow : factor < 1.0) : floorToUInt64 (n.toFloat * factor) < n := by
  obtain ⟨m, e, hpos, hunpack, hencloses⟩ := toFloat_encloses hn
  rcases factor_below hnonneg hbelow with ⟨sign, hzero⟩ | ⟨m', e', hpos', hfactor, hscaled⟩
  · have hproduct : (n.toFloat * factor).toModel.unpack = .zero sign := by
      show UnpackedFloat.unpack Format.binary64 (UnpackedFloat.pack Format.binary64
        (UnpackedFloat.mul Format.binary64 n.toFloat.toModel.unpack factor.toModel.unpack)) = _
      rw [hunpack, hzero]
      exact (unpack_pack_zero _).trans (by cases sign <;> rfl)
    have hstands : StandsFor 0 (n.toFloat * factor).toModel.unpack := by
      rw [hproduct]
      rfl
    refine floorToUInt64_lt hstands ?_
    exact_mod_cast Nat.pos_of_ne_zero fun h => hn (UInt64.toNat_inj.mp h)
  · obtain ⟨k, T, hproduct, hstands⟩ := mul_standsFor hunpack hencloses.normal hfactor
    exact floorToUInt64_lt hstands (hproduct.below hencloses hscaled)

end Binary64
