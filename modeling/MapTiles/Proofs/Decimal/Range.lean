import MapTiles.Decimal.Literal
import Mathlib

/-!
Decimals outside the range of floats. A power of ten that is large enough is infinite, and one that
is small enough is zero, whatever digits stand before it. So the float nearest to a decimal is found
without computing such a power.
-/

namespace MapTiles.Decimal

open Float.Model (Format UnpackedFloat totalExponent)
open Float.Model.UnpackedFloat

section Rounding

variable {m : Nat} {e : Int}

private theorem mantissa_shiftRight (em : ExtendedMantissa) (n : Nat) :
    (em >>> n).mantissa = em.mantissa / 2 ^ n := by
  induction n with
  | zero => rw [Nat.pow_zero, Nat.div_one]; rfl
  | succ n ih =>
      change (ExtendedMantissa.shiftRightOne (em >>> n)).mantissa = _
      rw [ExtendedMantissa.shiftRightOne, ih, Nat.div_div_eq_div_mul, Nat.pow_succ]

private theorem mantissa_ofMantissaAndAccuracy (m : Nat) (accuracy : Accuracy) :
    (ExtendedMantissa.ofMantissaAndAccuracy m accuracy).mantissa = m := by
  cases accuracy with
  | exact => rfl
  | inexact order => cases order <;> rfl

private theorem le_roundedMantissa (em : ExtendedMantissa) : em.mantissa ≤ em.roundedMantissa := by
  rw [ExtendedMantissa.roundedMantissa]
  cases em.accuracy with
  | exact => exact Nat.le_refl _
  | inexact order => cases order <;> simp [Accuracy.roundToNearestEven]

/-- A significand that fills all 53 bits still does after it is cut to them, and what is cut off is
added to the exponent. -/
private theorem shiftToTarget_ge (hm : 2 ^ 52 ≤ m) (he : -1074 ≤ e) (accuracy : Accuracy) :
    2 ^ 52 ≤ (shiftToTargetExponent Format.binary64 m e accuracy).1.mantissa ∧
      m.log2 + e - 52 ≤ (shiftToTargetExponent Format.binary64 m e accuracy).2 := by
  have hne : m ≠ 0 := by omega
  have hlog : 52 ≤ m.log2 := (Nat.le_log2 hne).mpr hm
  have htarget : Format.binary64.targetExponent (totalExponent m e) = m.log2 + e - 52 := by
    simp only [Format.targetExponent, totalExponent, Format.mantissaBits, Format.minExponent]
    omega
  have hshift : (m.log2 + e - 52 - e).toNat = m.log2 - 52 := by omega
  simp only [shiftToTargetExponent, shiftToExponent, htarget, hshift, mantissa_shiftRight,
    mantissa_ofMantissaAndAccuracy]
  constructor
  · apply (Nat.le_div_iff_mul_le (Nat.two_pow_pos _)).mpr
    rw [← Nat.pow_add, Nat.add_sub_cancel' hlog]
    exact Nat.log2_self_le hne
  · omega

private theorem exists_roundWithAccuracy (hm : 2 ^ 52 ≤ m) (he : -1074 ≤ e) :
    ∃ (m' : Nat) (e' : Int) (h : 0 < m'),
      roundWithAccuracy Format.binary64 .positive m e .exact = .finite .positive m' e' h ∧
        m.log2 + e - 52 ≤ e' := by
  obtain ⟨em, e', hshifted⟩ :
      ∃ em e', shiftToTargetExponent Format.binary64 m e .exact = (em, e') := ⟨_, _, rfl⟩
  have hge := shiftToTarget_ge hm he .exact
  rw [hshifted] at hge
  obtain ⟨hfirst, hexponent⟩ : 2 ^ 52 ≤ em.mantissa ∧ m.log2 + e - 52 ≤ e' := hge
  have hlog : 52 ≤ m.log2 := (Nat.le_log2 (by omega)).mpr hm
  have hrounded : 2 ^ 52 ≤ em.roundedMantissa := Nat.le_trans hfirst (le_roundedMantissa em)
  have hlog' : 52 ≤ em.roundedMantissa.log2 := (Nat.le_log2 (by omega)).mpr hrounded
  obtain ⟨hagain, hexponent'⟩ := shiftToTarget_ge (e := e') hrounded (by omega) .exact
  have hpos := Nat.lt_of_lt_of_le (Nat.two_pow_pos 52) hagain
  refine ⟨_, (shiftToTargetExponent Format.binary64 em.roundedMantissa e' .exact).2, hpos, ?_,
    by omega⟩
  rw [roundWithAccuracy, hshifted]
  exact dif_neg (Nat.ne_of_gt hpos)

private theorem pack_of_large {h : 0 < m} (he : 971 < e) :
    Float.Model.pack (.finite .positive m e h) = Float.Model.pack (.infinity .positive) := by
  have hfield : 2 ^ Format.binary64.exponentBits ≤ (e + Format.binary64.exponentBias +
      Format.binary64.mantissaBitsWithoutImplicit).toNat + 1 := by
    simp only [Format.exponentBias]
    omega
  have hpack : UnpackedFloat.pack Format.binary64 (.finite .positive m e h) =
      UnpackedFloat.pack Format.binary64 (.infinity .positive) := by
    simp only [UnpackedFloat.pack]
    exact if_pos hfield
  simp only [Float.Model.pack, hpack]

end Rounding

variable {digits : Nat} {exponent : Int}

private theorem two_pow_le_ten_pow (k : Nat) : 2 ^ (3 * k) ≤ 10 ^ k := by
  rw [Nat.pow_mul]
  exact Nat.pow_le_pow_left (by decide) k

/-- Whatever its digits are, such a power of ten is above the largest float. -/
theorem ofScientific_of_large (hdigits : 0 < digits) (hlarge : 400 < exponent) :
    Float.Model.ofScientific digits exponent = Float.Model.pack (.infinity .positive) := by
  rw [Float.Model.ofScientific, UnpackedFloat.ofScientific, dif_neg (Nat.ne_of_gt hdigits)]
  split
  · rfl
  · obtain ⟨k, rfl⟩ : ∃ k : Nat, exponent = k := ⟨exponent.toNat, by omega⟩
    obtain ⟨m, hm⟩ : ∃ m, m = digits <<< 53 * 10 ^ k := ⟨_, rfl⟩
    have hpow : 2 ^ (53 + 3 * k) ≤ m := by
      rw [hm, Nat.shiftLeft_eq, Nat.pow_add]
      exact Nat.mul_le_mul (Nat.le_mul_of_pos_left _ hdigits) (two_pow_le_ten_pow k)
    have hfull : 2 ^ 52 ≤ m := Nat.le_trans (Nat.pow_le_pow_right (by decide) (by omega)) hpow
    have hlog : 53 + 3 * k ≤ m.log2 := (Nat.le_log2 (by omega)).mpr hpow
    obtain ⟨m', e', h, hround, he'⟩ := exists_roundWithAccuracy (e := -53) hfull (by decide)
    rw [if_neg (by omega), if_pos (by omega)]
    change Float.Model.pack
      (roundWithAccuracy Format.binary64 .positive (digits <<< 53 * 10 ^ k) (-53) .exact) = _
    rw [← hm, hround]
    exact pack_of_large (by omega)

/-- A quotient below half of the smallest float has no digit left in it. -/
private theorem divCore_of_small {k : Nat} (hdigits : 0 < digits)
    (hpow : 2 * (digits * 2 ^ 1074) < 10 ^ k) (hk : 1200 + digits.log2 < k) :
    divCore Format.binary64 digits 0 (10 ^ k) 0 = (0, -1074, .inexact .lt) := by
  have hlog : 3 * k ≤ (10 ^ k).log2 :=
    (Nat.le_log2 (Nat.ne_of_gt (Nat.pow_pos (by decide)))).mpr (two_pow_le_ten_pow k)
  have htarget : min ((0 : Int) - 0) (Format.binary64.targetExponent
      (totalExponent digits 0 - totalExponent (10 ^ k) 0)) = -1074 := by
    simp only [Format.targetExponent, totalExponent, Format.mantissaBits, Format.minExponent]
    omega
  have hplaces : ((0 : Int) - 0 - -1074).toNat = 1074 := by decide
  have hless : digits * 2 ^ 1074 < 10 ^ k := by omega
  have hpos : digits * 2 ^ 1074 ≠ 0 := by positivity
  rw [divCore, htarget]
  simp only [hplaces, Nat.shiftLeft_eq, Nat.div_eq_of_lt hless, Nat.mod_eq_of_lt hless,
    accuracyOfFraction, if_neg hpos, Nat.compare_eq_lt.mpr hpow]

/-- Here the digits are too few to make up for the power of ten. -/
theorem ofScientific_of_small (hdigits : 0 < digits) (hsmall : exponent + digits.log2 < -1200) :
    Float.Model.ofScientific digits exponent = Float.Model.pack (.zero .positive) := by
  have hfinite : ¬ exponent > 2 ^ Format.binary64.exponentBits := by
    change ¬ exponent > 2 ^ 11
    omega
  rw [Float.Model.ofScientific, UnpackedFloat.ofScientific, dif_neg (Nat.ne_of_gt hdigits),
    if_neg hfinite]
  split
  · rfl
  · obtain ⟨k, hk⟩ : ∃ k : Nat, (-exponent).toNat = k := ⟨_, rfl⟩
    have hpow : 2 * (digits * 2 ^ 1074) < 10 ^ k := by
      have hbits : digits < 2 ^ (digits.log2 + 1) := Nat.lt_log2_self
      calc
        2 * (digits * 2 ^ 1074) < 2 * (2 ^ (digits.log2 + 1) * 2 ^ 1074) := by gcongr
        _ = 2 ^ (digits.log2 + 1 + 1074 + 1) := by
          rw [← Nat.pow_add, ← Nat.pow_succ']
        _ ≤ 2 ^ (3 * k) := Nat.pow_le_pow_right (by decide) (by omega)
        _ ≤ 10 ^ k := two_pow_le_ten_pow k
    rw [if_neg (by omega)]
    simp only [hk]
    change Float.Model.pack (let (m, e, accuracy) := divCore Format.binary64 digits 0 (10 ^ k) 0
      roundWithAccuracy Format.binary64 .positive m e accuracy) = _
    rw [divCore_of_small hdigits hpow (by omega)]
    rfl

/-- The float nearest to a decimal, whatever power of ten has to be computed for it. -/
def scientific (digits : Nat) : Int → Float
  | .ofNat e => Float.ofScientific digits false e
  | .negSucc e => Float.ofScientific digits true (e + 1)

theorem scientific_zero (exponent : Int) : scientific 0 exponent = 0.0 := by
  have htable : ∀ (negative : Bool) (e : Fin 23), Float.ofScientific 0 negative e = 0.0 := by
    decide +kernel
  have hzero (negative : Bool) (e : Nat) : Float.ofScientific 0 negative e = 0.0 := by
    obtain hfast | hslow := Nat.lt_or_ge e 23
    · exact htable negative ⟨e, hfast⟩
    · rw [Float.ofScientific, dif_neg (by omega)]
      rfl
  cases exponent with
  | ofNat e => exact hzero false e
  | negSucc e => exact hzero true (e + 1)

/-- Powers that are no floats themselves are left to the exact value. -/
theorem scientific_of_slow (h : 22 < exponent.natAbs) :
    scientific digits exponent = .ofModel (Float.Model.ofScientific digits exponent) := by
  cases exponent with
  | ofNat e =>
      have he : 22 < e := h
      rw [scientific, Float.ofScientific, dif_neg (by omega)]
      rfl
  | negSucc e =>
      have he : 22 < e + 1 := h
      rw [scientific, Float.ofScientific, dif_neg (by omega)]
      rfl

theorem nearestDecimal_eq_scientific (digits : Nat) (exponent : Int) :
    nearestDecimal digits exponent = scientific digits exponent := by
  rw [nearestDecimal.eq_def]
  split
  · rename_i hzero
    rw [hzero, scientific_zero]
  · rename_i hne
    have hdigits : 0 < digits := Nat.pos_of_ne_zero hne
    split
    · rename_i hlarge
      rw [scientific_of_slow (by omega), ofScientific_of_large hdigits hlarge]
      rfl
    · split
      · rename_i hsmall
        rw [scientific_of_slow (by omega), ofScientific_of_small hdigits hsmall]
        rfl
      · cases exponent with
        | ofNat e => rfl
        | negSucc e => rfl

end MapTiles.Decimal
