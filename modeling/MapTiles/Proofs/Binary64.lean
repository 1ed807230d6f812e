import MapTiles.Scalar
import Mathlib

/-!
Whole numbers as floats. A natural below `2 ^ 53` is a float of its own, and a float that does not
lie above it has a whole part that does not either. Both are read off the bits: a float that is
positive and finite is its significand times a power of two, and floats of that kind are ordered by
exponent first and then by significand. Of any two floats that are not NaNs one lies below the other
or reaches it.
-/

namespace MapTiles.Binary64

open Float.Model (Format UnpackedFloat totalExponent)
open Float.Model.UnpackedFloat

/-- Zeros behind a significand are shifted out without a trace. -/
private theorem shiftRight_exact (m j : Nat) :
    (ExtendedMantissa.mk (m * 2 ^ j) false false) >>> j = ExtendedMantissa.mk m false false := by
  induction j generalizing m with
  | zero => simp [HShiftRight.hShiftRight, Nat.repeat]
  | succ j ih =>
      have hsplit : m * 2 ^ (j + 1) = (m * 2) * 2 ^ j := by ring
      change ExtendedMantissa.shiftRightOne
        ((ExtendedMantissa.mk (m * 2 ^ (j + 1)) false false) >>> j) = _
      rw [hsplit, ih]
      simp [ExtendedMantissa.shiftRightOne]

private theorem log2_mul_pow {m : Nat} (hlow : 2 ^ 52 ≤ m) (hhigh : m < 2 ^ 53) (j : Nat) :
    (m * 2 ^ j).log2 = 52 + j := by
  have hpow : 0 < 2 ^ j := Nat.two_pow_pos j
  have hne : m * 2 ^ j ≠ 0 := by
    apply Nat.ne_of_gt
    exact Nat.mul_pos (by omega) hpow
  apply (Nat.log2_eq_iff hne).mpr
  constructor
  · rw [Nat.pow_add]
    exact Nat.mul_le_mul_right _ hlow
  · have hnext : 2 ^ (52 + j + 1) = 2 ^ 53 * 2 ^ j := by ring
    rw [hnext]
    exact Nat.mul_lt_mul_of_pos_right hhigh hpow

private theorem shiftToTarget_exact {m : Nat} {e : Int} (hlow : 2 ^ 52 ≤ m) (hhigh : m < 2 ^ 53)
    (he : -1074 ≤ e) (j : Nat) :
    shiftToTargetExponent Format.binary64 (m * 2 ^ j) (e - j) .exact =
      (ExtendedMantissa.mk m false false, e) := by
  have htarget : Format.binary64.targetExponent (totalExponent (m * 2 ^ j) (e - j)) = e := by
    simp only [Format.targetExponent, totalExponent, Format.mantissaBits, Format.minExponent,
      log2_mul_pow hlow hhigh]
    omega
  have hshift : (e - (e - (j : Int))).toNat = j := by omega
  simp only [shiftToTargetExponent, htarget, shiftToExponent, hshift,
    ExtendedMantissa.ofMantissaAndAccuracy, shiftRight_exact]
  congr 1
  omega

/-- A number that fits into 53 bits is not rounded. -/
private theorem round_exact {m : Nat} {e : Int} (hlow : 2 ^ 52 ≤ m) (hhigh : m < 2 ^ 53)
    (he : -1074 ≤ e) (j : Nat) :
    roundWithAccuracy Format.binary64 .positive (m * 2 ^ j) (e - j) .exact =
      .finite .positive m e (by omega) := by
  have hfirst := shiftToTarget_exact hlow hhigh he j
  have hagain := shiftToTarget_exact hlow hhigh he 0
  simp only [Nat.pow_zero, Nat.mul_one, Int.ofNat_zero, Int.sub_zero] at hagain
  have hne : m ≠ 0 := by omega
  simp only [roundWithAccuracy, hfirst, ExtendedMantissa.roundedMantissa,
    ExtendedMantissa.accuracy, Accuracy.roundToNearestEven, hagain, hne, ↓reduceDIte]

private theorem toNat_implicit {k : Nat} (v : BitVec k) : (1#1 ++ v).toNat = 2 ^ k + v.toNat := by
  rw [BitVec.toNat_append, ← Nat.shiftLeft_add_eq_or_of_lt v.isLt]
  simp [Nat.shiftLeft_eq]

/-- A normal number survives being stored. -/
private theorem unpack_pack {m : Nat} {e : Int} (hlow : 2 ^ 52 ≤ m) (hhigh : m < 2 ^ 53)
    (he : -1074 ≤ e) (he' : e ≤ 971) (hpos : 0 < m) :
    (Float.Model.pack (.finite .positive m e hpos)).unpack = .finite .positive m e hpos := by
  have hlog : m.log2 = 52 := by
    have := log2_mul_pow hlow hhigh 0
    simpa using this
  let field : Nat := (e + 1075).toNat
  have hfield : (BitVec.ofNat 11 field).toNat = field := by
    rw [BitVec.toNat_ofNat]
    exact Nat.mod_eq_of_lt (by omega)
  have hneg : BitVec.ofNat 11 field ≠ -1#11 := by
    intro h
    have := hfield.symm.trans (congrArg BitVec.toNat h)
    simp at this
    omega
  have hnonzero : BitVec.ofNat 11 field ≠ 0#11 := by
    intro h
    have := hfield.symm.trans (congrArg BitVec.toNat h)
    simp at this
    omega
  have hmantissa : (1#1 ++ BitVec.ofNat 52 m).toNat = m := by
    rw [toNat_implicit, BitVec.toNat_ofNat]
    omega
  have hpack : UnpackedFloat.pack Format.binary64 (.finite .positive m e hpos) =
      packComponents Format.binary64 .positive (BitVec.ofNat 11 field) (BitVec.ofNat 52 m) := by
    have hbias : (e + Format.binary64.exponentBias + (52 : Nat)).toNat = field := by
      simp only [Format.exponentBias, field]
      omega
    simp only [UnpackedFloat.pack, hbias, hlog, Format.mantissaBits]
    rw [if_neg (by omega), if_pos trivial]
  change UnpackedFloat.unpack Format.binary64 (UnpackedFloat.pack Format.binary64 _) = _
  rw [hpack]
  simp only [UnpackedFloat.unpack, unpackMantissa_packComponents, unpackExponent_packComponents,
    unpackSign_packComponents, hneg, hnonzero, ↓reduceIte, hfield, hmantissa]
  congr 1
  simp only [Format.exponentBias, field]
  omega

/-- The conversion of a natural shifts it until it fills all 53 bits. -/
private theorem round_nat {n k m : Nat} (hpos : 0 < n) (hk : n.log2 + k = 52) (hm : m = n * 2 ^ k)
    (hlow : 2 ^ 52 ≤ m) (hhigh : m < 2 ^ 53) :
    UnpackedFloat.ofNat Format.binary64 n = .finite .positive m (-(k : Int)) (by omega) := by
  have htarget : Format.binary64.targetExponent (totalExponent n 0) = -(k : Int) := by
    simp only [Format.targetExponent, totalExponent, Format.mantissaBits, Format.minExponent]
    omega
  have hround := round_exact hlow hhigh (e := -(k : Int)) (by omega) 0
  simp only [Nat.pow_zero, Nat.mul_one, Int.ofNat_zero, Int.sub_zero] at hround
  simp only [UnpackedFloat.ofNat, UnpackedFloat.ofInt, UnpackedFloat.normalize,
    Int.compare_eq_gt.mpr (by omega : (0 : Int) < n), Int.toNat_natCast, UnpackedFloat.round,
    htarget, decreaseExponent, Int.sub_neg, Int.zero_add, Int.zero_sub, Nat.shiftLeft_eq, ← hm,
    hround]

/-- A float from a natural is positive and normal, with the natural as its value. -/
theorem unpack_ofNat {n : Nat} (hpos : 0 < n) (hn : n < 2 ^ 53) :
    ∃ m k : Nat, ∃ hm : 0 < m, m = n * 2 ^ k ∧ 2 ^ 52 ≤ m ∧ m < 2 ^ 53 ∧
      (Float.ofNat n).toModel.unpack = .finite .positive m (-(k : Int)) hm := by
  have hlog : n.log2 < 53 := (Nat.log2_lt (by omega)).mpr hn
  obtain ⟨hlow, hhigh⟩ := (Nat.log2_eq_iff (by omega)).mp (rfl : n.log2 = n.log2)
  obtain ⟨k, hk⟩ : ∃ k, n.log2 + k = 52 := ⟨52 - n.log2, by omega⟩
  obtain ⟨m, hm⟩ : ∃ m, m = n * 2 ^ k := ⟨_, rfl⟩
  have hmlow : 2 ^ 52 ≤ m := by
    rw [hm, ← hk, Nat.pow_add]
    exact Nat.mul_le_mul_right _ hlow
  have hmhigh : m < 2 ^ 53 := by
    have hsum : 2 ^ 53 = 2 ^ (n.log2 + 1) * 2 ^ k := by
      rw [← Nat.pow_add]
      congr 1
      omega
    rw [hm, hsum]
    exact Nat.mul_lt_mul_of_pos_right hhigh (Nat.two_pow_pos k)
  have hmpos : 0 < m := by omega
  have hwhole : (n.toUInt64.toFloat).toModel.unpack = .finite .positive m (-(k : Int)) hmpos := by
    have hnat : n.toUInt64.toNat = n := by
      apply Nat.mod_eq_of_lt
      omega
    change (Float.Model.pack
      (UnpackedFloat.ofNat Format.binary64 n.toUInt64.toNat)).unpack = _
    rw [hnat, round_nat hpos hk hm hmlow hmhigh]
    exact unpack_pack hmlow hmhigh (by omega) (by omega) hmpos
  have hone : (Float.ofBits 0x3FF0000000000000).toModel.unpack =
      .finite .positive (2 ^ 52) (-(52 : Nat)) (Nat.two_pow_pos 52) := by
    rfl
  -- literals are scaled by a power of ten, which is one here
  have hscaled : Float.ofNat n = n.toUInt64.toFloat * Float.ofBits 0x3FF0000000000000 := by
    change Float.ofScientific n false 0 = _
    rw [Float.ofScientific, dif_pos ⟨hn, by omega⟩]
    rfl
  refine ⟨m, k, hmpos, hm, hmlow, hmhigh, ?_⟩
  rw [hscaled]
  change (Float.Model.pack (UnpackedFloat.mul Format.binary64
    (n.toUInt64.toFloat).toModel.unpack _)).unpack = _
  rw [hwhole, hone]
  change (Float.Model.pack (roundWithAccuracy Format.binary64 .positive (m * 2 ^ 52)
    (-(k : Int) + -(52 : Nat)) .exact)).unpack = _
  rw [← Int.sub_eq_add_neg, round_exact hmlow hmhigh (by omega) 52]
  exact unpack_pack hmlow hmhigh (by omega) (by omega) hmpos

private theorem toNat_unpackMantissa (b : BitVec 64) :
    (@unpackMantissa Format.binary64 b).toNat = b.toNat % 2 ^ 52 := by
  simp [unpackMantissa]

private theorem toNat_unpackExponent (b : BitVec 64) :
    (@unpackExponent Format.binary64 b).toNat = b.toNat / 2 ^ 52 % 2 ^ 11 := by
  simp [unpackExponent, Nat.shiftRight_eq_div_pow]

private theorem toNat_unpackSign (b : BitVec 64) :
    (@unpackSign Format.binary64 b).toNat = b.toNat / 2 ^ 63 % 2 := by
  simp [unpackSign, Nat.shiftRight_eq_div_pow]

/-- The fields of a positive finite float are its value. -/
theorem unpack_of_ofFloat? {x : Float} {d : Dyadic64} (hd : Dyadic64.ofFloat? x = some d)
    (hsign : d.negative = false) (hpos : 0 < d.significand) :
    d.significand < 2 ^ 53 ∧
      x.toModel.unpack = .finite .positive d.significand d.exponent hpos := by
  obtain ⟨bits, hbits⟩ : ∃ b : BitVec 64, b = x.toModel.toBits.toBitVec := ⟨_, rfl⟩
  have hnat : x.toBits.toNat = bits.toNat := by rw [hbits]; rfl
  have hmantissa := toNat_unpackMantissa bits
  have hexponent := toNat_unpackExponent bits
  have hsignbit := toNat_unpackSign bits
  have hwidth := bits.isLt
  change _ ∧ UnpackedFloat.unpack Format.binary64 x.toModel.toBits.toBitVec = _
  rw [← hbits]
  simp only [Dyadic64.ofFloat?, hnat, Nat.pow_eq] at hd
  have hpositive : Sign.ofBitVec (@unpackSign Format.binary64 bits) = .positive := by
    have hlow : bits.toNat < 2 ^ 63 := by
      split at hd
      · cases hd
      · split at hd <;> cases hd <;> simpa using hsign
    have hzero : @unpackSign Format.binary64 bits = 0#1 := by
      apply BitVec.eq_of_toNat_eq
      rw [hsignbit]
      simp only [BitVec.toNat_ofNat]
      omega
    rw [hzero]
    rfl
  split at hd
  · cases hd
  · rename_i hfinite
    have hnotTop : @unpackExponent Format.binary64 bits ≠ -1#11 := by
      intro h
      have htop := hexponent.symm.trans (congrArg BitVec.toNat h)
      simp at htop
      omega
    split at hd
    · rename_i hsubnormal
      cases hd
      have hbottom : @unpackExponent Format.binary64 bits = 0#11 := by
        apply BitVec.eq_of_toNat_eq
        rw [hexponent, hsubnormal]
        rfl
      have hsome : @unpackMantissa Format.binary64 bits ≠ 0#52 := by
        intro h
        have hnone := hmantissa.symm.trans (congrArg BitVec.toNat h)
        simp at hnone hpos
        omega
      refine ⟨by simp only; omega, ?_⟩
      simp only [UnpackedFloat.unpack, hbottom, hsome, hpositive, hmantissa, ↓reduceIte,
        ↓reduceDIte]
      rfl
    · rename_i hnormal
      cases hd
      have hnotBottom : @unpackExponent Format.binary64 bits ≠ 0#11 := by
        intro h
        have hbottom := hexponent.symm.trans (congrArg BitVec.toNat h)
        simp at hbottom
        omega
      refine ⟨by simp only; omega, ?_⟩
      simp only [UnpackedFloat.unpack, hnotTop, hnotBottom, hpositive, ↓reduceIte, toNat_implicit,
        hmantissa, hexponent, Format.exponentBias]
      congr 1
      omega

private theorem lt_iff (x y : Float) : x < y ↔ x.toModel.unpack.lt y.toModel.unpack = true :=
  decide_eq_true_iff

private theorem le_iff (x y : Float) : x ≤ y ↔ x.toModel.unpack.le y.toModel.unpack = true :=
  decide_eq_true_iff

theorem not_lt_self (x : Float) : ¬ x < x := by
  rw [lt_iff]
  generalize x.toModel.unpack = u
  cases u with
  | notANumber => decide
  | infinity s => cases s <;> decide
  | zero s => cases s <;> decide
  | finite s m e h => cases s <;> simp [UnpackedFloat.lt, UnpackedFloat.compare]

private theorem compare_swap (u v : UnpackedFloat) :
    v.compare u = (u.compare v).map Ordering.swap := by
  have hmagnitude (e e' : Int) (m m' : Nat) :
      (compare e' e).then (compare m' m) = ((compare e e').then (compare m m')).swap := by
    rw [Ordering.swap_then, Int.compare_swap, Nat.compare_swap]
  cases u with
  | notANumber => cases v <;> rfl
  | infinity s =>
      cases v with
      | notANumber => rfl
      | infinity t => cases s <;> cases t <;> rfl
      | zero t => cases s <;> rfl
      | finite t m e h => cases s <;> rfl
  | zero s =>
      cases v with
      | notANumber => rfl
      | infinity t => cases t <;> rfl
      | zero t => rfl
      | finite t m e h => cases t <;> rfl
  | finite s m e h =>
      cases v with
      | notANumber => cases s <;> rfl
      | infinity t => cases s <;> cases t <;> rfl
      | zero t => cases s <;> rfl
      | finite t m' e' h' =>
          cases s <;> cases t
          · exact congrArg (fun o => some o.swap) (hmagnitude e e' m m')
          · rfl
          · rfl
          · exact congrArg some (hmagnitude e e' m m')

private theorem compare_eq_none_iff (u v : UnpackedFloat) :
    u.compare v = none ↔ u.isNaN = true ∨ v.isNaN = true := by
  cases u with
  | notANumber => simp [UnpackedFloat.compare, UnpackedFloat.isNaN]
  | infinity s => cases s <;> cases v <;> simp [UnpackedFloat.compare, UnpackedFloat.isNaN]
  | zero s =>
      cases v with
      | finite t m e h => cases t <;> simp [UnpackedFloat.compare, UnpackedFloat.isNaN]
      | infinity t => cases t <;> simp [UnpackedFloat.compare, UnpackedFloat.isNaN]
      | _ => simp [UnpackedFloat.compare, UnpackedFloat.isNaN]
  | finite s m e h =>
      cases v with
      | finite t m e h => cases s <;> cases t <;> simp [UnpackedFloat.compare, UnpackedFloat.isNaN]
      | infinity t => cases t <;> simp [UnpackedFloat.compare, UnpackedFloat.isNaN]
      | _ => cases s <;> simp [UnpackedFloat.compare, UnpackedFloat.isNaN]

/-- A float that is not known to reach another lies below it, unless one of them is a NaN. -/
theorem not_le_iff {x y : Float} : ¬ y ≤ x ↔ x < y ∨ x.isNaN = true ∨ y.isNaN = true := by
  have hnan : x.isNaN = true ∨ y.isNaN = true ↔
      x.toModel.unpack.compare y.toModel.unpack = none := (compare_eq_none_iff _ _).symm
  rw [hnan, lt_iff, le_iff, UnpackedFloat.lt, UnpackedFloat.le, compare_swap x.toModel.unpack]
  cases x.toModel.unpack.compare y.toModel.unpack with
  | none => decide
  | some o => cases o <;> decide

/-- A positive finite float that does not lie above a natural has no positive exponent, and scaled
by it the natural is not below the significand. -/
private theorem exists_scale {n : Nat} {x : Float} {m : Nat} {e : Int} {hm : 0 < m}
    (hn : n < 2 ^ 53) (hx : ¬ Float.ofNat n < x) (hsmall : m < 2 ^ 53)
    (hunpack : x.toModel.unpack = .finite .positive m e hm) :
    ∃ j : Nat, e = -(j : Int) ∧ m ≤ n * 2 ^ j := by
  rw [lt_iff, hunpack] at hx
  obtain rfl | hpos := Nat.eq_zero_or_pos n
  · exact absurd rfl hx
  · obtain ⟨limit, k, _, heq, hlow, -, hwhole⟩ := unpack_ofNat hpos hn
    rw [hwhole] at hx
    simp only [UnpackedFloat.lt, UnpackedFloat.compare, beq_iff_eq, Option.some.injEq,
      Ordering.then_eq_lt, Int.compare_eq_lt, Int.compare_eq_eq, Nat.compare_eq_lt] at hx
    obtain hless | heven : e < -(k : Int) ∨ e = -(k : Int) ∧ m ≤ limit := by omega
    · obtain ⟨i, hi⟩ : ∃ i : Nat, e = -((k + 1 + i : Nat) : Int) := ⟨(-e).toNat - (k + 1), by omega⟩
      refine ⟨k + 1 + i, hi, ?_⟩
      calc
        m ≤ 2 * limit := by omega
        _ = n * 2 ^ (k + 1) := by rw [heq, Nat.pow_succ]; ring
        _ ≤ n * 2 ^ (k + 1 + i) :=
          Nat.mul_le_mul_left _ (Nat.pow_le_pow_right (by omega) (by omega))
    · exact ⟨k, heven.1, heq ▸ heven.2⟩

/-- The whole part of a float that does not lie above a natural. -/
theorem toInt_le {x : Float} {n : Nat} (hn : n < 2 ^ 53) (hx : ¬ Float.ofNat n < x) :
    toInt x ≤ n := by
  unfold toInt
  cases hd : Dyadic64.ofFloat? x with
  | none => simp
  | some d =>
      obtain ⟨negative, m, e⟩ := d
      cases negative with
      | true =>
          simp only [↓reduceIte]
          omega
      | false =>
          simp only [Bool.false_eq_true, ↓reduceIte, Nat.cast_le]
          obtain rfl | hpos := Nat.eq_zero_or_pos m
          · cases e <;> simp
          · obtain ⟨hsmall, hunpack⟩ := unpack_of_ofFloat? hd rfl hpos
            obtain ⟨j, rfl, hle⟩ := exists_scale hn hx hsmall hunpack
            cases j with
            | zero => simpa using hle
            | succ j => exact Nat.div_le_of_le_mul (Nat.mul_comm n _ ▸ hle)

/-- A whole number that is cut off at a natural is not larger. -/
theorem toInt_clamp_le {n : Nat} (hn : n < 2 ^ 53) (x : Float) :
    Scalar.toInt (Scalar.clamp (Scalar.ofInt 0) (Scalar.ofInt n) x) ≤ n := by
  change toInt (if decide (x < Float.ofNat 0) then Float.ofNat 0
    else if decide (Float.ofNat n < x) then Float.ofNat n else x) ≤ n
  simp only [decide_eq_true_eq]
  split
  · have hzero : toInt (Float.ofNat 0) = 0 := by decide +kernel
    omega
  · split
    · exact toInt_le hn (not_lt_self _)
    · rename_i hx
      exact toInt_le hn hx

end MapTiles.Binary64
