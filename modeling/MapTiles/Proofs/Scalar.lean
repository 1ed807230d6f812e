import MapTiles.Scalar
import Mathlib.Algebra.Order.Floor.Ring
import Mathlib.Analysis.Real.Sqrt

/-!
Scalars without rounding. Any ordered field with whole parts computes grids exactly, as the
rationals and the reals do. Only the length of a hypotenuse is not given by the field operations: it
is a parameter, and a statement that needs something of it says so.
-/

namespace MapTiles

/-- The length of the hypotenuse over two sides. -/
class Hypotenuse (K : Type) where
  hypot : K → K → K

variable {K : Type} [Field K] [LinearOrder K] [FloorRing K] [Hypotenuse K]

/-- The number itself, without rounding. -/
def Dyadic64.value (d : Dyadic64) : K :=
  (if d.negative then -1 else 1) * d.significand * 2 ^ d.exponent

namespace Scalar

/-- Exact arithmetic. Every number is finite, and bits that stand for none are read as zero. -/
instance (priority := low) exact : Scalar K where
  ofInt n := n
  half := 1 / 2
  ofBinary64 b := ((Dyadic64.ofFloat? b.toFloat).map Dyadic64.value).getD 0
  abs x := |x|
  lt x y := decide (x < y)
  le x y := decide (x ≤ y)
  isFinite _ := true
  min x y := Min.min x y
  max x y := Max.max x y
  floor x := ⌊x⌋
  ceil x := ⌈x⌉
  hypot := Hypotenuse.hypot
  toInt x := if 0 ≤ x then ⌊x⌋ else ⌈x⌉

@[simp] theorem ofInt_exact (n : Int) : (ofInt n : K) = n := rfl

@[simp] theorem half_exact : (half : K) = 1 / 2 := rfl

@[simp] theorem abs_exact (x : K) : Scalar.abs x = |x| := rfl

@[simp] theorem lt_exact (x y : K) : Scalar.lt x y = decide (x < y) := rfl

@[simp] theorem le_exact (x y : K) : Scalar.le x y = decide (x ≤ y) := rfl

@[simp] theorem isFinite_exact (x : K) : Scalar.isFinite x = true := rfl

@[simp] theorem min_exact (x y : K) : Scalar.min x y = Min.min x y := rfl

@[simp] theorem max_exact (x y : K) : Scalar.max x y = Max.max x y := rfl

@[simp] theorem floor_exact (x : K) : Scalar.floor x = (⌊x⌋ : K) := rfl

@[simp] theorem ceil_exact (x : K) : Scalar.ceil x = (⌈x⌉ : K) := rfl

@[simp] theorem hypot_exact (x y : K) : Scalar.hypot x y = Hypotenuse.hypot x y := rfl

variable [IsStrictOrderedRing K]

@[simp] theorem toInt_intCast (n : Int) : Scalar.toInt (n : K) = n := by
  change (if (0 : K) ≤ n then ⌊(n : K)⌋ else ⌈(n : K)⌉) = n
  rw [Int.floor_intCast, Int.ceil_intCast, ite_self]

/-- Whole numbers are cut off as integers are. -/
theorem clamp_intCast (low high n : Int) :
    clamp (low : K) high n =
      ((if n < low then low else if high < n then high else n : Int) : K) := by
  simp only [clamp, lt_exact, decide_eq_true_eq, Int.cast_lt]
  split
  · rfl
  · split <;> rfl

end Scalar

/-- The reals have all roots. -/
noncomputable instance : Hypotenuse ℝ where
  hypot x y := √(x ^ 2 + y ^ 2)

theorem hypot_zero : Hypotenuse.hypot (0 : ℝ) 0 = 0 := by
  change √((0 : ℝ) ^ 2 + 0 ^ 2) = 0
  norm_num

end MapTiles
