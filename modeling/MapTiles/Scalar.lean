import MapTiles.Binary64.Rounding

/-!
The arithmetic that grids are computed with. Coordinates, tile widths and zooms belong to a type
of scalars with comparisons, rounding to whole numbers and the length of a hypotenuse. Floats
are the scalars of the running program; nothing in the grid depends on how a scalar is stored.
-/

namespace MapTiles

/-- Scalars: numbers with field operations, comparisons and rounding. -/
class Scalar (α : Type) where
  [toAdd : Add α]
  [toSub : Sub α]
  [toMul : Mul α]
  [toDiv : Div α]
  /-- The whole number `n`. -/
  ofInt : Int → α
  half : α
  /-- The number that a bit pattern stands for. -/
  ofBinary64 : Binary64 → α
  abs : α → α
  lt : α → α → Bool
  le : α → α → Bool
  /-- Neither infinite nor undefined. -/
  isFinite : α → Bool
  /-- The smaller of two numbers, or the defined one of them. -/
  min : α → α → α
  /-- The larger of two numbers, or the defined one of them. -/
  max : α → α → α
  /-- The greatest whole number not above. -/
  floor : α → α
  /-- The least whole number not below. -/
  ceil : α → α
  /-- The length of the hypotenuse over two sides. -/
  hypot : α → α → α
  /-- The whole part as an integer, zero if there is none. -/
  toInt : α → Int

namespace Scalar

variable {α : Type} [Scalar α]

-- of low priority, so that a type with operations of its own keeps them

instance (priority := low) : Add α := toAdd

instance (priority := low) : Sub α := toSub

instance (priority := low) : Mul α := toMul

instance (priority := low) : Div α := toDiv

/-- The number `x` moved into `[low, high]`. What is not comparable stays as it is. -/
def clamp (low high x : α) : α :=
  if lt x low then low else if lt high x then high else x

end Scalar

/-- The smaller float; a NaN gives way to the other operand, and of two zeros the
second is taken. -/
def Binary64.min (x y : Float) : Float :=
  if x.isNaN then y else if y ≤ x then y else x

/-- The larger float; a NaN gives way to the other operand, and of two zeros the
second is taken. -/
def Binary64.max (x y : Float) : Float :=
  if x.isNaN then y else if x ≤ y then y else x

instance : Scalar Float where
  ofInt := Float.ofInt
  half := 0.5
  ofBinary64 := Binary64.toFloat
  abs := Float.abs
  lt x y := decide (x < y)
  le x y := decide (x ≤ y)
  isFinite := Float.isFinite
  min := Binary64.min
  max := Binary64.max
  floor := Binary64.floor
  ceil := Binary64.ceil
  hypot := Binary64.hypot
  toInt := Binary64.toInt

end MapTiles
