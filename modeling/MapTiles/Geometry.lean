import MapTiles.Decimal.Fixed
import MapTiles.Scalar

/-!
Points and rectangles of a coordinate system. A rectangle is given by two opposite corners that
keep the orientation of their system: where `y` grows northwards the top left corner has the
smaller `x` and the larger `y`. Systems are told apart by their EPSG codes.
-/

namespace MapTiles

/-- Longitude and latitude in degrees. -/
def degreesSystem : Int := 4326

/-- Web Mercator metres. -/
def mercatorSystem : Int := 3857

structure Point (α : Type) where
  system : Int
  x : α
  y : α
deriving DecidableEq

/-- A rectangle between two opposite corners. -/
structure Rect (α : Type) where
  topLeft : Point α
  bottomRight : Point α
deriving DecidableEq

namespace Rect

variable {α : Type}

/-- The rectangle between two corners of one system. -/
def ofCorners (system : Int) (left top right bottom : α) : Rect α :=
  ⟨⟨system, left, top⟩, ⟨system, right, bottom⟩⟩

/-- The coordinate system, that of the top left corner. -/
def system (r : Rect α) : Int :=
  r.topLeft.system

variable [Scalar α]

def width (r : Rect α) : α :=
  Scalar.abs (r.bottomRight.x - r.topLeft.x)

def height (r : Rect α) : α :=
  Scalar.abs (r.bottomRight.y - r.topLeft.y)

def center (r : Rect α) : Point α where
  system := r.system
  x := r.topLeft.x + Scalar.half * (r.bottomRight.x - r.topLeft.x)
  y := r.topLeft.y + Scalar.half * (r.bottomRight.y - r.topLeft.y)

/-- The smallest and the largest `x`. -/
def xRange (r : Rect α) : α × α :=
  (Scalar.min r.topLeft.x r.bottomRight.x, Scalar.max r.topLeft.x r.bottomRight.x)

/-- The smallest and the largest `y`. -/
def yRange (r : Rect α) : α × α :=
  (Scalar.min r.topLeft.y r.bottomRight.y, Scalar.max r.topLeft.y r.bottomRight.y)

/-- Whether the rectangle has no area or no finite extent. -/
def isEmpty (r : Rect α) : Bool :=
  !(Scalar.isFinite r.width && Scalar.isFinite r.height) ||
    Scalar.le r.width (Scalar.ofInt 0) || Scalar.le r.height (Scalar.ofInt 0)

end Rect

/-- Whether two points of floats are numerically equal. A NaN equals nothing. -/
def Point.agrees (p q : Point Float) : Bool :=
  p.system == q.system && Float.beq p.x q.x && Float.beq p.y q.y

/-- Whether two rectangles of floats are numerically equal. -/
def Rect.agrees (r s : Rect Float) : Bool :=
  r.topLeft.agrees s.topLeft && r.bottomRight.agrees s.bottomRight

/-- The corners with two places and the system. -/
def Rect.describe (r : Rect Float) : String :=
  let corner (p : Point Float) := "(" ++ Decimal.fixed 2 p.x ++ ", " ++ Decimal.fixed 2 p.y ++ ")"
  "[" ++ corner r.topLeft ++ " - " ++ corner r.bottomRight ++ " @" ++ Int.repr r.system ++ "]"

end MapTiles
