import MapTiles.Geometry
import MapTiles.Tile

/-!
Zoom tables. A level has a nominal zoom, a scale denominator that is larger the coarser the level
is, and a grid of square tiles laid out from the top left corner of its bounds. A table is sorted
from the coarsest level to the finest, and a viewport is shown at the first level that is finer
than it.
-/

namespace MapTiles

structure Level (α : Type) where
  zoom : Binary64
  tileWidth : α
  columns : Int
  rows : Int
  identifier : Int
  bounds : Rect α

/-- How a layer chooses levels: the factor applied to nominal zooms before they are compared, and
the number of coarser levels drawn below the target. -/
structure ZoomRule (α : Type) where
  factor : α
  coarserLevels : Nat

/-- Nominal zooms as they are, and the target level alone. -/
def ZoomRule.standard {α : Type} [Scalar α] : ZoomRule α :=
  ⟨Scalar.ofInt 1, 0⟩

namespace Level

variable {α : Type}

/-- Whether the first level may stand before the second in a sorted table. -/
def notFiner (a b : Level α) : Bool :=
  decide (b.zoom.rank ≤ a.zoom.rank)

/-- The table from the coarsest level to the finest; levels of equal zoom keep their order. -/
def sort (levels : List (Level α)) : List (Level α) :=
  levels.mergeSort notFiner

/-- The index of the level shown at a zoom: the first one whose scaled nominal zoom lies below
it, or else the last. Only an empty table has none. -/
def targetIndex? [Scalar α] (levels : List (Level α)) (zoom : α) (rule : ZoomRule α) :
    Option Nat :=
  match levels.findIdx? fun l => Scalar.lt (rule.factor * Scalar.ofBinary64 l.zoom) zoom with
  | some i => some i
  | none => if levels.isEmpty then none else some (levels.length - 1)

def tile (l : Level α) (column row : Int) : Tile :=
  ⟨column, row, l.identifier, l.zoom⟩

end Level

end MapTiles
