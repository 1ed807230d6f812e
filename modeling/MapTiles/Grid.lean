import MapTiles.Level

/-!
The tiles that a viewport needs. The visible rectangle, already in the coordinate system of the
layer, is laid over the grid of the target level and of the coarser levels drawn below it.
Offsets are measured along the directions in which the level's own axes grow, so grids growing
upwards and downwards are treated alike. A tile is the more urgent the closer its center lies to
the center of the view; coarser levels come after finer ones.
-/

namespace MapTiles

/-- A tile wanted on screen, with its priority and its place. -/
structure GridTile (α : Type) where
  request : Request
  bounds : Rect α

/-- One axis of a grid: where it starts and whether its indices grow with the coordinate. -/
structure Axis (α : Type) where
  origin : α
  ascending : Bool

/-- What is asked of a grid. Levels with an identifier outside the window are skipped. -/
structure View (α : Type) where
  bounds : Rect α
  zoom : α
  levels : List (Level α)
  rule : ZoomRule α
  buckets : Nat
  lowest : Option Int
  highest : Option Int

variable {α : Type} [Scalar α]

namespace Axis

/-- The axis from the first corner towards the second. -/
def between (origin other : α) : Axis α :=
  ⟨origin, Scalar.le origin other⟩

/-- The sign of a step to the next index. -/
def direction (a : Axis α) : α :=
  if a.ascending then Scalar.ofInt 1 else Scalar.ofInt (-1)

/-- The half-open range of indices whose tiles meet `[low, high]`, within `[0, count)`. -/
def indexRange (a : Axis α) (low high tileWidth : α) (count : Int) : Int × Int :=
  let near := if a.ascending then low - a.origin else a.origin - high
  let far := if a.ascending then high - a.origin else a.origin - low
  let limit : α := Scalar.ofInt (max count 0)
  let first := Scalar.min (Scalar.floor (Scalar.max near (Scalar.ofInt 0) / tileWidth)) limit
  let last := Scalar.clamp (Scalar.ofInt 0) limit (Scalar.ceil (far / tileWidth))
  (Scalar.toInt first, Scalar.toInt last)

/-- The coordinate at which the tile with an index starts. -/
def position (a : Axis α) (index : Int) (tileWidth : α) : α :=
  a.origin + a.direction * Scalar.ofInt index * tileWidth

end Axis

/-- The integers from `first` up to but not including `last`. -/
def intRange (first last : Int) : List Int :=
  (List.range (last - first).toNat).map fun (n : Nat) => first + (n : Int)

namespace Level

def columnAxis (l : Level α) : Axis α :=
  Axis.between l.bounds.topLeft.x l.bounds.bottomRight.x

def rowAxis (l : Level α) : Axis α :=
  Axis.between l.bounds.topLeft.y l.bounds.bottomRight.y

/-- The rectangle that a tile of the level covers. -/
def tileBounds (l : Level α) (system column row : Int) : Rect α :=
  Rect.ofCorners system (l.columnAxis.position column l.tileWidth)
    (l.rowAxis.position row l.tileWidth) (l.columnAxis.position (column + 1) l.tileWidth)
    (l.rowAxis.position (row + 1) l.tileWidth)

/-- The distance from the center of the view to the center of a tile, in buckets of which the
farthest possible tile fills all. -/
def distanceBucket (l : Level α) (visible tile : Rect α) (buckets : Nat) : Nat :=
  let center := visible.center
  let reachX := visible.width * Scalar.half + l.tileWidth
  let reachY := visible.height * Scalar.half + l.tileWidth
  let reach := Scalar.hypot reachX reachY
  let x := Scalar.half * (tile.topLeft.x + tile.bottomRight.x)
  let y := Scalar.half * (tile.topLeft.y + tile.bottomRight.y)
  let distance := Scalar.hypot (x - center.x) (y - center.y)
  let count : α := Scalar.ofInt buckets
  (Scalar.toInt (Scalar.clamp (Scalar.ofInt 0) count
    (Scalar.ceil (distance / reach * count)))).toNat

/-- The tiles of one level that meet the visible rectangle, column by column. Their priorities
start at `offset`. A level without a positive finite tile width has none. -/
def visibleTiles (l : Level α) (visible : Rect α) (buckets offset : Nat) : List (GridTile α) :=
  if Scalar.isFinite l.tileWidth && Scalar.lt (Scalar.ofInt 0) l.tileWidth then
    let (lowX, highX) := visible.xRange
    let (lowY, highY) := visible.yRange
    let columns := l.columnAxis.indexRange lowX highX l.tileWidth l.columns
    let rows := l.rowAxis.indexRange lowY highY l.tileWidth l.rows
    -- without rows the columns, of which there may be very many, are not listed
    if rows.2 ≤ rows.1 then []
    else
      (intRange columns.1 columns.2).flatMap fun column =>
        (intRange rows.1 rows.2).map fun row =>
          let bounds := l.tileBounds visible.system column row
          let priority := min (l.distanceBucket visible bounds buckets + offset) priorityLimit
          ⟨⟨priority, l.tile column row⟩, bounds⟩
  else []

end Level

namespace View

def allows (v : View α) (l : Level α) : Bool :=
  v.lowest.all (fun low => decide (low ≤ l.identifier)) &&
    v.highest.all (fun high => decide (l.identifier ≤ high))

/-- The levels drawn for a target, coarsest first, each with its distance from the target. -/
def drawnLevels (v : View α) (target : Nat) : List (Nat × Level α) :=
  let start := target - v.rule.coarserLevels
  let drawn := (v.levels.drop start).take (target - start + 1)
  drawn.mapIdx fun i l => (target - start - i, l)

/-- The tiles that cover the view, coarsest level first. An empty rectangle, an infinite or
undefined zoom and an empty table have none. -/
def tiles (v : View α) : List (GridTile α) :=
  if v.bounds.isEmpty || !Scalar.isFinite v.zoom then []
  else
    match Level.targetIndex? v.levels v.zoom v.rule with
    | none => []
    | some target =>
      let buckets := max v.buckets 1
      (v.drawnLevels target).flatMap fun (rank, l) =>
        if v.allows l then
          l.visibleTiles v.bounds buckets (min (rank * buckets) priorityLimit)
        else []

end View

end MapTiles
