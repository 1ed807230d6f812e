import MapTiles.Level

/-!
The Web Mercator world: a square of metres with its tiles, and the projection from longitude and
latitude. Level `n` splits the square into `2 ^ n` columns and rows from the north-west corner,
and its nominal zoom is a map scale that halves from level to level.
-/

namespace MapTiles.Mercator

/-- Half the side of the world square, in metres. -/
def extent : Float := 20037508.34

/-- The scale denominator of level zero. -/
def baseZoom : Float := 559082264.029

/-- The tile width of level zero, in metres. -/
def baseTileWidth : Int := 40075016

/-- The deepest level there is. -/
def deepestLevel : Int := 30

/-- The deepest level that a layer serves unless told otherwise. -/
def defaultDeepestLevel : Int := 20

/-- The latitude at which the square ends, in degrees. -/
def latitudeLimit : Float := 85.05112878

/-- `2 ^ n` as a float, zero or infinity far outside the range of floats. -/
def powerOfTwo (n : Int) : Float :=
  match n with
  | .ofNat e => if 1024 ≤ e then 1.0 / 0.0 else Binary64.nearest (Nat.pow 2 e) 1
  | .negSucc e => if 1100 ≤ e then 0.0 else Binary64.nearest 1 (Nat.pow 2 (e + 1))

def zoomOf (level : Int) : Float :=
  baseZoom / powerOfTwo level

section

variable {α : Type} [Scalar α]

/-- The world square, north-west corner first. -/
def world : Rect α :=
  let e : α := Scalar.ofBinary64 (Binary64.ofFloat extent)
  let w : α := Scalar.ofInt 0 - e
  Rect.ofCorners mercatorSystem w e e w

def level (n : Nat) : Level α where
  zoom := Binary64.ofFloat (zoomOf n)
  tileWidth := Scalar.ofInt baseTileWidth / Scalar.ofInt (Nat.pow 2 n)
  columns := Nat.pow 2 n
  rows := Nat.pow 2 n
  identifier := n
  bounds := world

/-- The levels from `lowest` to `highest`, both included, coarsest first. -/
def levels (lowest highest : Nat) : List (Level α) :=
  (List.range (highest + 1 - lowest)).map fun i => level (lowest + i)

end

def pi : Float := 3.141592653589793

/-- Longitude and latitude in degrees to metres. Latitudes beyond the limit are taken as the
limit. -/
def project (longitude latitude : Float) : Float × Float :=
  let latitude := Scalar.clamp (-latitudeLimit) latitudeLimit latitude
  let x := longitude * extent / 180.0
  let y := ((90.0 + latitude) * pi / 360.0).tan.log * extent / pi
  (x, y)

/-- Metres back to longitude and latitude in degrees. -/
def unproject (x y : Float) : Float × Float :=
  let longitude := x * 180.0 / extent
  let latitude := (2.0 * (y * pi / extent).exp.atan - pi / 2.0) * 180.0 / pi
  (longitude, latitude)

end MapTiles.Mercator
