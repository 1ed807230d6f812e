import MapTiles.Mercator

/-!
Conversion of points and rectangles between coordinate systems. A converter is any function that
takes a target system and a point; the standard one knows the identity and both directions
between degrees and Web Mercator metres.
-/

namespace MapTiles

/-- Why a point cannot be converted. -/
inductive ConversionError where
  | unsupported (source target : Int)
deriving DecidableEq

def ConversionError.message : ConversionError → String
  | .unsupported source target =>
    "No conversion from system " ++ Int.repr source ++ " to system " ++ Int.repr target

/-- A way to convert points into a target system. -/
def Converter : Type :=
  Int → Point Float → Except ConversionError (Point Float)

namespace Converter

/-- Converts a rectangle corner by corner, the top left one first. -/
def rect (convert : Converter) (target : Int) (r : Rect Float) :
    Except ConversionError (Rect Float) := do
  let topLeft ← convert target r.topLeft
  let bottomRight ← convert target r.bottomRight
  return ⟨topLeft, bottomRight⟩

/-- Leaves points of the target system alone and projects between degrees and metres. -/
def standard : Converter := fun target p =>
  if p.system = target then .ok p
  else if p.system = degreesSystem ∧ target = mercatorSystem then
    let (x, y) := Mercator.project p.x p.y
    .ok ⟨mercatorSystem, x, y⟩
  else if p.system = mercatorSystem ∧ target = degreesSystem then
    let (longitude, latitude) := Mercator.unproject p.x p.y
    .ok ⟨degreesSystem, longitude, latitude⟩
  else .error (.unsupported p.system target)

end Converter

end MapTiles
