import MapTiles.Mercator
import MapTiles.Template

/-!
Layers: a zoom table in a coordinate system and a key for every tile. A layer is given by its own
table, or it is a Web Mercator layer that serves a range of levels of the world square.
-/

namespace MapTiles

/-- Why a layer cannot be built. -/
inductive LayerError where
  | missingPlaceholder (template : String) (placeholder : Placeholder)
  | invalidRange (lowest highest : Int)
  | noLevels (name : String)
deriving DecidableEq

def LayerError.message : LayerError → String
  | .missingPlaceholder template placeholder =>
    "URL template '" ++ template ++ "' is missing the " ++ String.ofList placeholder.token ++
      " placeholder"
  | .invalidRange lowest highest =>
    "Invalid zoom range " ++ Int.repr lowest ++ "..=" ++ Int.repr highest ++ " (allowed 0..=" ++
      Int.repr Mercator.deepestLevel ++ ")"
  | .noLevels name => "Layer '" ++ name ++ "' has no zoom levels"

/-- Reads the key template of a layer. -/
def Template.forLayer (text : String) : Except LayerError Template :=
  match Template.parse text with
  | .ok template => .ok template
  | .error placeholder => .error (.missingPlaceholder text placeholder)

/-- A tiled layer as seen by everything that shows it. The table may be in any order. -/
structure Layer where
  name : String
  system : Int
  levels : List (Level Float)
  rule : ZoomRule Float
  key : Tile → String
  extent : Option (Rect Float)

namespace Layer

/-- A layer with a table of its own, which must not be empty. -/
def ofTable (name : String) (system : Int) (levels : List (Level Float)) (template : String) :
    Except LayerError Layer :=
  if levels.isEmpty then .error (.noLevels name)
  else do
    let template ← Template.forLayer template
    return {
      name := name
      system := system
      levels := levels
      rule := ZoomRule.standard
      key := template.key
      extent := none }

/-- The layer with another rule for choosing levels. -/
def withRule (l : Layer) (rule : ZoomRule Float) : Layer :=
  { l with rule := rule }

end Layer

/-- A Web Mercator layer and the range of levels that it serves. -/
structure WebLayer where
  name : String
  template : Template
  lowest : Nat
  highest : Nat
  lowest_le : lowest ≤ highest
  highest_le : (highest : Int) ≤ Mercator.deepestLevel

namespace WebLayer

/-- A layer that serves every level down to the default depth. -/
def new (name template : String) : Except LayerError WebLayer := do
  let template ← Template.forLayer template
  return {
    name := name
    template := template
    lowest := 0
    highest := Mercator.defaultDeepestLevel.toNat
    lowest_le := by decide
    highest_le := by decide }

/-- The layer restricted to the levels from `lowest` to `highest`. -/
def withRange (l : WebLayer) (lowest highest : Int) : Except LayerError WebLayer :=
  if h : lowest < 0 ∨ highest < lowest ∨ Mercator.deepestLevel < highest then
    .error (.invalidRange lowest highest)
  else
    .ok { l with
      lowest := lowest.toNat
      highest := highest.toNat
      lowest_le := by omega
      highest_le := by omega }

/-- The layer with its table and keys. -/
def toLayer (l : WebLayer) : Layer where
  name := l.name
  system := mercatorSystem
  levels := Mercator.levels l.lowest l.highest
  rule := ZoomRule.standard
  key := l.template.key
  extent := some Mercator.world

end WebLayer

end MapTiles
