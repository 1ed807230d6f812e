import MapTiles.CommandLine.Error
import MapTiles.CommandLine.Options
import MapTiles.CommandLine.Value
import MapTiles.Config
import MapTiles.Conversion
import MapTiles.Grid
import MapTiles.Layer
import MapTiles.Text.Column

/-!
The `grid` command: the tiles that a view of a Web Mercator layer asks for, with their priorities
and keys, in the order in which they would be loaded.
-/

namespace MapTiles.CommandLine

/-- What is asked of the `grid` command. -/
structure GridQuery where
  bounds : Bounds
  zoom : Float
  system : Int
  lowest : Int
  highest : Int
  coarserLevels : Nat
  buckets : Nat
  template : String

namespace GridQuery

/-- The keys are printed with this template unless told otherwise. -/
def standardTemplate : String :=
  "https://tile.openstreetmap.org/\x7bz\x7d/\x7bx\x7d/\x7by\x7d.png"

def options : List KnownOption :=
  [⟨"bounds", true⟩, ⟨"zoom", false⟩, ⟨"system", false⟩, ⟨"levels", false⟩,
    ⟨"previous-layers", false⟩, ⟨"buckets", false⟩, ⟨"template", false⟩]

/-- Reads the arguments of the command, or nothing if they are not understood. -/
def read? (arguments : List String) : Option GridQuery := do
  let given ← Options.read? options arguments
  let bounds ← given.value? "bounds" (fun text => (Bounds.read text.toList).toOption) none
  let zoom ← given.value? "zoom" readNumber none
  let system ←
    given.value? "system" (fun text => (readSystem text.toList).toOption) (some degreesSystem)
  let (lowest, highest) ← given.value? "levels" (fun text => (readLevels text.toList).toOption)
    (some (0, Mercator.defaultDeepestLevel))
  let coarserLevels ← given.value? "previous-layers" readLongCount (some 0)
  let buckets ← given.value? "buckets" readCount (some Config.standard.buckets)
  let template ← given.value? "template" some (some standardTemplate)
  return {
    bounds := bounds
    zoom := zoom
    system := system
    lowest := lowest
    highest := highest
    coarserLevels := coarserLevels
    buckets := buckets
    template := template }

def layer (q : GridQuery) : Except LayerError Layer := do
  let web ← WebLayer.new "grid" q.template
  let web ← web.withRange q.lowest q.highest
  return web.toLayer.withRule { ZoomRule.standard with coarserLevels := q.coarserLevels }

/-- The tiles of a view in the order in which they would be loaded. -/
def tiles (q : GridQuery) (layer : Layer) (visible : Rect Float) : List (GridTile Float) :=
  let view : View Float := {
    bounds := visible
    zoom := q.zoom
    levels := Level.sort layer.levels
    rule := layer.rule
    buckets := max q.buckets 1
    lowest := none
    highest := none }
  view.tiles.mergeSort fun a b => (compare a.request b.request).isLE

def row (priority tile key : String) : String :=
  Text.alignRight 8 priority ++ "  " ++ Text.alignLeft 14 tile ++ "  " ++ key

/-- The lines that the command prints for a view. -/
def lines (layer : Layer) (visible : Rect Float) (tiles : List (GridTile Float)) : List String :=
  let title := "Visible bounds (EPSG:3857): " ++ visible.describe
  if tiles.isEmpty then [title, "No tiles cover the given bounds"]
  else
    let rows := tiles.map fun t =>
      row (Nat.repr t.request.priority) t.request.tile.path (layer.key t.request.tile)
    [title, row "PRIORITY" "TILE" "KEY"] ++ rows ++ ["", Nat.repr tiles.length ++ " tiles"]

def report (q : GridQuery) : Except CommandError (List String) := do
  let layer ← CommandError.ofLayer q.layer
  let visible ←
    (Converter.rect Converter.standard mercatorSystem (q.bounds.toRect q.system)).mapError
      fun fault => .argument fault.message
  return lines layer visible (q.tiles layer visible)

end GridQuery

end MapTiles.CommandLine
