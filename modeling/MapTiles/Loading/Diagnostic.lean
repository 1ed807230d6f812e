import MapTiles.Decimal.Shortest
import MapTiles.Loading

/-!
Diagnostic texts of tiles, of their places, and of the state of all tile loads.
-/

namespace MapTiles

def Point.diagnostic (p : Point Float) : String :=
  Text.record "Coord"
    [("system_id", Int.repr p.system), ("x", Decimal.write .diagnostic p.x),
      ("y", Decimal.write .diagnostic p.y)] true

def Rect.diagnostic (r : Rect Float) : String :=
  Text.record "RectCoord"
    [("top_left", r.topLeft.diagnostic), ("bottom_right", r.bottomRight.diagnostic)] true

def Tile.diagnostic (t : Tile) : String :=
  Text.record "TileCoordinate"
    [("x", Int.repr t.column), ("y", Int.repr t.row), ("zoom_identifier", Int.repr t.level),
      ("zoom", Decimal.write .diagnostic t.zoom.toFloat)] true

/-- A tile that has arrived as a diagnostic text, which does not show the payload. -/
def Resident.diagnostic {P : Type} (r : Resident P) : String :=
  Text.record "ResidentTile" [("tile", r.tile.diagnostic), ("bounds", r.bounds.diagnostic)] false

/-- The sizes of the containers as a diagnostic text. -/
def Loading.diagnostic {P : Type} (s : Loading P) : String :=
  Text.record "LoadingState"
    [("visible", Nat.repr s.visible.size), ("queued", Nat.repr s.queue.size),
      ("in_flight", Nat.repr s.inFlight.size), ("resident", Nat.repr s.resident.size),
      ("failed", Nat.repr s.errors.size), ("not_found", Nat.repr s.missing.size)] true

end MapTiles
