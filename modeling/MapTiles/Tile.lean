import MapTiles.Binary64

/-!
Tiles and load requests. A tile is a column and a row of a zoom level, and the level is named by
its identifier together with the bits of its nominal zoom, because a zoom table need not be
uniform. Tiles are ordered by level identifier, column, row and zoom; requests by priority and
then by tile. Both orders are lawful, so tiles and requests can key sets and maps.
-/

namespace MapTiles

/-- The identity of a tile. -/
structure Tile where
  column : Int
  row : Int
  level : Int
  zoom : Binary64
deriving DecidableEq, Inhabited

namespace Tile

protected def compare : Tile → Tile → Ordering :=
  compareLex (compareOn level)
    (compareLex (compareOn column) (compareLex (compareOn row) (compareOn zoom)))

instance : Ord Tile := ⟨Tile.compare⟩

instance : Std.TransOrd Tile :=
  inferInstanceAs (Std.TransCmp
    (compareLex (compareOn level)
      (compareLex (compareOn column) (compareLex (compareOn row) (compareOn zoom)))))

instance : Std.LawfulEqOrd Tile where
  eq_of_compare {a b} h := by
    have h : compareLex (compareOn level)
        (compareLex (compareOn column) (compareLex (compareOn row) (compareOn zoom))) a b = .eq := h
    simp only [compareLex_eq_eq, compareOn] at h
    obtain ⟨hlevel, hcolumn, hrow, hzoom⟩ := h
    cases a
    cases b
    simp only [Tile.mk.injEq]
    exact ⟨Std.LawfulEqCmp.eq_of_compare hcolumn, Std.LawfulEqCmp.eq_of_compare hrow,
      Std.LawfulEqCmp.eq_of_compare hlevel, Std.LawfulEqCmp.eq_of_compare hzoom⟩

/-- What a hash of the tile is computed from. -/
def hashInput (t : Tile) : Int × Int × Int × UInt64 :=
  (t.level, t.column, t.row, t.zoom.bits)

instance : Hashable Tile := ⟨fun t => hash t.hashInput⟩

/-- The tile as `level/column/row`. -/
def path (t : Tile) : String :=
  Int.repr t.level ++ "/" ++ Int.repr t.column ++ "/" ++ Int.repr t.row

end Tile

/-- The largest priority. Sums of priorities stop there. -/
def priorityLimit : Nat := Nat.pow 2 32 - 1

/-- A tile with its load priority. Lower priorities load first. -/
structure Request where
  priority : Nat
  tile : Tile
deriving DecidableEq, Hashable, Inhabited

namespace Request

/-- The order in which requests are served. -/
protected def compare : Request → Request → Ordering :=
  compareLex (compareOn priority) (compareOn tile)

instance : Ord Request := ⟨Request.compare⟩

instance : Std.TransOrd Request :=
  inferInstanceAs (Std.TransCmp (compareLex (compareOn priority) (compareOn tile)))

instance : Std.LawfulEqOrd Request where
  eq_of_compare {a b} h := by
    have h : compareLex (compareOn priority) (compareOn tile) a b = .eq := h
    simp only [compareLex_eq_eq, compareOn] at h
    obtain ⟨hpriority, htile⟩ := h
    cases a
    cases b
    simp only [Request.mk.injEq]
    exact ⟨Std.LawfulEqCmp.eq_of_compare hpriority, Std.LawfulEqCmp.eq_of_compare htile⟩

end Request

end MapTiles
