import MapTiles.Proofs.Grid.Cells
import Mathlib.Tactic.Ring

/-!
Which tiles a level shows for a rectangle, in exact arithmetic: those within the grid whose own
rectangle shares an area with it. The rectangle of a tile is the cell of its column by the cell of
its row.
-/

namespace MapTiles

variable {K : Type} [Field K] [LinearOrder K] [FloorRing K] [Hypotenuse K]

/-- The rectangle at an index pair, counted in tile widths from the first corner of the level
towards the second. -/
def Level.cell (l : Level K) (system column row : Int) : Rect K :=
  let across : K :=
    if l.bounds.topLeft.x ≤ l.bounds.bottomRight.x then l.tileWidth else -l.tileWidth
  let down : K :=
    if l.bounds.topLeft.y ≤ l.bounds.bottomRight.y then l.tileWidth else -l.tileWidth
  Rect.ofCorners system
    (l.bounds.topLeft.x + column * across) (l.bounds.topLeft.y + row * down)
    (l.bounds.topLeft.x + (column + 1) * across) (l.bounds.topLeft.y + (row + 1) * down)

variable [IsStrictOrderedRing K]

namespace Level

variable {l : Level K}

omit [IsStrictOrderedRing K] in
theorem tileBounds_exact (l : Level K) (system column row : Int) :
    l.tileBounds system column row = l.cell system column row := by
  have hposition (a b w : K) (i : Int) : (Axis.between a b).position i w =
      a + i * (if a ≤ b then w else -w) := by
    rw [Axis.position_exact, Axis.between]
    simp only [Scalar.le_exact, decide_eq_true_eq]
    split <;> ring
  simp only [tileBounds, cell, columnAxis, rowAxis, hposition, Int.cast_add, Int.cast_one]

omit [IsStrictOrderedRing K] in
theorem drawable_exact (l : Level K) : l.drawable = true ↔ 0 < l.tileWidth := by
  simp [drawable]

/-- The indices that a level shows for a rectangle. -/
theorem shown_iff {visible : Rect K} (hwide : 0 < l.tileWidth) (hvisible : visible.isEmpty = false)
    (column row : Int) :
    (((l.columnRange visible).1 ≤ column ∧ column < (l.columnRange visible).2) ∧
        ((l.rowRange visible).1 ≤ row ∧ row < (l.rowRange visible).2)) ↔
      (0 ≤ column ∧ column < l.columns) ∧ (0 ≤ row ∧ row < l.rows) ∧
        0 < (l.cell visible.system column row).sharedArea visible := by
  obtain ⟨hx, hy⟩ := Rect.isEmpty_eq_false_iff.mp hvisible
  rw [columnRange, rowRange, Axis.mem_indexRange_shared_iff _ hwide hx,
    Axis.mem_indexRange_shared_iff _ hwide hy, Rect.sharedArea_pos_iff, ← tileBounds_exact]
  change _ ↔ _ ∧ _ ∧ (0 < sharedLength (l.columnAxis.cell column l.tileWidth) visible.xRange ∧
    0 < sharedLength (l.rowAxis.cell row l.tileWidth) visible.yRange)
  constructor
  · rintro ⟨⟨hcolumn, hacross⟩, hrow, hdown⟩
    exact ⟨hcolumn, hrow, hacross, hdown⟩
  · rintro ⟨hcolumn, hrow, hacross, hdown⟩
    exact ⟨⟨hcolumn, hacross⟩, hrow, hdown⟩

/-- A rectangle lies in the middle of itself. -/
theorem distanceBucket_self (hhypot : Hypotenuse.hypot (0 : K) 0 = 0) (l : Level K) (r : Rect K)
    (buckets : Nat) : l.distanceBucket r r buckets = 0 := by
  have hmiddle (a b : K) : 1 / 2 * (a + b) - (a + 1 / 2 * (b - a)) = 0 := by ring
  have hclamp : Scalar.clamp ((0 : Int) : K) ((buckets : Int) : K) ((0 : Int) : K) =
      ((0 : Int) : K) := by
    rw [Scalar.clamp_intCast, if_neg (lt_irrefl _), if_neg (by omega)]
  simp only [distanceBucket, Rect.center, Scalar.half_exact, hmiddle]
  change (Scalar.toInt (Scalar.clamp ((0 : Int) : K) ((buckets : Int) : K)
    ((⌈Hypotenuse.hypot (0 : K) 0 / _ * _⌉ : Int) : K))).toNat = 0
  rw [hhypot, zero_div, zero_mul, Int.ceil_zero, hclamp, Scalar.toInt_intCast]
  rfl

/-- A level shows a single tile for the rectangle of that tile, in the innermost bucket. -/
theorem visibleTiles_cell (hhypot : Hypotenuse.hypot (0 : K) 0 = 0) {visible : Rect K}
    (hwide : 0 < l.tileWidth) (hvisible : visible.isEmpty = false) {column row : Int}
    (hcolumn : 0 ≤ column ∧ column < l.columns) (hrow : 0 ≤ row ∧ row < l.rows)
    (hsame : visible = l.cell visible.system column row) (buckets offset : Nat) :
    l.visibleTiles visible buckets offset =
      [⟨⟨min offset priorityLimit, l.tile column row⟩, visible⟩] := by
  obtain ⟨hx, hy⟩ := Rect.isEmpty_eq_false_iff.mp hvisible
  rw [← tileBounds_exact] at hsame
  have hacross : visible.xRange = l.columnAxis.cell column l.tileWidth :=
    congrArg Rect.xRange hsame
  have hdown : visible.yRange = l.rowAxis.cell row l.tileWidth := congrArg Rect.yRange hsame
  have hcolumns : intRange (l.columnRange visible).1 (l.columnRange visible).2 = [column] := by
    apply intRange_eq_singleton
    intro i
    rw [columnRange, Axis.mem_indexRange_shared_iff _ hwide hx, hacross,
      Axis.sharedLength_cells_pos_iff _ hwide]
    constructor
    · exact And.right
    · rintro rfl
      exact ⟨hcolumn, rfl⟩
  have hrows : intRange (l.rowRange visible).1 (l.rowRange visible).2 = [row] := by
    apply intRange_eq_singleton
    intro j
    rw [rowRange, Axis.mem_indexRange_shared_iff _ hwide hy, hdown,
      Axis.sharedLength_cells_pos_iff _ hwide]
    constructor
    · exact And.right
    · rintro rfl
      exact ⟨hrow, rfl⟩
  rw [visibleTiles_eq, if_pos ((drawable_exact l).mpr hwide), hcolumns, hrows]
  simp only [List.flatMap_singleton, List.map_singleton, placed, ← hsame,
    distanceBucket_self hhypot, Nat.zero_add]

/-- A level shows exactly the tiles of its grid that share an area with the visible rectangle, each
once and each in its own rectangle. For the rectangle of one of its tiles it shows that tile
alone, in the innermost bucket. -/
theorem shows_overlapping_cells (l : Level K) (visible : Rect K) (buckets offset : Nat)
    (hwide : 0 < l.tileWidth) (hvisible : visible.isEmpty = false) :
    ((l.visibleTiles visible buckets offset).map place).Nodup ∧
      (∀ t ∈ l.visibleTiles visible buckets offset,
        t.request.tile = l.tile t.request.tile.column t.request.tile.row ∧
          t.bounds = l.cell visible.system t.request.tile.column t.request.tile.row) ∧
      (∀ column row : Int,
        (∃ t ∈ l.visibleTiles visible buckets offset, place t = (column, row)) ↔
          (0 ≤ column ∧ column < l.columns) ∧ (0 ≤ row ∧ row < l.rows) ∧
            0 < (l.cell visible.system column row).sharedArea visible) ∧
      (Hypotenuse.hypot (0 : K) 0 = 0 → ∀ column row : Int,
        0 ≤ column ∧ column < l.columns → 0 ≤ row ∧ row < l.rows →
          visible = l.cell visible.system column row →
            l.visibleTiles visible buckets offset =
              [⟨⟨min offset priorityLimit, l.tile column row⟩, visible⟩]) := by
  have hdrawable : l.drawable = true := (drawable_exact l).mpr hwide
  refine ⟨nodup_places l visible buckets offset, ?_, ?_, ?_⟩
  · intro t ht
    obtain ⟨-, column, row, -, -, rfl⟩ := mem_visibleTiles_iff.mp ht
    exact ⟨rfl, tileBounds_exact l visible.system column row⟩
  · intro column row
    rw [← shown_iff hwide hvisible]
    constructor
    · rintro ⟨t, ht, hplace⟩
      obtain ⟨-, i, j, hcolumn, hrow, rfl⟩ := mem_visibleTiles_iff.mp ht
      obtain ⟨rfl, rfl⟩ := Prod.mk.inj hplace
      exact ⟨hcolumn, hrow⟩
    · rintro ⟨hcolumn, hrow⟩
      exact ⟨l.placed visible buckets offset column row,
        mem_visibleTiles_iff.mpr ⟨hdrawable, column, row, hcolumn, hrow, rfl⟩, rfl⟩
  · intro hhypot column row hcolumn hrow hsame
    exact visibleTiles_cell hhypot hwide hvisible hcolumn hrow hsame buckets offset

/-- Four columns and rows of 256 units, with rows that count downwards from the top. -/
noncomputable def squares : Level ℝ where
  zoom := Binary64.ofFloat 500
  tileWidth := 256
  columns := 4
  rows := 4
  identifier := 2
  bounds := Rect.ofCorners mercatorSystem 0 1024 1024 0

theorem shows_overlapping_cells_one_square :
    let visible : Rect ℝ := Rect.ofCorners mercatorSystem 256 512 512 256
    0 < squares.tileWidth ∧ visible.isEmpty = false ∧
      visible = squares.cell visible.system 1 2 ∧
      squares.visibleTiles visible 20 0 = [⟨⟨0, squares.tile 1 2⟩, visible⟩] ∧
      ¬ ∃ t ∈ squares.visibleTiles visible 20 0, place t = (2, 2) := by
  intro visible
  have hwide : 0 < squares.tileWidth := by norm_num [squares]
  have hvisible : visible.isEmpty = false := by
    rw [Rect.isEmpty_eq_false_iff]
    norm_num [visible, Rect.ofCorners, Rect.xRange, Rect.yRange]
  have hsame : visible = squares.cell visible.system 1 2 := by
    norm_num [visible, squares, cell, Rect.ofCorners, Rect.system]
  obtain ⟨-, -, -, hsingle⟩ := shows_overlapping_cells squares visible 20 0 hwide hvisible
  have htiles := hsingle hypot_zero 1 2 ⟨by decide, by decide⟩ ⟨by decide, by decide⟩ hsame
  refine ⟨hwide, hvisible, hsame, htiles, ?_⟩
  rw [htiles]
  rintro ⟨t, ht, hplace⟩
  obtain rfl := List.mem_singleton.mp ht
  exact absurd hplace (by decide)

end Level

end MapTiles
