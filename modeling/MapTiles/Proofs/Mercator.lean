import MapTiles.Layer
import MapTiles.Proofs.Grid.Coverage
import Mathlib.Tactic.NormNum

/-!
What a Web Mercator layer shows of the world, in exact arithmetic. The tiles of every level fill the
same square, that of the one tile of level zero, whose side is the base tile width. The side of the
world is twice the extent, which is about two thirds of a metre more. So all views are covered up to
a strip along the eastern and the southern edge of the world, and a view inside the strip has no
tiles.
-/

namespace MapTiles

variable {K : Type} [Field K] [LinearOrder K] [FloorRing K] [Hypotenuse K]

namespace Mercator

/-- Half the side of the world as the number that it is. -/
def reach : K := Dyadic64.value ⟨false, 5378777688351703, -28⟩

theorem ofBinary64_extent : (Scalar.ofBinary64 (Binary64.ofFloat extent) : K) = reach := by
  have hvalue : Dyadic64.ofFloat? (Binary64.ofFloat extent).toFloat =
      some ⟨false, 5378777688351703, -28⟩ := by decide +kernel
  change ((Dyadic64.ofFloat? (Binary64.ofFloat extent).toFloat).map Dyadic64.value).getD 0 = _
  rw [hvalue]
  rfl

theorem world_exact :
    (world : Rect K) = Rect.ofCorners mercatorSystem (-reach) reach reach (-reach) := by
  simp only [world, ofBinary64_extent, Scalar.ofInt_exact, Int.cast_zero, zero_sub]

theorem tileWidth_level (n : Nat) :
    (level n : Level K).tileWidth = (baseTileWidth : K) / ((Nat.pow 2 n : Nat) : K) := by
  simp only [level, Scalar.ofInt_exact, Int.cast_natCast]

/-- The columns of a level, and so its rows, are together as wide as the tile of level zero. -/
theorem count_mul_tileWidth (n : Nat) :
    (((Nat.pow 2 n : Nat) : Int) : K) * (level n : Level K).tileWidth = baseTileWidth := by
  have hcount : ((Nat.pow 2 n : Nat) : K) ≠ 0 := by exact_mod_cast (Nat.two_pow_pos n).ne'
  rw [tileWidth_level, Int.cast_natCast]
  exact mul_div_cancel₀ _ hcount

/-- The levels of a layer, whatever the order in which they stand. -/
theorem mem_sort_levels {lowest highest : Nat} {l : Level K} :
    l ∈ Level.sort (levels lowest highest) ↔ ∃ n, (lowest ≤ n ∧ n ≤ highest) ∧ l = level n := by
  rw [Level.sort, List.mem_mergeSort]
  simp only [levels, List.mem_map, List.mem_range]
  constructor
  · rintro ⟨i, hi, rfl⟩
    exact ⟨lowest + i, by omega, rfl⟩
  · rintro ⟨n, hn, rfl⟩
    refine ⟨n - lowest, by omega, ?_⟩
    rw [Nat.add_sub_cancel' hn.1]

/-- Every level drawn is one of the table. -/
theorem drawn_level {v : View K} {lowest highest : Nat}
    (htable : v.levels = Level.sort (levels lowest highest)) {entry : Nat × Level K}
    (h : entry ∈ v.drawn) : ∃ n, entry.2 = level n := by
  obtain ⟨i, htarget⟩ := View.target_of_mem_drawn h
  obtain ⟨-, -, hl⟩ := (View.mem_drawn_iff htarget).mp h
  obtain ⟨n, -, hlevel⟩ := mem_sort_levels.mp (htable ▸ List.mem_of_getElem? hl)
  exact ⟨n, hlevel⟩

variable [IsStrictOrderedRing K]

omit [Hypotenuse K] in
theorem reach_pos : 0 < (reach : K) := by
  norm_num [reach, Dyadic64.value]

theorem xRange_world : (world : Rect K).xRange = (-reach, reach) := by
  have hborder : (-reach : K) ≤ reach := neg_le_self reach_pos.le
  simp [world_exact, Rect.ofCorners, Rect.xRange, hborder]

theorem yRange_world : (world : Rect K).yRange = (-reach, reach) := by
  have hborder : (-reach : K) ≤ reach := neg_le_self reach_pos.le
  simp [world_exact, Rect.ofCorners, Rect.yRange, hborder]

theorem columnAxis_level (n : Nat) : (level n : Level K).columnAxis = ⟨-reach, true⟩ := by
  have hreach : (-reach : K) ≤ reach := neg_le_self reach_pos.le
  simp [Level.columnAxis, Axis.between, level, world_exact, Rect.ofCorners, hreach]

theorem rowAxis_level (n : Nat) : (level n : Level K).rowAxis = ⟨reach, false⟩ := by
  have hreach : ¬ (reach : K) ≤ -reach := by linarith [reach_pos (K := K)]
  simp [Level.rowAxis, Axis.between, level, world_exact, Rect.ofCorners, hreach]

theorem tileWidth_pos (n : Nat) : 0 < (level n : Level K).tileWidth := by
  rw [tileWidth_level]
  apply div_pos
  · norm_num [baseTileWidth]
  · exact_mod_cast Nat.two_pow_pos n

/-- The square that the tiles of every level fill: the tile of level zero. -/
def tiledSquare : Rect K :=
  Rect.ofCorners mercatorSystem (-reach) reach (-reach + baseTileWidth) (reach - baseTileWidth)

omit [FloorRing K] [Hypotenuse K] in
theorem baseTileWidth_pos : 0 < (baseTileWidth : K) := by
  norm_num [baseTileWidth]

theorem xRange_tiledSquare :
    (tiledSquare : Rect K).xRange = (-reach, -reach + (baseTileWidth : K)) := by
  have hside : (-reach : K) ≤ -reach + baseTileWidth := by linarith [baseTileWidth_pos (K := K)]
  simp only [tiledSquare, Rect.ofCorners, Rect.xRange, Scalar.min_exact, Scalar.max_exact,
    min_eq_left hside, max_eq_right hside]

theorem yRange_tiledSquare :
    (tiledSquare : Rect K).yRange = (reach - (baseTileWidth : K), reach) := by
  have hside : (reach - baseTileWidth : K) ≤ reach := by linarith [baseTileWidth_pos (K := K)]
  simp only [tiledSquare, Rect.ofCorners, Rect.yRange, Scalar.min_exact, Scalar.max_exact,
    min_eq_right hside, max_eq_left hside]

/-- On every level the square is a single cell of the base tile width. -/
theorem tiledSquare_eq_cell (n : Nat) :
    (tiledSquare : Rect K).xRange = (level n : Level K).columnAxis.cell 0 baseTileWidth ∧
      (tiledSquare : Rect K).yRange = (level n : Level K).rowAxis.cell 0 baseTileWidth := by
  rw [xRange_tiledSquare, yRange_tiledSquare, columnAxis_level, rowAxis_level,
    Axis.cell_exact _ _ baseTileWidth_pos, Axis.cell_exact _ _ baseTileWidth_pos]
  simp

/-- A view of the world starts on a level at the corner of the world or behind it. -/
theorem near_nonneg (n : Nat) {visible : Rect K} (hworld : visible.Within world) :
    0 ≤ (level n : Level K).columnAxis.near visible.xRange.1 visible.xRange.2 ∧
      0 ≤ (level n : Level K).rowAxis.near visible.yRange.1 visible.yRange.2 := by
  obtain ⟨⟨hwest, -⟩, -, hnorth⟩ := hworld
  rw [xRange_world] at hwest
  rw [yRange_world] at hnorth
  rw [columnAxis_level, rowAxis_level]
  constructor
  · exact sub_nonneg.mpr hwest
  · exact sub_nonneg.mpr hnorth

/-- The tiles of a level cover what a view of the world sees of the square. -/
theorem exists_tile (n : Nat) {visible : Rect K} (hvisible : visible.isEmpty = false)
    (hworld : visible.Within world) (hmeets : 0 < tiledSquare.sharedArea visible) {x y : K}
    (hin : visible.Contains x y) (htiled : tiledSquare.Contains x y) (buckets offset : Nat) :
    ∃ t ∈ (level n : Level K).visibleTiles visible buckets offset,
      t.request.tile.level = n ∧ t.bounds.Contains x y := by
  obtain ⟨hx, hy⟩ := Rect.isEmpty_eq_false_iff.mp hvisible
  obtain ⟨hwest, hnorth⟩ := near_nonneg n hworld
  rw [Rect.sharedArea_pos_iff, (tiledSquare_eq_cell n).1, (tiledSquare_eq_cell n).2] at hmeets
  rw [Rect.Contains, (tiledSquare_eq_cell n).1, (tiledSquare_eq_cell n).2] at htiled
  obtain ⟨column, hcolumn, hacross, hxin⟩ := (level n : Level K).columnAxis.exists_cell
    (tileWidth_pos n) baseTileWidth_pos (count_mul_tileWidth n) hx hwest hmeets.1 hin.1 htiled.1
  obtain ⟨row, hrow, hdown, hyin⟩ := (level n : Level K).rowAxis.exists_cell
    (tileWidth_pos n) baseTileWidth_pos (count_mul_tileWidth n) hy hnorth hmeets.2 hin.2 htiled.2
  have hshown : 0 < ((level n : Level K).tileBounds visible.system column row).sharedArea visible :=
    Rect.sharedArea_pos_iff.mpr ⟨hacross, hdown⟩
  rw [Level.tileBounds_exact] at hshown
  obtain ⟨hcolumns, hrows⟩ :=
    (Level.shown_iff (tileWidth_pos n) hvisible column row).mpr ⟨hcolumn, hrow, hshown⟩
  refine ⟨(level n : Level K).placed visible buckets offset column row, ?_, rfl, hxin, hyin⟩
  exact Level.mem_visibleTiles_iff.mpr ⟨(Level.drawable_exact _).mpr (tileWidth_pos n),
    column, row, hcolumns, hrows, rfl⟩

/-- A level has no tile for a view that shares no area with the square. -/
theorem visibleTiles_eq_nil (n : Nat) {visible : Rect K} (hvisible : visible.isEmpty = false)
    (hoff : ¬ 0 < tiledSquare.sharedArea visible) (buckets offset : Nat) :
    (level n : Level K).visibleTiles visible buckets offset = [] := by
  obtain ⟨hx, hy⟩ := Rect.isEmpty_eq_false_iff.mp hvisible
  apply List.eq_nil_iff_forall_not_mem.mpr
  intro t ht
  obtain ⟨-, column, row, hcolumn, hrow, rfl⟩ := Level.mem_visibleTiles_iff.mp ht
  obtain ⟨hcolumns, hrows, hshared⟩ :=
    (Level.shown_iff (tileWidth_pos n) hvisible column row).mp ⟨hcolumn, hrow⟩
  rw [← Level.tileBounds_exact] at hshared
  obtain ⟨hacross, hdown⟩ := Rect.sharedArea_pos_iff.mp hshared
  apply hoff
  rw [Rect.sharedArea_pos_iff, (tiledSquare_eq_cell n).1, (tiledSquare_eq_cell n).2]
  constructor
  · exact (level n : Level K).columnAxis.sharedLength_grid_pos (tileWidth_pos n) baseTileWidth_pos
      (count_mul_tileWidth n) hx hcolumns hacross
  · exact (level n : Level K).rowAxis.sharedLength_grid_pos (tileWidth_pos n) baseTileWidth_pos
      (count_mul_tileWidth n) hy hrows hdown

/-- The strips of the world that no level reaches, at its eastern and at its southern edge. -/
theorem width_of_strips :
    (67 / 100 < (world : Rect K).xRange.2 - (tiledSquare : Rect K).xRange.2 ∧
        (world : Rect K).xRange.2 - (tiledSquare : Rect K).xRange.2 < 69 / 100) ∧
      67 / 100 < (tiledSquare : Rect K).yRange.1 - (world : Rect K).yRange.1 ∧
        (tiledSquare : Rect K).yRange.1 - (world : Rect K).yRange.1 < 69 / 100 := by
  rw [xRange_world, yRange_world, xRange_tiledSquare, yRange_tiledSquare]
  norm_num [reach, Dyadic64.value, baseTileWidth]

/-- A view that sees nothing of the square is shown nothing. -/
theorem tiles_eq_nil {v : View K} {lowest highest : Nat}
    (htable : v.levels = Level.sort (levels lowest highest))
    (hvisible : v.bounds.isEmpty = false) (hoff : ¬ 0 < tiledSquare.sharedArea v.bounds) :
    v.tiles = [] := by
  apply List.eq_nil_iff_forall_not_mem.mpr
  intro t ht
  obtain ⟨x, hx, rfl⟩ := List.mem_map.mp (v.map_ranked ▸ ht)
  obtain ⟨-, l, hdrawn, hcontribution⟩ := View.mem_ranked_iff.mp hx
  obtain ⟨n, rfl⟩ := drawn_level htable hdrawn
  rw [View.contribution, visibleTiles_eq_nil n hvisible hoff, ite_self] at hcontribution
  cases hcontribution

/-- On a view of the world without a window, the tiles of the target level cover all that the view
sees of the square, which is the world but for two strips of less than a metre. A view that sees
nothing of the square is shown nothing. -/
theorem covers_tiled_square (layer : WebLayer) (v : View K)
    (htable : v.levels = Level.sort (levels layer.lowest layer.highest))
    (hlowest : v.lowest = none) (hhighest : v.highest = none)
    (hvisible : v.bounds.isEmpty = false) (hworld : v.bounds.Within world) :
    ((67 / 100 < (world : Rect K).xRange.2 - (tiledSquare : Rect K).xRange.2 ∧
        (world : Rect K).xRange.2 - (tiledSquare : Rect K).xRange.2 < 69 / 100) ∧
      67 / 100 < (tiledSquare : Rect K).yRange.1 - (world : Rect K).yRange.1 ∧
        (tiledSquare : Rect K).yRange.1 - (world : Rect K).yRange.1 < 69 / 100) ∧
      ∃ i n, (layer.lowest ≤ n ∧ n ≤ layer.highest) ∧ v.target? = some i ∧
        v.levels[i]? = some (level n) ∧
        (0 < tiledSquare.sharedArea v.bounds → v.tiles ≠ [] ∧
          ∀ x y, v.bounds.Contains x y → tiledSquare.Contains x y →
            ∃ t ∈ v.tiles, t.request.tile.level = n ∧ t.bounds.Contains x y) ∧
        (¬ 0 < tiledSquare.sharedArea v.bounds → v.tiles = []) := by
  have hfirst : (level layer.lowest : Level K) ∈ v.levels := by
    rw [htable]
    exact mem_sort_levels.mpr ⟨layer.lowest, ⟨Nat.le_refl _, layer.lowest_le⟩, rfl⟩
  obtain ⟨i, l, htarget, hl⟩ := View.exists_target (List.ne_nil_of_mem hfirst)
  obtain ⟨n, hn, rfl⟩ := mem_sort_levels.mp (htable ▸ List.mem_of_getElem? hl)
  have hcontribution : ∀ t ∈ v.contribution (0, level n), t ∈ v.tiles := by
    intro t ht
    have hblank : v.blank = false := by simp [View.blank, hvisible]
    have hdrawn : (0, level n) ∈ v.drawn :=
      (View.mem_drawn_iff htarget).mpr ⟨Nat.zero_le _, Nat.zero_le _, hl⟩
    rw [← v.map_ranked]
    exact List.mem_map.mpr ⟨(0, t), View.mem_ranked_iff.mpr ⟨hblank, level n, hdrawn, ht⟩, rfl⟩
  have hcovered : 0 < tiledSquare.sharedArea v.bounds → ∀ x y, v.bounds.Contains x y →
      tiledSquare.Contains x y →
        ∃ t ∈ v.tiles, t.request.tile.level = n ∧ t.bounds.Contains x y := by
    intro hmeets x y hin htiled
    obtain ⟨t, ht, hlevel, hcontains⟩ := exists_tile n hvisible hworld hmeets hin htiled
      v.bucketCount (min (0 * v.bucketCount) priorityLimit)
    refine ⟨t, hcontribution t ?_, hlevel, hcontains⟩
    rw [View.contribution, if_pos (by simp [View.allows, hlowest, hhighest])]
    exact ht
  refine ⟨width_of_strips, i, n, hn, htarget, hl, ?_, tiles_eq_nil htable hvisible⟩
  intro hmeets
  obtain ⟨x, y, htiled, hin⟩ := Rect.exists_common_point hmeets
  obtain ⟨t, ht, -⟩ := hcovered hmeets x y hin htiled
  exact ⟨List.ne_nil_of_mem ht, hcovered hmeets⟩

/-- A layer of the default depth. -/
def served : WebLayer where
  name := "world"
  template := ⟨"{z}/{x}/{y}".toList, by intro p; cases p <;> decide⟩
  lowest := 0
  highest := 20
  lowest_le := by decide
  highest_le := by decide

/-- A view of a rectangle on the layer, so coarse that the level of a single tile is its target. -/
noncomputable def seen (bounds : Rect ℝ) : View ℝ where
  bounds := bounds
  zoom := 1000000000
  levels := Level.sort (levels served.lowest served.highest)
  rule := ZoomRule.standard
  buckets := 20
  lowest := none
  highest := none

/-- A rectangle of the world next to its eastern edge. -/
noncomputable def easternEdge : Rect ℝ :=
  Rect.ofCorners mercatorSystem 20037507.9 10 20037508.2 0

theorem covers_tiled_square_but_edge :
    (world : Rect ℝ).isEmpty = false ∧ easternEdge.isEmpty = false ∧ easternEdge.Within world ∧
      (seen world).tiles ≠ [] ∧ (seen easternEdge).tiles = [] := by
  have hworld : (world : Rect ℝ).isEmpty = false := by
    rw [Rect.isEmpty_eq_false_iff, xRange_world, yRange_world]
    norm_num [reach, Dyadic64.value]
  have hedge : easternEdge.isEmpty = false := by
    rw [Rect.isEmpty_eq_false_iff]
    norm_num [easternEdge, Rect.ofCorners, Rect.xRange, Rect.yRange]
  have hwithin : easternEdge.Within world := by
    rw [Rect.Within, xRange_world, yRange_world]
    norm_num [easternEdge, Rect.ofCorners, Rect.xRange, Rect.yRange, reach,
      Dyadic64.value]
  refine ⟨hworld, hedge, hwithin, ?_, ?_⟩
  · obtain ⟨-, _, _, _, _, _, hseen, _⟩ :=
      covers_tiled_square served (seen world) rfl rfl rfl hworld ⟨⟨le_rfl, le_rfl⟩, le_rfl, le_rfl⟩
    have hmeets : 0 < tiledSquare.sharedArea (world : Rect ℝ) := by
      rw [Rect.sharedArea_pos_iff, sharedLength_pos_iff, sharedLength_pos_iff, xRange_tiledSquare,
        yRange_tiledSquare, xRange_world, yRange_world]
      norm_num [reach, Dyadic64.value, baseTileWidth]
    exact (hseen hmeets).1
  · obtain ⟨-, _, _, _, _, _, _, hunseen⟩ :=
      covers_tiled_square served (seen easternEdge) rfl rfl rfl hedge hwithin
    apply hunseen
    rw [Rect.sharedArea_pos_iff, sharedLength_pos_iff, xRange_tiledSquare]
    norm_num [seen, easternEdge, Rect.ofCorners, Rect.xRange, reach, Dyadic64.value,
      baseTileWidth]

end Mercator

end MapTiles
