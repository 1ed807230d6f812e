import MapTiles.Proofs.Grid.Coverage

/-!
Symmetries of the grid in exact arithmetic. A table and a view can be reflected along an axis, so
that grids growing upwards become grids growing downwards: the same tiles are shown with the same
priorities, and their rectangles are the reflected ones. Which corner of the visible rectangle is
named first along an axis does not matter at all.
-/

namespace MapTiles

/-- One of the two coordinates of a point. -/
inductive Coordinate where
  | x
  | y

def Point.along {α : Type} (p : Point α) : Coordinate → α
  | .x => p.x
  | .y => p.y

/-- The rectangle whose two corners have exchanged a coordinate. -/
def Rect.swapped {α : Type} (r : Rect α) : Coordinate → Rect α
  | .x => ⟨{ r.topLeft with x := r.bottomRight.x }, { r.bottomRight with x := r.topLeft.x }⟩
  | .y => ⟨{ r.topLeft with y := r.bottomRight.y }, { r.bottomRight with y := r.topLeft.y }⟩

/-- Whether the two corners of a level differ in a coordinate. -/
def Level.Extends {α : Type} (l : Level α) (c : Coordinate) : Prop :=
  l.bounds.topLeft.along c ≠ l.bounds.bottomRight.along c

variable {K : Type} [Field K] [LinearOrder K]

def Point.mirrored (p : Point K) : Coordinate → Point K
  | .x => { p with x := -p.x }
  | .y => { p with y := -p.y }

def Rect.mirrored (r : Rect K) (c : Coordinate) : Rect K :=
  ⟨r.topLeft.mirrored c, r.bottomRight.mirrored c⟩

def Level.mirrored (l : Level K) (c : Coordinate) : Level K :=
  { l with bounds := l.bounds.mirrored c }

/-- The same tile with the same priority, in the reflected place. -/
def GridTile.mirrored (t : GridTile K) (c : Coordinate) : GridTile K :=
  { t with bounds := t.bounds.mirrored c }

/-- The view of the reflected rectangle on the reflected table. -/
def View.mirrored (v : View K) (c : Coordinate) : View K :=
  { v with bounds := v.bounds.mirrored c, levels := v.levels.map (·.mirrored c) }

/-- The view of the rectangle with exchanged corners. -/
def View.swapped (v : View K) (c : Coordinate) : View K :=
  { v with bounds := v.bounds.swapped c }

namespace Axis

/-- The axis of the reflected grid. -/
def reversed (a : Axis K) : Axis K :=
  ⟨-a.origin, !a.ascending⟩

variable (a : Axis K)

omit [LinearOrder K] in
theorem near_reversed (low high : K) : a.reversed.near (-high) (-low) = a.near low high := by
  cases h : a.ascending <;> simp [near, reversed, h] <;> ring

omit [LinearOrder K] in
theorem far_reversed (low high : K) : a.reversed.far (-high) (-low) = a.far low high := by
  cases h : a.ascending <;> simp [far, reversed, h] <;> ring

variable [FloorRing K] [Hypotenuse K]

theorem position_reversed (i : Int) (w : K) : a.reversed.position i w = -a.position i w := by
  cases h : a.ascending <;> simp [position_exact, reversed, h] <;> ring

variable [IsStrictOrderedRing K]

theorem indexRange_reversed (low high w : K) (count : Int) :
    a.reversed.indexRange (-high) (-low) w count = a.indexRange low high w count := by
  rw [indexRange_exact, indexRange_exact, near_reversed, far_reversed]

/-- An axis of no length ascends, reflected or not: this is where corners have to differ. -/
theorem between_neg {origin other : K} (h : origin ≠ other) :
    between (-origin) (-other) = (between origin other).reversed := by
  have hturned : decide (-origin ≤ -other) = !decide (origin ≤ other) := by
    rw [← decide_not, decide_eq_decide, neg_le_neg_iff, not_le]
    exact ⟨fun hle => lt_of_le_of_ne hle h.symm, le_of_lt⟩
  simp only [between, reversed, Scalar.le_exact, hturned]

end Axis

namespace Rect

variable (r : Rect K) (c : Coordinate)

omit [LinearOrder K] in
@[simp] theorem system_mirrored : (r.mirrored c).system = r.system := by
  cases c <;> rfl

@[simp] theorem system_swapped {α : Type} (r : Rect α) (c : Coordinate) :
    (r.swapped c).system = r.system := by
  cases c <;> rfl

variable [FloorRing K] [Hypotenuse K]

@[simp] theorem width_mirrored : (r.mirrored c).width = r.width := by
  cases c with
  | x =>
      change |-r.bottomRight.x - -r.topLeft.x| = |r.bottomRight.x - r.topLeft.x|
      rw [neg_sub_neg, abs_sub_comm]
  | y => rfl

@[simp] theorem height_mirrored : (r.mirrored c).height = r.height := by
  cases c with
  | x => rfl
  | y =>
      change |-r.bottomRight.y - -r.topLeft.y| = |r.bottomRight.y - r.topLeft.y|
      rw [neg_sub_neg, abs_sub_comm]

theorem center_mirrored : (r.mirrored c).center = r.center.mirrored c := by
  cases c <;> simp [center, mirrored, Point.mirrored, system] <;> ring

@[simp] theorem width_swapped : (r.swapped c).width = r.width := by
  cases c with
  | x => exact abs_sub_comm _ _
  | y => rfl

@[simp] theorem height_swapped : (r.swapped c).height = r.height := by
  cases c with
  | x => rfl
  | y => exact abs_sub_comm _ _

@[simp] theorem xRange_swapped : (r.swapped c).xRange = r.xRange := by
  cases c with
  | x => exact Prod.ext (min_comm _ _) (max_comm _ _)
  | y => rfl

@[simp] theorem yRange_swapped : (r.swapped c).yRange = r.yRange := by
  cases c with
  | x => rfl
  | y => exact Prod.ext (min_comm _ _) (max_comm _ _)

theorem center_swapped : (r.swapped c).center = r.center := by
  cases c <;> simp [center, swapped, system] <;> ring

@[simp] theorem isEmpty_mirrored : (r.mirrored c).isEmpty = r.isEmpty := by
  rw [isEmpty, width_mirrored, height_mirrored, isEmpty]

@[simp] theorem isEmpty_swapped : (r.swapped c).isEmpty = r.isEmpty := by
  rw [isEmpty, width_swapped, height_swapped, isEmpty]

variable [IsStrictOrderedRing K]

theorem xRange_mirrored : (r.mirrored .x).xRange = (-r.xRange.2, -r.xRange.1) :=
  Prod.ext (min_neg_neg _ _) (max_neg_neg _ _)

theorem yRange_mirrored : (r.mirrored .y).yRange = (-r.yRange.2, -r.yRange.1) :=
  Prod.ext (min_neg_neg _ _) (max_neg_neg _ _)

end Rect

variable [FloorRing K] [Hypotenuse K] [IsStrictOrderedRing K]

namespace Level

variable {l : Level K} {c : Coordinate}

theorem columnAxis_mirrored (h : l.Extends .x) :
    (l.mirrored .x).columnAxis = l.columnAxis.reversed :=
  Axis.between_neg h

theorem rowAxis_mirrored (h : l.Extends .y) : (l.mirrored .y).rowAxis = l.rowAxis.reversed :=
  Axis.between_neg h

theorem columnRange_mirrored (h : l.Extends c) (visible : Rect K) :
    (l.mirrored c).columnRange (visible.mirrored c) = l.columnRange visible := by
  cases c with
  | x =>
      rw [columnRange, columnAxis_mirrored h, Rect.xRange_mirrored]
      exact Axis.indexRange_reversed _ _ _ _ _
  | y => rfl

theorem rowRange_mirrored (h : l.Extends c) (visible : Rect K) :
    (l.mirrored c).rowRange (visible.mirrored c) = l.rowRange visible := by
  cases c with
  | x => rfl
  | y =>
      rw [rowRange, rowAxis_mirrored h, Rect.yRange_mirrored]
      exact Axis.indexRange_reversed _ _ _ _ _

theorem tileBounds_mirrored (h : l.Extends c) (system column row : Int) :
    (l.mirrored c).tileBounds system column row = (l.tileBounds system column row).mirrored c := by
  cases c with
  | x =>
      rw [tileBounds, columnAxis_mirrored h, Axis.position_reversed, Axis.position_reversed]
      rfl
  | y =>
      rw [tileBounds, rowAxis_mirrored h, Axis.position_reversed, Axis.position_reversed]
      rfl

section Reflection

variable (heven : ∀ a b : K, Hypotenuse.hypot (-a) b = Hypotenuse.hypot a b ∧
  Hypotenuse.hypot a (-b) = Hypotenuse.hypot a b)

include heven

omit [IsStrictOrderedRing K] in
/-- Distances between reflected centers are the same. -/
theorem distanceBucket_mirrored (l : Level K) (c : Coordinate) (visible tile : Rect K)
    (buckets : Nat) :
    (l.mirrored c).distanceBucket (visible.mirrored c) (tile.mirrored c) buckets =
      l.distanceBucket visible tile buckets := by
  have hopposite (a b m : K) : 1 / 2 * (-a + -b) - -m = -(1 / 2 * (a + b) - m) := by ring
  have hdistance : Hypotenuse.hypot
        (1 / 2 * ((tile.mirrored c).topLeft.x + (tile.mirrored c).bottomRight.x) -
          (visible.mirrored c).center.x)
        (1 / 2 * ((tile.mirrored c).topLeft.y + (tile.mirrored c).bottomRight.y) -
          (visible.mirrored c).center.y) =
      Hypotenuse.hypot (1 / 2 * (tile.topLeft.x + tile.bottomRight.x) - visible.center.x)
        (1 / 2 * (tile.topLeft.y + tile.bottomRight.y) - visible.center.y) := by
    rw [Rect.center_mirrored]
    cases c with
    | x =>
        simp only [Rect.mirrored, Point.mirrored, hopposite]
        exact (heven _ _).1
    | y =>
        simp only [Rect.mirrored, Point.mirrored, hopposite]
        exact (heven _ _).2
  simp only [distanceBucket, Rect.width_mirrored, Rect.height_mirrored, Scalar.half_exact,
    Scalar.hypot_exact, hdistance]
  rfl

theorem placed_mirrored (h : l.Extends c) (visible : Rect K) (buckets offset : Nat)
    (column row : Int) :
    (l.mirrored c).placed (visible.mirrored c) buckets offset column row =
      (l.placed visible buckets offset column row).mirrored c := by
  simp only [placed, Rect.system_mirrored, tileBounds_mirrored h, distanceBucket_mirrored heven]
  rfl

theorem visibleTiles_mirrored (h : l.Extends c) (visible : Rect K) (buckets offset : Nat) :
    (l.mirrored c).visibleTiles (visible.mirrored c) buckets offset =
      (l.visibleTiles visible buckets offset).map (·.mirrored c) := by
  rw [visibleTiles_eq, visibleTiles_eq, columnRange_mirrored h, rowRange_mirrored h]
  change (if l.drawable then _ else _) = _
  split
  · simp only [List.map_flatMap, List.map_map, Function.comp_def, placed_mirrored heven h]
  · rfl

end Reflection

omit [IsStrictOrderedRing K] in
theorem visibleTiles_swapped (l : Level K) (c : Coordinate) (visible : Rect K)
    (buckets offset : Nat) :
    l.visibleTiles (visible.swapped c) buckets offset = l.visibleTiles visible buckets offset := by
  have hplaced (column row : Int) :
      l.placed (visible.swapped c) buckets offset column row =
        l.placed visible buckets offset column row := by
    simp only [placed, distanceBucket, Rect.system_swapped, Rect.center_swapped,
      Rect.width_swapped, Rect.height_swapped]
  simp only [visibleTiles_eq, columnRange, rowRange, Rect.xRange_swapped, Rect.yRange_swapped,
    hplaced]

end Level

namespace View

omit [IsStrictOrderedRing K] in
theorem target?_mirrored (v : View K) (c : Coordinate) : (v.mirrored c).target? = v.target? := by
  have hreaches : Level.reaches v.zoom v.rule ∘ (fun l : Level K => l.mirrored c) =
      Level.reaches v.zoom v.rule := rfl
  simp only [target?, mirrored, Level.targetIndex?_eq, List.findIdx?_map, hreaches,
    List.isEmpty_map, List.length_map]

omit [IsStrictOrderedRing K] in
theorem drawn_mirrored (v : View K) (c : Coordinate) :
    (v.mirrored c).drawn = v.drawn.map fun entry => (entry.1, entry.2.mirrored c) := by
  rw [drawn, target?_mirrored, drawn]
  cases v.target? with
  | none => rfl
  | some target =>
      simp only [drawnLevels, mirrored, ← List.map_drop, ← List.map_take,
        List.mapIdx_eq_zipIdx_map, List.zipIdx_map, List.map_map]
      rfl

/-- Reflecting the table and the visible rectangle along an axis reflects the rectangles of the
tiles, and changes neither the tiles nor their order nor their priorities. Exchanging the corners
of the visible rectangle along an axis changes nothing. -/
theorem tiles_symmetric
    (heven : ∀ a b : K, Hypotenuse.hypot (-a) b = Hypotenuse.hypot a b ∧
      Hypotenuse.hypot a (-b) = Hypotenuse.hypot a b)
    (v : View K) :
    (∀ c, (∀ l ∈ v.levels, l.Extends c) →
        (v.mirrored c).tiles = v.tiles.map (·.mirrored c)) ∧
      ∀ c, (v.swapped c).tiles = v.tiles := by
  constructor
  · intro c hextends
    have hcontribution : ∀ entry ∈ v.drawn,
        (v.mirrored c).contribution (entry.1, entry.2.mirrored c) =
          (v.contribution entry).map (·.mirrored c) := by
      intro entry hentry
      have h := hextends entry.2 (mem_levels_of_mem_drawn hentry)
      rw [contribution, contribution]
      change (if v.allows entry.2 then _ else _) = _
      split
      · exact Level.visibleTiles_mirrored heven h _ _ _
      · rfl
    have hblank : (v.mirrored c).blank = v.blank :=
      congrArg (· || _) (Rect.isEmpty_mirrored v.bounds c)
    rw [tiles_eq, tiles_eq, hblank, drawn_mirrored]
    split
    · rfl
    · rw [List.flatMap_map, List.map_flatMap]
      exact List.flatMap_congr hcontribution
  · intro c
    have hblank : (v.swapped c).blank = v.blank :=
      congrArg (· || _) (Rect.isEmpty_swapped v.bounds c)
    have hcontribution : (v.swapped c).contribution = v.contribution := by
      funext entry
      rw [contribution, contribution]
      change (if v.allows entry.2 then _ else _) = _
      split
      · exact Level.visibleTiles_swapped _ _ _ _ _
      · rfl
    rw [tiles_eq, tiles_eq, hblank, hcontribution]
    rfl

/-- A view of the third square of the second column. -/
noncomputable def squareView : View ℝ where
  bounds := Level.squares.cell mercatorSystem 1 2
  zoom := 0
  levels := [Level.squares]
  rule := ZoomRule.standard
  buckets := 20
  lowest := none
  highest := none

theorem bounds_squareView : squareView.bounds = Rect.ofCorners mercatorSystem 256 512 512 256 := by
  norm_num [squareView, Level.squares, Level.cell, Rect.ofCorners]

theorem tiles_squareView :
    squareView.tiles = [⟨⟨0, Level.squares.tile 1 2⟩, squareView.bounds⟩] := by
  have hwide : 0 < Level.squares.tileWidth := by norm_num [Level.squares]
  have hvisible : squareView.bounds.isEmpty = false := by
    rw [bounds_squareView, Rect.isEmpty_eq_false_iff]
    norm_num [Rect.ofCorners, Rect.xRange, Rect.yRange]
  have htarget : squareView.target? = some 0 :=
    Level.targetIndex?_eq_some_iff.mpr
      ⟨[], Level.squares, [], rfl, rfl, List.forall_mem_nil _, .inr rfl⟩
  have hdrawn : squareView.drawn = [(0, Level.squares)] := by
    rw [drawn, htarget]
    rfl
  have hblank : squareView.blank = false := by
    rw [blank, hvisible]
    rfl
  rw [tiles_eq, hblank, hdrawn, if_neg Bool.false_ne_true, List.flatMap_singleton]
  exact Level.visibleTiles_cell hypot_zero hwide hvisible ⟨by decide, by decide⟩
    ⟨by decide, by decide⟩ rfl 20 0

theorem tiles_symmetric_square :
    (∀ a b : ℝ, Hypotenuse.hypot (-a) b = Hypotenuse.hypot a b ∧
        Hypotenuse.hypot a (-b) = Hypotenuse.hypot a b) ∧
      (∀ l ∈ squareView.levels, l.Extends .y) ∧
      (squareView.mirrored .y).tiles =
        [⟨⟨0, Level.squares.tile 1 2⟩, Rect.ofCorners mercatorSystem 256 (-512) 512 (-256)⟩] ∧
      (squareView.swapped .x).tiles =
        [⟨⟨0, Level.squares.tile 1 2⟩, Rect.ofCorners mercatorSystem 256 512 512 256⟩] := by
  have heven : ∀ a b : ℝ, Hypotenuse.hypot (-a) b = Hypotenuse.hypot a b ∧
      Hypotenuse.hypot a (-b) = Hypotenuse.hypot a b := by
    intro a b
    change √((-a) ^ 2 + b ^ 2) = √(a ^ 2 + b ^ 2) ∧ √(a ^ 2 + (-b) ^ 2) = √(a ^ 2 + b ^ 2)
    rw [neg_sq, neg_sq]
    exact ⟨rfl, rfl⟩
  have hextends : ∀ l ∈ squareView.levels, l.Extends .y := by
    intro l hl
    obtain rfl := List.mem_singleton.mp hl
    norm_num [Level.Extends, Point.along, Level.squares, Rect.ofCorners]
  obtain ⟨hmirrored, hswapped⟩ := tiles_symmetric heven squareView
  refine ⟨heven, hextends, ?_, ?_⟩
  · rw [hmirrored .y hextends, tiles_squareView, bounds_squareView]
    rfl
  · rw [hswapped, tiles_squareView, bounds_squareView]

end View

end MapTiles
