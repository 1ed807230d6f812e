import MapTiles.Proofs.Grid
import MapTiles.Proofs.Scalar
import Mathlib.Tactic.Linarith

/-!
Grids of cells in exact arithmetic. Along one axis the cells follow one another from the start of
the axis, in whichever direction it ascends, and the range of indices for an interval holds the
cells of the grid that share a length with it. These cells cover what the interval has of the grid.
-/

namespace MapTiles

variable {K : Type} [Field K] [LinearOrder K] [FloorRing K] [Hypotenuse K]

/-- The length that two intervals have in common. -/
def sharedLength (a b : K × K) : K :=
  max 0 (min a.2 b.2 - max a.1 b.1)

/-- The area that two rectangles have in common. -/
def Rect.sharedArea (r s : Rect K) : K :=
  sharedLength r.xRange s.xRange * sharedLength r.yRange s.yRange

/-- Whether a point lies in a rectangle, its border included. -/
def Rect.Contains (r : Rect K) (x y : K) : Prop :=
  (r.xRange.1 ≤ x ∧ x ≤ r.xRange.2) ∧ r.yRange.1 ≤ y ∧ y ≤ r.yRange.2

/-- Whether a rectangle lies in another. -/
def Rect.Within (r s : Rect K) : Prop :=
  (s.xRange.1 ≤ r.xRange.1 ∧ r.xRange.2 ≤ s.xRange.2) ∧
    s.yRange.1 ≤ r.yRange.1 ∧ r.yRange.2 ≤ s.yRange.2

variable [IsStrictOrderedRing K]

omit [FloorRing K] [Hypotenuse K] in
theorem sharedLength_pos_iff {a b : K × K} :
    0 < sharedLength a b ↔ max a.1 b.1 < min a.2 b.2 := by
  rw [sharedLength, lt_max_iff, sub_pos]
  constructor
  · intro h
    exact h.resolve_left (lt_irrefl 0)
  · exact Or.inr

theorem Rect.sharedArea_pos_iff {r s : Rect K} :
    0 < r.sharedArea s ↔
      0 < sharedLength r.xRange s.xRange ∧ 0 < sharedLength r.yRange s.yRange := by
  have hx : 0 ≤ sharedLength r.xRange s.xRange := le_max_left _ _
  have hy : 0 ≤ sharedLength r.yRange s.yRange := le_max_left _ _
  constructor
  · intro h
    exact ⟨pos_of_mul_pos_left h hy, pos_of_mul_pos_right h hx⟩
  · rintro ⟨hx, hy⟩
    exact mul_pos hx hy

/-- Rectangles that share an area have a point in common. -/
theorem Rect.exists_common_point {r s : Rect K} (h : 0 < r.sharedArea s) :
    ∃ x y, r.Contains x y ∧ s.Contains x y := by
  obtain ⟨hacross, hdown⟩ := sharedArea_pos_iff.mp h
  have hx := (sharedLength_pos_iff.mp hacross).le
  have hy := (sharedLength_pos_iff.mp hdown).le
  refine ⟨max r.xRange.1 s.xRange.1, max r.yRange.1 s.yRange.1, ?_, ?_⟩
  · exact ⟨⟨le_max_left _ _, hx.trans (min_le_left _ _)⟩,
      le_max_left _ _, hy.trans (min_le_left _ _)⟩
  · exact ⟨⟨le_max_right _ _, hx.trans (min_le_right _ _)⟩,
      le_max_right _ _, hy.trans (min_le_right _ _)⟩

theorem Rect.isEmpty_eq_false_iff {r : Rect K} :
    r.isEmpty = false ↔ r.xRange.1 < r.xRange.2 ∧ r.yRange.1 < r.yRange.2 := by
  have hside (a b : K) : |b - a| ≤ 0 ↔ ¬ min a b < max a b := by
    rw [abs_nonpos_iff, sub_eq_zero, min_lt_max, not_not]
    exact eq_comm
  simp [Rect.isEmpty, Rect.width, Rect.height, Rect.xRange, Rect.yRange, hside]

namespace Axis

variable (a : Axis K)

/-- The interval of the cell at an index. -/
def cell (i : Int) (w : K) : K × K :=
  (min (a.position i w) (a.position (i + 1) w), max (a.position i w) (a.position (i + 1) w))

/-- How far the nearer end of an interval lies from the start of the axis. -/
def near (low high : K) : K :=
  if a.ascending then low - a.origin else a.origin - high

/-- How far the farther end of an interval lies from the start of the axis. -/
def far (low high : K) : K :=
  if a.ascending then high - a.origin else a.origin - low

/-- How far a coordinate lies from the start of the axis, in the direction of its indices. -/
def offset (x : K) : K :=
  if a.ascending then x - a.origin else a.origin - x

theorem indexRange_exact (low high w : K) (count : Int) :
    a.indexRange low high w count =
      (min ⌊max (a.near low high) 0 / w⌋ (max count 0),
        if ⌈a.far low high / w⌉ < 0 then 0
        else if max count 0 < ⌈a.far low high / w⌉ then max count 0
        else ⌈a.far low high / w⌉) := by
  have hclamp := Scalar.clamp_intCast (K := K) 0 (max count 0) ⌈a.far low high / w⌉
  simp only [Int.cast_zero] at hclamp
  simp only [indexRange, Scalar.ofInt_exact, Scalar.min_exact, Scalar.max_exact,
    Scalar.floor_exact, Scalar.ceil_exact, Int.cast_zero]
  rw [← Int.cast_min, Scalar.toInt_intCast]
  congr 1
  exact (congrArg Scalar.toInt hclamp).trans (Scalar.toInt_intCast _)

theorem mem_indexRange_iff {low high w : K} {count i : Int} (hw : 0 < w) :
    ((a.indexRange low high w count).1 ≤ i ∧ i < (a.indexRange low high w count).2) ↔
      (0 ≤ i ∧ i < count) ∧ a.near low high < (i + 1) * w ∧ i * w < a.far low high := by
  rw [indexRange_exact]
  have hfirst : ⌊max (a.near low high) 0 / w⌋ ≤ i ↔
      a.near low high < (i + 1) * w ∧ 0 < (i + 1) * w := by
    rw [Int.floor_le_iff, div_lt_iff₀ hw, max_lt_iff]
  have hlast : i < ⌈a.far low high / w⌉ ↔ i * w < a.far low high := by
    rw [Int.lt_ceil, lt_div_iff₀ hw]
  have hstart : 0 ≤ ⌊max (a.near low high) 0 / w⌋ := by
    apply Int.floor_nonneg.mpr
    exact div_nonneg (le_max_right _ _) hw.le
  have hpositive : 0 ≤ i → 0 < ((i : K) + 1) * w := by
    intro hi
    have hi : (0 : K) ≤ i := Int.cast_nonneg hi
    exact mul_pos (by linarith) hw
  -- the two ends as integers, whatever they are cut off at
  have hcut : ∀ first last : Int, 0 ≤ first →
      ((min first (max count 0) ≤ i ∧ i < if last < 0 then 0
          else if max count 0 < last then max count 0 else last) ↔
        (0 ≤ i ∧ i < count) ∧ first ≤ i ∧ i < last) := by
    intro first last hfirst
    split
    · omega
    · split <;> omega
  rw [hcut _ _ hstart, hfirst, hlast]
  constructor
  · rintro ⟨hgrid, ⟨hnear, -⟩, hfar⟩
    exact ⟨hgrid, hnear, hfar⟩
  · rintro ⟨hgrid, hnear, hfar⟩
    exact ⟨hgrid, ⟨hnear, hpositive hgrid.1⟩, hfar⟩

omit [IsStrictOrderedRing K] in
theorem position_exact (i : Int) (w : K) :
    a.position i w = if a.ascending then a.origin + i * w else a.origin - i * w := by
  cases h : a.ascending <;> simp [position, direction, h, sub_eq_add_neg]

theorem cell_exact (i : Int) {w : K} (hw : 0 < w) :
    a.cell i w =
      if a.ascending then (a.origin + i * w, a.origin + (i + 1) * w)
      else (a.origin - (i + 1) * w, a.origin - i * w) := by
  have hstep : (i : K) * w ≤ (i + 1) * w := by linarith
  simp only [cell, position_exact, Int.cast_add, Int.cast_one]
  cases a.ascending with
  | true =>
      rw [if_pos rfl, if_pos rfl, min_eq_left (by linarith), max_eq_right (by linarith)]
      rfl
  | false =>
      rw [if_neg nofun, if_neg nofun, min_eq_right (by linarith), max_eq_left (by linarith)]
      rfl

/-- The cells that share a length with an interval, measured from the start of the axis. -/
theorem sharedLength_cell_pos_iff {low high w : K} {i : Int} (hw : 0 < w) (hvisible : low < high) :
    0 < sharedLength (a.cell i w) (low, high) ↔
      a.near low high < (i + 1) * w ∧ i * w < a.far low high := by
  have hstep : (i : K) * w < (i + 1) * w := by linarith
  rw [sharedLength_pos_iff, max_lt_iff, lt_min_iff, lt_min_iff, cell_exact a i hw, near, far]
  cases a.ascending with
  | true =>
      simp only [↓reduceIte]
      constructor
      · rintro ⟨⟨-, hfar⟩, hnear, -⟩
        constructor <;> linarith
      · rintro ⟨hnear, hfar⟩
        refine ⟨⟨?_, ?_⟩, ?_, hvisible⟩ <;> linarith
  | false =>
      simp only [Bool.false_eq_true, ↓reduceIte]
      constructor
      · rintro ⟨⟨-, hnear⟩, hfar, -⟩
        constructor <;> linarith
      · rintro ⟨hnear, hfar⟩
        refine ⟨⟨?_, ?_⟩, ?_, hvisible⟩ <;> linarith

/-- The indices of the cells that share a length with an interval. -/
theorem mem_indexRange_shared_iff {visible : K × K} {w : K} {count i : Int} (hw : 0 < w)
    (hvisible : visible.1 < visible.2) :
    ((a.indexRange visible.1 visible.2 w count).1 ≤ i ∧
        i < (a.indexRange visible.1 visible.2 w count).2) ↔
      (0 ≤ i ∧ i < count) ∧ 0 < sharedLength (a.cell i w) visible := by
  rw [mem_indexRange_iff a hw, ← sharedLength_cell_pos_iff a hw hvisible]

/-- A cell meets no other cell. -/
theorem sharedLength_cells_pos_iff {w : K} {i j : Int} (hw : 0 < w) :
    0 < sharedLength (a.cell i w) (a.cell j w) ↔ i = j := by
  have hstep : (j : K) * w < (j + 1) * w := by linarith
  obtain ⟨hlength, hnear, hfar⟩ : (a.cell j w).1 < (a.cell j w).2 ∧
      a.near (a.cell j w).1 (a.cell j w).2 = j * w ∧
      a.far (a.cell j w).1 (a.cell j w).2 = (j + 1) * w := by
    rw [cell_exact a j hw, near, far]
    cases a.ascending <;> simp [hstep]
  rw [a.sharedLength_cell_pos_iff hw hlength, hnear, hfar, mul_lt_mul_iff_left₀ hw,
    mul_lt_mul_iff_left₀ hw]
  norm_cast
  omega

omit [Hypotenuse K] in
/-- The index of a cell that holds a position of a stretch and shares a length with the stretch. -/
private theorem exists_index {near far p w : K} {count : Int} (hw : 0 < w) (hstart : 0 ≤ near)
    (hlow : near ≤ p) (hhigh : p ≤ far) (hstretch : near < far) (hmeets : near < count * w)
    (hgrid : p ≤ count * w) :
    ∃ i : Int, (0 ≤ i ∧ i < count) ∧ (near < (i + 1) * w ∧ i * w < far) ∧
      i * w ≤ p ∧ p ≤ (i + 1) * w := by
  obtain rfl | hbehind := hlow.eq_or_lt
  · -- the cell that starts at the position or before
    have hfloor : (⌊near / w⌋ : K) * w ≤ near := (le_div_iff₀ hw).mp (Int.floor_le _)
    have hnext : near < (⌊near / w⌋ + 1 : K) * w := (div_lt_iff₀ hw).mp (Int.lt_floor_add_one _)
    refine ⟨⌊near / w⌋, ⟨?_, ?_⟩, ⟨hnext, ?_⟩, hfloor, hnext.le⟩
    · exact Int.floor_nonneg.mpr (div_nonneg hstart hw.le)
    · exact Int.floor_lt.mpr ((div_lt_iff₀ hw).mpr hmeets)
    · linarith
  · -- the cell that ends at the position or behind
    have hceil : p ≤ (⌈p / w⌉ : K) * w := (div_le_iff₀ hw).mp (Int.le_ceil _)
    have hprevious : ((⌈p / w⌉ : K) - 1) * w < p := by
      apply (lt_div_iff₀ hw).mp
      linarith [Int.ceil_lt_add_one (p / w)]
    refine ⟨⌈p / w⌉ - 1, ⟨?_, ?_⟩, ?_⟩
    · have hpositive : 0 < ⌈p / w⌉ := Int.ceil_pos.mpr (div_pos (by linarith) hw)
      omega
    · have hlast : ⌈p / w⌉ ≤ count := Int.ceil_le.mpr ((div_le_iff₀ hw).mpr hgrid)
      omega
    · push_cast
      rw [sub_add_cancel]
      refine ⟨⟨?_, ?_⟩, ?_, hceil⟩ <;> linarith

theorem mem_cell_iff {i : Int} {w x : K} (hw : 0 < w) :
    ((a.cell i w).1 ≤ x ∧ x ≤ (a.cell i w).2) ↔ i * w ≤ a.offset x ∧ a.offset x ≤ (i + 1) * w := by
  rw [cell_exact a i hw, offset]
  split
  · constructor
    · rintro ⟨hlow, hhigh⟩
      constructor <;> linarith
    · rintro ⟨hlow, hhigh⟩
      constructor <;> linarith
  · constructor
    · rintro ⟨hlow, hhigh⟩
      constructor <;> linarith
    · rintro ⟨hlow, hhigh⟩
      constructor <;> linarith

/-- Every place of an interval within the grid is in a cell that shares a length with the
interval, if the grid as a whole does. -/
theorem exists_cell {visible : K × K} {w side x : K} {count : Int} (hw : 0 < w) (hside : 0 < side)
    (hcount : count * w = side) (hvisible : visible.1 < visible.2)
    (hstart : 0 ≤ a.near visible.1 visible.2) (hmeets : 0 < sharedLength (a.cell 0 side) visible)
    (hx : visible.1 ≤ x ∧ x ≤ visible.2)
    (hgrid : (a.cell 0 side).1 ≤ x ∧ x ≤ (a.cell 0 side).2) :
    ∃ i : Int, (0 ≤ i ∧ i < count) ∧ 0 < sharedLength (a.cell i w) visible ∧
      (a.cell i w).1 ≤ x ∧ x ≤ (a.cell i w).2 := by
  obtain ⟨hnear, hfar, hstretch⟩ : a.near visible.1 visible.2 ≤ a.offset x ∧
      a.offset x ≤ a.far visible.1 visible.2 ∧
      a.near visible.1 visible.2 < a.far visible.1 visible.2 := by
    rw [near, far, offset]
    split <;> refine ⟨?_, ?_, ?_⟩ <;> linarith [hx.1, hx.2]
  obtain ⟨hbefore, -⟩ := (a.sharedLength_cell_pos_iff hside hvisible).mp hmeets
  obtain ⟨-, hend⟩ := (a.mem_cell_iff hside).mp hgrid
  rw [Int.cast_zero, zero_add, one_mul, ← hcount] at hbefore hend
  obtain ⟨i, hi, hshared, hin⟩ := exists_index hw hstart hnear hfar hstretch hbefore hend
  exact ⟨i, hi, (a.sharedLength_cell_pos_iff hw hvisible).mpr hshared, (a.mem_cell_iff hw).mpr hin⟩

/-- A cell of the grid shares a length with an interval only if the grid as a whole does. -/
theorem sharedLength_grid_pos {visible : K × K} {w side : K} {count i : Int} (hw : 0 < w)
    (hside : 0 < side) (hcount : count * w = side) (hvisible : visible.1 < visible.2)
    (hi : 0 ≤ i ∧ i < count) (hshared : 0 < sharedLength (a.cell i w) visible) :
    0 < sharedLength (a.cell 0 side) visible := by
  obtain ⟨hnear, hfar⟩ := (a.sharedLength_cell_pos_iff hw hvisible).mp hshared
  rw [a.sharedLength_cell_pos_iff hside hvisible, Int.cast_zero, zero_add, one_mul, zero_mul]
  have hfirst : (0 : K) ≤ i := by exact_mod_cast hi.1
  have hlast : (i : K) + 1 ≤ count := by exact_mod_cast hi.2
  constructor
  · calc
      a.near visible.1 visible.2 < (i + 1) * w := hnear
      _ ≤ count * w := mul_le_mul_of_nonneg_right hlast hw.le
      _ = side := hcount
  · calc
      0 ≤ i * w := mul_nonneg hfirst hw.le
      _ < a.far visible.1 visible.2 := hfar

end Axis

end MapTiles
