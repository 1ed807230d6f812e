import MapTiles.Grid
import Mathlib.Data.List.Nodup

/-!
How the tiles of a view come together. A level contributes the tiles of a range of columns and a
range of rows, and a view takes the levels from its target on downwards, each with its distance from
the target. What later modules show about views goes through the equations and membership lemmas
given here.
-/

namespace MapTiles

theorem mem_intRange_iff {first last i : Int} : i ∈ intRange first last ↔ first ≤ i ∧ i < last := by
  simp only [intRange, List.mem_map, List.mem_range]
  constructor
  · rintro ⟨n, hn, rfl⟩
    omega
  · rintro ⟨hfirst, hlast⟩
    exact ⟨(i - first).toNat, by omega, by omega⟩

theorem nodup_intRange (first last : Int) : (intRange first last).Nodup := by
  apply List.Nodup.map _ List.nodup_range
  intro m n hsame
  have hsame : first + (m : Int) = first + (n : Int) := hsame
  omega

theorem intRange_of_le {first last : Int} (h : last ≤ first) : intRange first last = [] := by
  apply List.eq_nil_iff_forall_not_mem.mpr
  intro i hi
  have := mem_intRange_iff.mp hi
  omega

theorem intRange_eq_singleton {first last i : Int}
    (h : ∀ j, (first ≤ j ∧ j < last) ↔ j = i) : intRange first last = [i] := by
  have hi := (h i).mpr rfl
  obtain rfl : first = i := (h first).mp ⟨by omega, by omega⟩
  have hlast := (h (last - 1)).mp ⟨by omega, by omega⟩
  have hone : (last - first).toNat = 1 := by omega
  rw [intRange, hone]
  simp

variable {α : Type} [Scalar α]

namespace Level

/-- Whether a level is fine enough to be the target. -/
def reaches (zoom : α) (rule : ZoomRule α) (l : Level α) : Bool :=
  Scalar.lt (rule.factor * Scalar.ofBinary64 l.zoom) zoom

theorem targetIndex?_eq (levels : List (Level α)) (zoom : α) (rule : ZoomRule α) :
    targetIndex? levels zoom rule = (levels.findIdx? (reaches zoom rule)).or
      (if levels.isEmpty then none else some (levels.length - 1)) := by
  have hreaches : (fun l : Level α => Scalar.lt (rule.factor * Scalar.ofBinary64 l.zoom) zoom) =
      reaches zoom rule := rfl
  rw [targetIndex?, hreaches]
  cases levels.findIdx? (reaches zoom rule) with
  | none => rfl
  | some i => rfl

/-- The target is the first level that is fine enough, or else the last. -/
theorem targetIndex?_eq_some_iff {levels : List (Level α)} {zoom : α} {rule : ZoomRule α}
    {target : Nat} :
    targetIndex? levels zoom rule = some target ↔
      ∃ coarser l finer, levels = coarser ++ l :: finer ∧ coarser.length = target ∧
        (∀ c ∈ coarser, reaches zoom rule c = false) ∧
          (reaches zoom rule l = true ∨ finer = []) := by
  rw [targetIndex?_eq]
  constructor
  · intro h
    cases hfound : levels.findIdx? (reaches zoom rule) with
    | some i =>
        rw [hfound] at h
        obtain rfl := Option.some.inj h
        obtain ⟨hi, hreaches, hfirst⟩ := List.findIdx?_eq_some_iff_getElem.mp hfound
        refine ⟨levels.take i, levels[i], levels.drop (i + 1), ?_, ?_, ?_, .inl hreaches⟩
        · rw [List.getElem_cons_drop, List.take_append_drop]
        · exact List.length_take_of_le (by omega)
        · intro c hc
          obtain ⟨j, hj, rfl⟩ := List.mem_iff_getElem.mp hc
          rw [List.length_take] at hj
          rw [List.getElem_take]
          simpa using hfirst j (by omega)
    | none =>
        rw [hfound] at h
        have hnone := List.findIdx?_eq_none_iff.mp hfound
        obtain rfl | ⟨coarser, l, rfl⟩ := levels.eq_nil_or_concat'
        · cases h
        · refine ⟨coarser, l, [], rfl, ?_, ?_, .inr rfl⟩
          · simpa using h
          · intro c hc
            exact hnone c (List.mem_append_left _ hc)
  · rintro ⟨coarser, l, finer, rfl, rfl, hcoarser, hlast⟩
    rw [List.findIdx?_append, List.findIdx?_eq_none_iff.mpr hcoarser, List.findIdx?_cons]
    obtain hreaches | rfl := hlast
    · simp [hreaches]
    · cases reaches zoom rule l <;> simp

/-- Whether a level can be drawn at all. -/
def drawable (l : Level α) : Bool :=
  Scalar.isFinite l.tileWidth && Scalar.lt (Scalar.ofInt 0) l.tileWidth

/-- The columns of a level that meet a rectangle, from the first to the one behind the last. -/
def columnRange (l : Level α) (visible : Rect α) : Int × Int :=
  l.columnAxis.indexRange visible.xRange.1 visible.xRange.2 l.tileWidth l.columns

/-- The rows of a level that meet a rectangle, from the first to the one behind the last. -/
def rowRange (l : Level α) (visible : Rect α) : Int × Int :=
  l.rowAxis.indexRange visible.yRange.1 visible.yRange.2 l.tileWidth l.rows

/-- The tile in a column and a row as a view gets it. -/
def placed (l : Level α) (visible : Rect α) (buckets offset : Nat) (column row : Int) :
    GridTile α :=
  let bounds := l.tileBounds visible.system column row
  ⟨⟨min (l.distanceBucket visible bounds buckets + offset) priorityLimit, l.tile column row⟩,
    bounds⟩

theorem visibleTiles_eq (l : Level α) (visible : Rect α) (buckets offset : Nat) :
    l.visibleTiles visible buckets offset =
      if l.drawable then
        (intRange (l.columnRange visible).1 (l.columnRange visible).2).flatMap fun column =>
          (intRange (l.rowRange visible).1 (l.rowRange visible).2).map fun row =>
            l.placed visible buckets offset column row
      else [] := by
  change (if l.drawable then
    if (l.rowRange visible).2 ≤ (l.rowRange visible).1 then [] else _ else []) = _
  split
  · split
    · rename_i hrows
      simp [intRange_of_le hrows]
    · rfl
  · rfl

theorem mem_visibleTiles_iff {l : Level α} {visible : Rect α} {buckets offset : Nat}
    {t : GridTile α} :
    t ∈ l.visibleTiles visible buckets offset ↔
      l.drawable = true ∧ ∃ column row : Int,
        ((l.columnRange visible).1 ≤ column ∧ column < (l.columnRange visible).2) ∧
        ((l.rowRange visible).1 ≤ row ∧ row < (l.rowRange visible).2) ∧
        t = l.placed visible buckets offset column row := by
  rw [visibleTiles_eq]
  cases l.drawable with
  | false => simp
  | true =>
      simp only [↓reduceIte, List.mem_flatMap, List.mem_map, mem_intRange_iff, true_and]
      constructor
      · rintro ⟨column, hcolumn, row, hrow, rfl⟩
        exact ⟨column, row, hcolumn, hrow, rfl⟩
      · rintro ⟨column, row, hcolumn, hrow, rfl⟩
        exact ⟨column, hcolumn, row, hrow, rfl⟩

/-- The column and the row of a tile. -/
def place (t : GridTile α) : Int × Int :=
  (t.request.tile.column, t.request.tile.row)

/-- No place is taken twice. -/
theorem nodup_places (l : Level α) (visible : Rect α) (buckets offset : Nat) :
    ((l.visibleTiles visible buckets offset).map place).Nodup := by
  rw [visibleTiles_eq]
  cases l.drawable with
  | false => simp
  | true =>
      simp only [↓reduceIte, List.map_flatMap, List.map_map]
      apply List.nodup_flatMap.mpr
      constructor
      · intro column _
        apply List.Nodup.map _ (nodup_intRange _ _)
        intro m n hsame
        exact congrArg Prod.snd hsame
      · apply (nodup_intRange _ _).imp
        intro m n hne place hm hn
        obtain ⟨_, _, rfl⟩ := List.mem_map.mp hm
        obtain ⟨_, _, hsame⟩ := List.mem_map.mp hn
        exact hne (congrArg Prod.fst hsame).symm

theorem request_level (l : Level α) {visible : Rect α} {buckets offset : Nat} {t : GridTile α}
    (ht : t ∈ l.visibleTiles visible buckets offset) : t.request.tile.level = l.identifier := by
  obtain ⟨-, column, row, -, -, rfl⟩ := mem_visibleTiles_iff.mp ht
  rfl

end Level

namespace View

/-- The index of the target level in the table. -/
def target? (v : View α) : Option Nat :=
  Level.targetIndex? v.levels v.zoom v.rule

/-- The levels drawn, coarsest first, each with its distance from the target. -/
def drawn (v : View α) : List (Nat × Level α) :=
  match v.target? with
  | none => []
  | some target => v.drawnLevels target

/-- Whether nothing is shown whatever the table. -/
def blank (v : View α) : Bool :=
  v.bounds.isEmpty || !Scalar.isFinite v.zoom

/-- The number of buckets in use. -/
def bucketCount (v : View α) : Nat :=
  max v.buckets 1

/-- What a drawn level contributes to a view. -/
def contribution (v : View α) (entry : Nat × Level α) : List (GridTile α) :=
  if v.allows entry.2 then
    entry.2.visibleTiles v.bounds v.bucketCount (min (entry.1 * v.bucketCount) priorityLimit)
  else []

theorem tiles_eq (v : View α) :
    v.tiles = if v.blank then [] else v.drawn.flatMap v.contribution := by
  unfold tiles blank drawn target?
  split
  · rfl
  · cases Level.targetIndex? v.levels v.zoom v.rule with
    | none => rfl
    | some target => rfl

/-- The tiles of a view, each with the distance of its level from the target. -/
def ranked (v : View α) : List (Nat × GridTile α) :=
  if v.blank then [] else v.drawn.flatMap fun entry => (v.contribution entry).map (entry.1, ·)

theorem map_ranked (v : View α) : v.ranked.map Prod.snd = v.tiles := by
  rw [tiles_eq, ranked]
  split
  · rfl
  · simp only [List.map_flatMap, List.map_map, Function.comp_def, List.map_id']

theorem mem_ranked_iff {v : View α} {n : Nat} {t : GridTile α} :
    (n, t) ∈ v.ranked ↔ v.blank = false ∧ ∃ l, (n, l) ∈ v.drawn ∧ t ∈ v.contribution (n, l) := by
  rw [ranked]
  cases v.blank with
  | true => simp
  | false =>
      simp only [Bool.false_eq_true, ↓reduceIte, List.mem_flatMap, List.mem_map, Prod.mk.injEq,
        true_and]
      constructor
      · rintro ⟨⟨m, l⟩, hdrawn, t, ht, rfl, rfl⟩
        exact ⟨l, hdrawn, ht⟩
      · rintro ⟨l, hdrawn, ht⟩
        exact ⟨(n, l), hdrawn, t, ht, rfl, rfl⟩

theorem target_lt {v : View α} {target : Nat} (h : v.target? = some target) :
    target < v.levels.length := by
  obtain ⟨coarser, l, finer, hlevels, rfl, -, -⟩ := Level.targetIndex?_eq_some_iff.mp h
  rw [hlevels, List.length_append, List.length_cons]
  omega

theorem exists_target {v : View α} (h : v.levels ≠ []) :
    ∃ target l, v.target? = some target ∧ v.levels[target]? = some l := by
  cases htarget : v.target? with
  | none =>
      rw [target?, Level.targetIndex?_eq, if_neg (by simpa using h),
        Option.or_eq_none_iff] at htarget
      cases htarget.2
  | some target => exact ⟨target, _, rfl, List.getElem?_eq_getElem (target_lt htarget)⟩

theorem target_of_mem_drawn {v : View α} {entry : Nat × Level α} (h : entry ∈ v.drawn) :
    ∃ target, v.target? = some target := by
  cases htarget : v.target? with
  | none => simp [drawn, htarget] at h
  | some target => exact ⟨target, rfl⟩

/-- Each distance from the target is one of the levels above it in the table. -/
theorem mem_drawn_iff {v : View α} {target : Nat} (h : v.target? = some target) {n : Nat}
    {l : Level α} :
    (n, l) ∈ v.drawn ↔ n ≤ target ∧ n ≤ v.rule.coarserLevels ∧ v.levels[target - n]? = some l := by
  have hlt := target_lt h
  simp only [drawn, h, drawnLevels, List.mem_mapIdx, List.getElem_take, List.getElem_drop,
    List.length_take, List.length_drop, Prod.mk.injEq]
  constructor
  · rintro ⟨i, hi, rfl, rfl⟩
    refine ⟨by omega, by omega, ?_⟩
    rw [List.getElem?_eq_some_iff]
    refine ⟨by omega, ?_⟩
    congr 1
    omega
  · rintro ⟨hle, hcoarse, hl⟩
    obtain ⟨hi, rfl⟩ := List.getElem?_eq_some_iff.mp hl
    refine ⟨target - (target - v.rule.coarserLevels) - n, by omega, by omega, ?_⟩
    congr 1
    omega

theorem mem_levels_of_mem_drawn {v : View α} {entry : Nat × Level α} (h : entry ∈ v.drawn) :
    entry.2 ∈ v.levels := by
  obtain ⟨target, htarget⟩ := target_of_mem_drawn h
  obtain ⟨-, -, hlevel⟩ := (mem_drawn_iff htarget).mp h
  exact List.mem_of_getElem? hlevel

theorem length_drawn {v : View α} {target : Nat} (h : v.target? = some target) :
    v.drawn.length = min target v.rule.coarserLevels + 1 := by
  have hlt := target_lt h
  simp only [drawn, h, drawnLevels, List.length_mapIdx, List.length_take, List.length_drop]
  omega

end View

end MapTiles
