import MapTiles.Proofs.Binary64
import MapTiles.Proofs.Grid

/-!
The order in which the tiles of a view are loaded. The tiles of one level have priorities from a
multiple of the bucket count up to the next multiple, both included, and the multiples rise with the
distance of the level from the target. So a finer level comes before a coarser one, but for one
case: a tile in the outermost bucket of a level and a tile of the next coarser one whose center is
the center of the view have the same priority.
-/

namespace MapTiles

/-- The outermost bucket has the bucket count as its number, so there is one more than the count. -/
theorem Level.distanceBucket_le (l : Level Float) (visible tile : Rect Float) {buckets : Nat}
    (hbuckets : buckets < 2 ^ 53) : l.distanceBucket visible tile buckets ≤ buckets := by
  apply Int.toNat_le.mpr
  exact Binary64.toInt_clamp_le hbuckets _

namespace View

variable {v : View Float}

theorem bucketCount_pos (v : View Float) : 0 < v.bucketCount :=
  Nat.lt_of_lt_of_le Nat.zero_lt_one (Nat.le_max_right _ _)

theorem rank_lt {n : Nat} {l : Level Float} (h : (n, l) ∈ v.drawn) : n < v.drawn.length := by
  cases htarget : v.target? with
  | none => simp [drawn, htarget] at h
  | some target =>
      rw [length_drawn htarget]
      obtain ⟨hle, hcoarse, -⟩ := (mem_drawn_iff htarget).mp h
      omega

/-- The priorities of a level that lies `n` levels from the target. -/
theorem priority_bounds (hfits : v.drawn.length * v.bucketCount ≤ priorityLimit)
    {x : Nat × GridTile Float} (hx : x ∈ v.ranked) :
    x.1 * v.bucketCount ≤ x.2.request.priority ∧
      x.2.request.priority ≤ x.1 * v.bucketCount + v.bucketCount := by
  obtain ⟨n, t⟩ := x
  obtain ⟨-, l, hdrawn, ht⟩ := mem_ranked_iff.mp hx
  -- the last priority of the level still fits
  have hroom : n * v.bucketCount + v.bucketCount ≤ priorityLimit := by
    calc
      n * v.bucketCount + v.bucketCount = (n + 1) * v.bucketCount := (Nat.succ_mul _ _).symm
      _ ≤ v.drawn.length * v.bucketCount := Nat.mul_le_mul_right _ (rank_lt hdrawn)
      _ ≤ priorityLimit := hfits
  have hsmall : v.bucketCount < 2 ^ 53 := by
    have hlimit : priorityLimit < 2 ^ 53 := by decide
    omega
  rw [contribution] at ht
  split at ht
  · obtain ⟨-, column, row, -, -, rfl⟩ := Level.mem_visibleTiles_iff.mp ht
    have hbucket := l.distanceBucket_le v.bounds (l.tileBounds v.bounds.system column row) hsmall
    simp only [Level.placed]
    omega
  · cases ht

/-- Of two tiles of a view the one whose level lies nearer to the target has the smaller priority
and is loaded first, unless their levels follow one another and both priorities are the multiple of
the bucket count at which the coarser level starts. -/
theorem finer_levels_first (v : View Float)
    (hfits : v.drawn.length * v.bucketCount ≤ priorityLimit) :
    v.ranked.map Prod.snd = v.tiles ∧
      ∀ x ∈ v.ranked, ∀ y ∈ v.ranked, x.1 < y.1 →
        (x.2.request.priority < y.2.request.priority ∧
            Ord.compare x.2.request y.2.request = .lt) ∨
          (y.1 = x.1 + 1 ∧ x.2.request.priority = y.1 * v.bucketCount ∧
            y.2.request.priority = y.1 * v.bucketCount) := by
  refine ⟨map_ranked v, fun x hx y hy hnear => ?_⟩
  obtain ⟨-, hlast⟩ := priority_bounds hfits hx
  obtain ⟨hfirst, -⟩ := priority_bounds hfits hy
  have hnext : (x.1 + 1) * v.bucketCount ≤ y.1 * v.bucketCount := Nat.mul_le_mul_right _ hnear
  have hstart : (x.1 + 1) * v.bucketCount = x.1 * v.bucketCount + v.bucketCount := Nat.succ_mul _ _
  by_cases hless : x.2.request.priority < y.2.request.priority
  · left
    refine ⟨hless, ?_⟩
    change (Ord.compare x.2.request.priority y.2.request.priority).then _ = .lt
    rw [Nat.compare_eq_lt.mpr hless]
    rfl
  · right
    have heven : (x.1 + 1) * v.bucketCount = y.1 * v.bucketCount := by omega
    have hrank : x.1 + 1 = y.1 := Nat.eq_of_mul_eq_mul_right (bucketCount_pos v) heven
    exact ⟨hrank.symm, by omega, by omega⟩

/-- A square seen as a whole on a level of four tiles above a level of one, in a single bucket. -/
def tied : View Float where
  bounds := Rect.ofCorners 0 0 0 2 2
  zoom := 1.5
  levels := [⟨Binary64.ofFloat 2, 2, 1, 1, 0, Rect.ofCorners 0 0 0 2 2⟩,
    ⟨Binary64.ofFloat 1, 1, 2, 2, 1, Rect.ofCorners 0 0 0 2 2⟩]
  rule := ⟨1, 1⟩
  buckets := 1
  lowest := none
  highest := none

private theorem length_ranked_tied : tied.ranked.length = 5 := by
  decide +kernel

/-- The exception occurs, and then the coarser tile may be loaded first. -/
theorem finer_levels_first_unless_tied :
    tied.drawn.length * tied.bucketCount ≤ priorityLimit ∧
      ∃ fine ∈ tied.ranked, ∃ coarse ∈ tied.ranked, fine.1 < coarse.1 ∧
        (coarse.1 = fine.1 + 1 ∧ fine.2.request.priority = coarse.1 * tied.bucketCount ∧
          coarse.2.request.priority = coarse.1 * tied.bucketCount) ∧
        Ord.compare coarse.2.request fine.2.request = .lt := by
  have hfits : tied.drawn.length * tied.bucketCount ≤ priorityLimit := by decide +kernel
  have hcoarse : 0 < tied.ranked.length := length_ranked_tied ▸ by decide
  have hfine : 1 < tied.ranked.length := length_ranked_tied ▸ by decide
  have hnear : tied.ranked[1].1 < tied.ranked[0].1 := by decide +kernel +revert
  obtain ⟨-, hordered⟩ := finer_levels_first tied hfits
  have hcase := hordered _ (List.getElem_mem hfine) _ (List.getElem_mem hcoarse) hnear
  refine ⟨hfits, _, List.getElem_mem hfine, _, List.getElem_mem hcoarse, hnear, ?_, ?_⟩
  · apply hcase.resolve_left
    rintro ⟨hless, -⟩
    revert hless
    decide +kernel +revert
  · decide +kernel +revert

end View

end MapTiles
