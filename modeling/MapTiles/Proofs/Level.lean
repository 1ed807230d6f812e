import MapTiles.Source
import Mathlib.Data.List.Pairwise

/-!
Sorted zoom tables. Sorting rearranges a table from the coarsest level to the finest, and if no two
levels have the same nominal zoom, there is only one such arrangement. The order in which a layer
lists its levels is then lost: no view and no source can tell.
-/

namespace MapTiles

namespace Level

variable {α : Type} {levels arranged : List (Level α)}

/-- Whether no two levels of a table have the same nominal zoom. -/
def ZoomsDiffer (levels : List (Level α)) : Prop :=
  levels.Pairwise fun a b => a.zoom ≠ b.zoom

/-- Whether every level of a table is coarser than those behind it, in the total order of zooms. -/
def Descending (levels : List (Level α)) : Prop :=
  levels.Pairwise fun a b => b.zoom.rank < a.zoom.rank

instance : Decidable (ZoomsDiffer levels) :=
  inferInstanceAs (Decidable (levels.Pairwise fun a b => a.zoom ≠ b.zoom))

instance : Decidable (Descending levels) :=
  inferInstanceAs (Decidable (levels.Pairwise fun a b => b.zoom.rank < a.zoom.rank))

theorem notFiner_iff {a b : Level α} : notFiner a b = true ↔ b.zoom.rank ≤ a.zoom.rank := by
  simp only [notFiner, decide_eq_true_eq]

theorem sort_perm (levels : List (Level α)) : (sort levels).Perm levels :=
  List.mergeSort_perm levels notFiner

theorem pairwise_sort (levels : List (Level α)) :
    (sort levels).Pairwise fun a b => b.zoom.rank ≤ a.zoom.rank := by
  have htrans (a b c : Level α) (hab : notFiner a b = true) (hbc : notFiner b c = true) :
      notFiner a c = true :=
    notFiner_iff.mpr (Int.le_trans (notFiner_iff.mp hbc) (notFiner_iff.mp hab))
  have htotal (a b : Level α) : (notFiner a b || notFiner b a) = true := by
    simp only [Bool.or_eq_true, notFiner_iff]
    exact Int.le_total b.zoom.rank a.zoom.rank
  exact (List.pairwise_mergeSort htrans htotal levels).imp notFiner_iff.mp

theorem ZoomsDiffer.of_perm (h : ZoomsDiffer levels) (hperm : arranged.Perm levels) :
    ZoomsDiffer arranged :=
  h.perm hperm.symm Ne.symm

/-- Levels of different zooms have different places in the total order, be the zooms infinite,
undefined or zeros of two signs. -/
theorem ZoomsDiffer.descending_sort (h : ZoomsDiffer levels) : Descending (sort levels) := by
  have hdiffer : ZoomsDiffer (sort levels) := h.of_perm (sort_perm levels)
  refine (pairwise_sort levels).imp₂ (fun a b hle hne => ?_) hdiffer
  exact Int.lt_iff_le_and_ne.mpr ⟨hle, fun hrank => hne (Binary64.rank_injective hrank).symm⟩

/-- There is only one way to arrange levels from the coarsest to the finest. -/
theorem Descending.eq_of_perm (h : Descending levels) (harranged : Descending arranged)
    (hperm : arranged.Perm levels) : arranged = levels := by
  refine List.Perm.eq_of_pairwise (fun a b _ _ hab hba => ?_) harranged h hperm
  exact absurd hab (Int.lt_asymm hba)

theorem sort_eq_of_perm (h : ZoomsDiffer levels) (hperm : arranged.Perm levels) :
    sort arranged = sort levels := by
  have hsorted : (sort arranged).Perm (sort levels) :=
    (sort_perm arranged).trans (hperm.trans (sort_perm levels).symm)
  exact h.descending_sort.eq_of_perm (h.of_perm hperm).descending_sort hsorted

theorem sort_eq_self (h : Descending levels) : sort levels = levels := by
  have hdiffer : ZoomsDiffer levels :=
    h.imp fun hlt hsame => Int.ne_of_gt hlt (congrArg Binary64.rank hsame)
  exact h.eq_of_perm hdiffer.descending_sort (sort_perm levels)

end Level

namespace Source

open Level (ZoomsDiffer Descending)

variable {P : Type}

/-- If no two levels have the same nominal zoom, then every rearrangement of a table is sorted into
the same table: the one that goes from the coarsest level to the finest. So a view shows the same
tiles, with the same priorities and in the same order, and a layer makes the same source, however
it lists its levels. -/
theorem order_of_levels_immaterial {levels arranged : List (Level Float)}
    (hdiffer : ZoomsDiffer levels) (hperm : arranged.Perm levels) :
    Level.sort arranged = Level.sort levels ∧
      (Level.sort levels).Perm levels ∧
      Descending (Level.sort levels) ∧
      (∀ v : View Float, { v with levels := Level.sort arranged }.tiles =
        { v with levels := Level.sort levels }.tiles) ∧
      ∀ (layer : Layer) (config : Config) (convert : Converter) (listening : Bool),
        (build { layer with levels := arranged } config convert listening :
            Except ConfigError (Source P)) =
          build { layer with levels := levels } config convert listening := by
  have hsort : Level.sort arranged = Level.sort levels := Level.sort_eq_of_perm hdiffer hperm
  refine ⟨hsort, Level.sort_perm levels, hdiffer.descending_sort, fun v => ?_, ?_⟩
  · rw [hsort]
  · intro layer config convert listening
    simp only [build, hsort]

/-- A level of one tile whose nominal zoom has the given bits. -/
def levelOfBits (identifier : Int) (bits : UInt64) : Level Float where
  zoom := ⟨bits⟩
  tileWidth := 1
  columns := 1
  rows := 1
  identifier := identifier
  bounds := Rect.ofCorners mercatorSystem 0 1 1 0

/-- A NaN, infinity and the two zeros, in descending order. -/
def specialLevels : List (Level Float) :=
  [levelOfBits 0 0x7ff8000000000000, levelOfBits 1 0x7ff0000000000000,
    levelOfBits 2 0x0000000000000000, levelOfBits 3 0x8000000000000000]

theorem descending_specialLevels : Descending specialLevels := by
  decide

theorem order_of_levels_immaterial_special :
    ZoomsDiffer specialLevels ∧ specialLevels.reverse.Perm specialLevels ∧
      Level.sort specialLevels.reverse = specialLevels := by
  have hdiffer : ZoomsDiffer specialLevels := by decide
  have hperm : specialLevels.reverse.Perm specialLevels := List.reverse_perm specialLevels
  obtain ⟨hsort, -⟩ := order_of_levels_immaterial (P := String) hdiffer hperm
  exact ⟨hdiffer, hperm, hsort.trans (Level.sort_eq_self descending_specialLevels)⟩

end Source

end MapTiles
