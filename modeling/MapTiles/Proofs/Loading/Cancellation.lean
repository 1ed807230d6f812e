import MapTiles.Proofs.Loading.Arrival
import MapTiles.Proofs.Loading.Waits

/-!
Loads and the view. The outcome of a load counts if its tile is on screen when the load ends, and
is thrown away otherwise. A new view cancels the loads of exactly those tiles that were on screen
and are not any more, however often their loads were cancelled and taken up again before.
-/

namespace MapTiles

/-- What loads have found out: the tiles that have arrived, those that failed, and those that do not
exist. -/
structure Findings (P : Type) where
  resident : TileMap (Resident P)
  errors : TileMap ErrorRecord
  missing : TileSet

/-- The findings with the outcome of a load that counts, of a tile in its place on screen. -/
def Findings.add {P : Type} (f : Findings P) (backoff : BackoffPolicy) (t : Tile)
    (place : Placement) (now : Instant) : Outcome P → Findings P
  | .loaded payload => { f with
      resident := f.resident.insert t ⟨t, place.bounds, payload⟩
      errors := f.errors.erase t }
  | .missing => { f with
      errors := f.errors.erase t
      missing := f.missing.insert t }
  | .failed _ => { f with errors := f.errors.insert t (backoff.recordFailure f.errors[t]? now) }

namespace Loading

variable {P : Type} {s : Loading P} {t : Tile}

def findings (s : Loading P) : Findings P :=
  ⟨s.resident, s.errors, s.missing⟩

namespace Consistent

/-- The load of a tile off screen is marked. -/
theorem marked (h : s.Consistent) (hflight : t ∈ s.inFlight) (hgone : t ∉ s.visible) :
    s.inFlight[t]? = some true := by
  have hentry := getElem?_pos s.inFlight t hflight
  rw [hentry, (h.marked_iff t _ hentry).mpr hgone]

/-- A new view cancels the loads of the tiles that leave the screen, in tile order. -/
theorem cancelled_updateVisible (h : s.Consistent) (tiles : List (GridTile Float))
    (now : Instant) :
    (s.updateVisible tiles now).2.cancelled =
      s.inFlight.keys.filter fun t =>
        s.visible.contains t && !(s.updateVisible tiles now).1.visible.contains t := by
  have hmarks : s.inFlight.filter (fun t marked => !marked && !(placements tiles).contains t) =
      s.inFlight.filter fun t _ => s.visible.contains t && !(placements tiles).contains t := by
    apply Std.ExtTreeMap.ext_getElem?
    intro t
    rw [Std.ExtTreeMap.getElem?_filter', Std.ExtTreeMap.getElem?_filter']
    cases hrunning : s.inFlight[t]? with
    | none => rfl
    | some marked =>
        have hmarked := h.marked_iff t marked hrunning
        have hvisible : s.visible.contains t = !marked := by
          rw [Bool.eq_iff_iff, Bool.not_eq_true', Bool.eq_false_iff, ne_eq, hmarked]
          simp
        rw [Option.filter_some, Option.filter_some, hvisible]
  rw [visible_updateVisible]
  change (s.inFlight.filter fun t marked => !marked && !(placements tiles).contains t).keys = _
  rw [hmarks, Std.ExtTreeMap.keys_filter_key]

end Consistent

end Loading

end MapTiles
