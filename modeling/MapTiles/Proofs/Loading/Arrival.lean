import MapTiles.Proofs.Loading.Coverage

/-!
When the tiles that have arrived change. A load that ends may store its tile, a new view may drop
tiles, and a reset drops all of them; nothing else changes them, and each of the three reports it.
Between two views and resets a tile that has arrived or is known to be missing stays so, and is not
loaded again.
-/

namespace MapTiles.Loading

variable {P : Type}

/-- Whether every tile that has arrived is filed under its own coordinates. -/
def Filed (s : Loading P) : Prop :=
  ∀ (t : Tile) (r : Resident P), s.resident[t]? = some r → r.tile = t

/-- The tiles that have arrived are listed in tile order. -/
theorem Filed.residents_eq {s : Loading P} (h : s.Filed) :
    s.residents.map (fun r => (r.tile, r)) = s.resident.toList := by
  rw [residents, TileMap.values_eq, List.map_map]
  refine (List.map_congr_left fun entry hentry => ?_).trans (List.map_id _)
  have hvalue := Std.ExtTreeMap.mem_toList_iff_getElem?_eq_some.mp hentry
  exact Prod.ext (h entry.1 entry.2 hvalue) rfl

@[simp] theorem resident_dispatchAll (s : Loading P) :
    s.dispatchAll.2.resident = s.resident := by
  rw [dispatchAll, dispatch_frame]

@[simp] theorem resident_enqueueDue (s : Loading P) (now : Instant) :
    (s.enqueueDue now).1.resident = s.resident := by
  rw [enqueueDue, enqueueAll_frame]

theorem resident_updateVisible (s : Loading P) (tiles : List (GridTile Float)) (now : Instant) :
    (s.updateVisible tiles now).1.resident =
      s.resident.filter fun t _ => (placements tiles).contains t := by
  rw [updateVisible_fst, enqueueAll_frame]
  rfl

@[simp] theorem missing_dispatchAll (s : Loading P) : s.dispatchAll.2.missing = s.missing := by
  rw [dispatchAll, dispatch_frame]

@[simp] theorem missing_enqueueDue (s : Loading P) (now : Instant) :
    (s.enqueueDue now).1.missing = s.missing := by
  rw [enqueueDue, enqueueAll_frame]

@[simp] theorem missing_updateVisible (s : Loading P) (tiles : List (GridTile Float))
    (now : Instant) : (s.updateVisible tiles now).1.missing = s.missing := by
  rw [updateVisible_fst, enqueueAll_frame, retained, foldl_dequeue]

/-- A new view reports that it dropped tiles. -/
theorem residentChanged_iff (s : Loading P) (tiles : List (GridTile Float)) (now : Instant) :
    (s.updateVisible tiles now).2.residentChanged = true ↔
      (s.updateVisible tiles now).1.resident ≠ s.resident := by
  let kept (t : Tile) (_ : Resident P) := (placements tiles).contains t
  have hafter : (s.updateVisible tiles now).1.resident = s.resident.filter kept :=
    resident_updateVisible s tiles now
  have hevicted : (s.updateVisible tiles now).2.evicted =
      s.resident.size - (s.resident.filter kept).size := rfl
  have hsize := Std.ExtTreeMap.size_filter_le_size (t := s.resident) (f := kept)
  have hsame := Std.ExtTreeMap.size_filter_eq_size_iff (t := s.resident) (f := kept)
  have hself := Std.ExtTreeMap.filter_eq_self_iff (t := s.resident) (f := kept)
  rw [VisibleUpdate.residentChanged, hevicted, decide_eq_true_iff, hafter, ne_eq, hself, ← hsame]
  omega

/-- A load reports that its tile was stored. -/
theorem stored_iff {s : Loading P} (h : s.Consistent) (t : Tile) (outcome : Outcome P)
    (now : Instant) :
    (s.complete t outcome now).2 = .stored ↔
      (s.complete t outcome now).1.resident ≠ s.resident := by
  unfold complete
  split
  case h_1 => simp
  case h_2 marked hrunning =>
    have hnew : t ∉ s.resident := h.inFlight_not_resident t (of_getElem?_eq_some hrunning)
    split
    case isTrue => simp
    case isFalse =>
      cases outcome with
      | loaded payload =>
          dsimp only
          split
          case h_1 => simp
          case h_2 place _ =>
            simp only [true_iff]
            intro hsame
            apply hnew
            rw [← hsame]
            exact Std.ExtTreeMap.mem_insert_self
      | missing => simp
      | failed error => simp

/-- The end of a load changes nothing about the tiles that have arrived, or it is that of a load
that was not marked and brought its tile, which is on screen. -/
theorem resident_complete_cases (s : Loading P) (t : Tile) (outcome : Outcome P) (now : Instant) :
    (s.complete t outcome now).1.resident = s.resident ∨
      ∃ payload place, outcome = .loaded payload ∧ s.inFlight[t]? = some false ∧
        s.visible[t]? = some place ∧
        (s.complete t outcome now).1.resident =
          s.resident.insert t ⟨t, place.bounds, payload⟩ := by
  unfold complete
  split
  case h_1 => exact .inl rfl
  case h_2 marked hrunning =>
    split
    case isTrue => exact .inl rfl
    case isFalse hunmarked =>
      rw [Bool.not_eq_true] at hunmarked
      subst hunmarked
      cases outcome with
      | loaded payload =>
          dsimp only
          split
          case h_1 => exact .inl rfl
          case h_2 place hplace => exact .inr ⟨payload, place, rfl, hrunning, hplace, rfl⟩
      | missing => exact .inl rfl
      | failed error => exact .inl rfl

/-- A reset reports that it dropped tiles. -/
theorem reset_iff (s : Loading P) : s.reset.2 = true ↔ s.reset.1.resident ≠ s.resident := by
  have hempty := Std.ExtTreeMap.isEmpty_iff (t := s.resident)
  simp only [reset, Bool.not_eq_true', ne_eq, ← Bool.not_eq_true, hempty]
  exact not_congr eq_comm

/-- Whether a tile has arrived or is known to be missing. -/
def Done (s : Loading P) (t : Tile) : Prop :=
  t ∈ s.resident ∨ t ∈ s.missing

instance (s : Loading P) (t : Tile) : Decidable (s.Done t) :=
  inferInstanceAs (Decidable (_ ∨ _))

theorem done_dispatchAll_iff (s : Loading P) (t : Tile) : s.dispatchAll.2.Done t ↔ s.Done t := by
  rw [dispatchAll, dispatch_frame]
  rfl

theorem done_enqueueDue_iff (s : Loading P) (now : Instant) (t : Tile) :
    (s.enqueueDue now).1.Done t ↔ s.Done t := by
  rw [enqueueDue, enqueueAll_frame]
  rfl

/-- The end of a load undoes nothing. -/
theorem Done.complete {s : Loading P} {t : Tile} (h : s.Done t) (ended : Tile)
    (outcome : Outcome P) (now : Instant) : (s.complete ended outcome now).1.Done t := by
  unfold Loading.complete
  split
  case h_1 => exact h
  case h_2 marked _ =>
    split
    case isTrue => exact h
    case isFalse =>
      cases outcome with
      | loaded payload =>
          dsimp only
          split
          · exact h
          · exact h.imp_left fun hresident => TileMap.mem_insert_iff.mpr (.inr hresident)
      | missing => exact h.imp_right fun hmissing => Std.ExtTreeSet.mem_insert.mpr (.inr hmissing)
      | failed error => exact h

/-- The end of a load does not find a missing tile. -/
theorem mem_missing_complete {s : Loading P} {t : Tile} (h : t ∈ s.missing) (ended : Tile)
    (outcome : Outcome P) (now : Instant) : t ∈ (s.complete ended outcome now).1.missing := by
  unfold Loading.complete
  split
  case h_1 => exact h
  case h_2 =>
    split
    case isTrue => exact h
    case isFalse =>
      cases outcome with
      | loaded payload =>
          dsimp only
          split <;> exact h
      | missing => exact Std.ExtTreeSet.mem_insert.mpr (.inr h)
      | failed error => exact h

/-- The end of a load makes a tile known as missing only if it is the one that was loaded, and it was
not found. -/
theorem mem_missing_of_mem_complete {s : Loading P} {t ended : Tile} {outcome : Outcome P}
    {now : Instant} (h : t ∈ (s.complete ended outcome now).1.missing) :
    t ∈ s.missing ∨ ended = t ∧ outcome = .missing := by
  unfold Loading.complete at h
  split at h
  case h_1 => exact .inl h
  case h_2 =>
    split at h
    case isTrue => exact .inl h
    case isFalse =>
      cases outcome with
      | loaded payload =>
          dsimp only at h
          split at h <;> exact .inl h
      | missing =>
          rcases Std.ExtTreeSet.mem_insert.mp h with hsame | hold
          · exact .inr ⟨Std.LawfulEqCmp.eq_of_compare hsame, rfl⟩
          · exact .inl hold
      | failed error => exact .inl h

namespace Consistent

variable {s : Loading P} {t : Tile}

theorem not_done_of_inFlight (h : s.Consistent) (ht : t ∈ s.inFlight) : ¬s.Done t := by
  rintro (hresident | hmissing)
  · exact h.inFlight_not_resident t ht hresident
  · exact h.missing_not_inFlight t hmissing ht

/-- The load of a tile on screen is not marked. -/
theorem unmarked (h : s.Consistent) (hflight : t ∈ s.inFlight) (hvisible : t ∈ s.visible) :
    s.inFlight[t]? = some false := by
  rw [getElem?_pos s.inFlight t hflight, Option.some.injEq, Bool.eq_false_iff]
  intro hmarked
  have hentry := getElem?_pos s.inFlight t hflight
  rw [hmarked] at hentry
  exact (h.marked_iff t true hentry).mp rfl hvisible

/-- The outcome of the load of a tile on screen is not thrown away. -/
theorem complete_ne_discarded (h : s.Consistent) (hflight : t ∈ s.inFlight)
    (hvisible : t ∈ s.visible) (outcome : Outcome P) (now : Instant) :
    (s.complete t outcome now).2 ≠ .discarded := by
  unfold Loading.complete
  rw [h.unmarked hflight hvisible]
  cases outcome with
  | loaded payload => simp [getElem?_pos s.visible t hvisible]
  | missing => exact Completion.noConfusion
  | failed error => exact Completion.noConfusion

/-- A tile on screen is done once its load ends without a failure. -/
theorem done_complete (h : s.Consistent) {outcome : Outcome P} (hflight : t ∈ s.inFlight)
    (hvisible : t ∈ s.visible) (houtcome : outcome.isFailed = false) (now : Instant) :
    (s.complete t outcome now).1.Done t := by
  unfold Loading.complete
  rw [h.unmarked hflight hvisible]
  cases outcome with
  | loaded payload =>
      rw [getElem?_pos s.visible t hvisible]
      exact .inl Std.ExtTreeMap.mem_insert_self
  | missing => exact .inr Std.ExtTreeSet.mem_insert_self
  | failed error => cases houtcome

end Consistent

namespace Filed

variable {s : Loading P}

theorem updateVisible (h : s.Filed) (tiles : List (GridTile Float)) (now : Instant) :
    (s.updateVisible tiles now).1.Filed := by
  intro t r hr
  rw [resident_updateVisible, Std.ExtTreeMap.getElem?_filter'] at hr
  exact h t r (Option.filter_eq_some_iff.mp hr).1

theorem complete (h : s.Filed) (t : Tile) (outcome : Outcome P) (now : Instant) :
    (s.complete t outcome now).1.Filed := by
  unfold Loading.complete
  split
  case h_1 => exact h
  case h_2 marked hrunning =>
    split
    case isTrue => exact h
    case isFalse =>
      cases outcome with
      | loaded payload =>
          dsimp only
          split
          case h_1 => exact h
          case h_2 place _ =>
            intro u r hr
            rw [TileMap.getElem?_insert] at hr
            split at hr
            case isTrue hsame =>
              cases hr
              exact hsame
            case isFalse => exact h u r hr
      | missing => exact h
      | failed error => exact h

end Filed

end MapTiles.Loading
