import MapTiles.Proofs.Loading.Slots
import Mathlib.Logic.ExistsUnique
import Mathlib.Tactic.ByContra

/-!
Where a tile on screen stands. It waits in the queue, is loading, has arrived, is known to be
missing, or waits out a failure, and it stands in no two of these places at once. No operation
but the emptying of the queue takes a tile on screen out of all of them.
-/

namespace MapTiles

/-- The places in which a tile on screen can be. -/
inductive Standing where
  | queued
  | loading
  | resident
  | missing
  | backingOff
deriving DecidableEq

namespace Loading

variable {P : Type}

/-- Whether a tile stands in a place. A failed tile backs off while it neither waits nor loads. -/
def Stands (s : Loading P) (t : Tile) : Standing → Prop
  | .queued => t ∈ s.queued
  | .loading => t ∈ s.inFlight
  | .resident => t ∈ s.resident
  | .missing => t ∈ s.missing
  | .backingOff => t ∈ s.errors ∧ t ∉ s.queued ∧ t ∉ s.inFlight

/-- Every tile on screen is accounted for. -/
def Covers (s : Loading P) : Prop :=
  ∀ t ∈ s.visible,
    t ∈ s.queued ∨ t ∈ s.inFlight ∨ t ∈ s.resident ∨ t ∈ s.missing ∨ t ∈ s.errors

/-- The places exclude each other. -/
theorem Consistent.standing_unique {s : Loading P} (h : s.Consistent) (t : Tile)
    (a b : Standing) (ha : s.Stands t a) (hb : s.Stands t b) : a = b := by
  have hqueuedFlight := h.queued_not_inFlight t
  have hqueuedResident := h.queued_not_resident t
  have hflightResident := h.inFlight_not_resident t
  have hmissingQueued := h.missing_not_queued t
  have hmissingFlight := h.missing_not_inFlight t
  have hmissingResident := h.missing_not_resident t
  have hmissingErrors := h.missing_not_errors t
  have herrorsResident := h.errors_not_resident t
  cases a <;> cases b <;> simp_all [Stands]

/-- A tile on screen stands in exactly one place. -/
theorem Covers.existsUnique_standing {s : Loading P} (hcovers : s.Covers) (h : s.Consistent)
    (t : Tile) (ht : t ∈ s.visible) : ∃! standing, s.Stands t standing := by
  have hstands : ∃ standing, s.Stands t standing := by
    by_cases hqueued : t ∈ s.queued
    · exact ⟨.queued, hqueued⟩
    by_cases hflight : t ∈ s.inFlight
    · exact ⟨.loading, hflight⟩
    rcases hcovers t ht with hq | hf | hresident | hmissing | herrors
    · exact ⟨.queued, hq⟩
    · exact ⟨.loading, hf⟩
    · exact ⟨.resident, hresident⟩
    · exact ⟨.missing, hmissing⟩
    · exact ⟨.backingOff, herrors, hqueued, hflight⟩
  obtain ⟨standing, hstanding⟩ := hstands
  exact ⟨standing, hstanding, fun other hother => h.standing_unique t other standing hother hstanding⟩

theorem covers_of_visible_empty {s : Loading P} (h : s.visible = ∅) : s.Covers := by
  intro t ht
  simp [h] at ht

/-- A tile that may not enter the queue is accounted for. -/
private theorem covered_of_refused {s : Loading P} {t : Tile} {now : Instant}
    (h : s.accepts t now ≠ true) :
    t ∈ s.queued ∨ t ∈ s.inFlight ∨ t ∈ s.resident ∨ t ∈ s.missing ∨ t ∈ s.errors := by
  by_contra hlost
  simp only [not_or] at hlost
  obtain ⟨hqueued, hflight, hresident, hmissing, herrors⟩ := hlost
  apply h
  rw [accepts_iff]
  refine ⟨hqueued, hflight, hresident, hmissing, ?_⟩
  intro record hrecord
  exact absurd (of_getElem?_eq_some hrecord) herrors

/-- Queueing takes no tile out of the queue. -/
theorem mem_queued_enqueueAll (s : Loading P) (now : Instant) (rs : List Request) (t : Tile)
    (ht : t ∈ s.queued) : t ∈ (s.enqueueAll now rs).queued := by
  induction rs generalizing s with
  | nil => exact ht
  | cons r rest ih =>
      change t ∈ ((s.enqueue now r).enqueueAll now rest).queued
      apply ih
      unfold enqueue
      split
      · exact Std.ExtTreeMap.mem_insert.mpr (.inr ht)
      · exact ht

/-- Whatever is offered to the queue is accounted for afterwards. -/
theorem covered_of_enqueueAll (s : Loading P) (now : Instant) (rs : List Request) (r : Request)
    (hr : r ∈ rs) :
    let next := s.enqueueAll now rs
    r.tile ∈ next.queued ∨ r.tile ∈ next.inFlight ∨ r.tile ∈ next.resident ∨
      r.tile ∈ next.missing ∨ r.tile ∈ next.errors := by
  induction rs generalizing s with
  | nil => cases hr
  | cons q rest ih =>
      rcases List.mem_cons.mp hr with rfl | hrest
      · intro next
        have hframe : next = { s with queue := next.queue, queued := next.queued } :=
          s.enqueueAll_frame now (r :: rest)
        by_cases haccepted : s.accepts r.tile now = true
        · left
          change r.tile ∈ ((s.enqueue now r).enqueueAll now rest).queued
          apply mem_queued_enqueueAll
          rw [enqueue, if_pos haccepted]
          exact Std.ExtTreeMap.mem_insert_self
        · rw [hframe]
          rcases covered_of_refused haccepted with hqueued | helsewhere
          · exact .inl (mem_queued_enqueueAll s now (r :: rest) r.tile hqueued)
          · exact .inr helsewhere
      · exact ih (s.enqueue now q) hrest

theorem Covers.enqueueAll {s : Loading P} (h : s.Covers) (now : Instant) (rs : List Request) :
    (s.enqueueAll now rs).Covers := by
  intro t ht
  rw [enqueueAll_frame] at ht ⊢
  rcases h t ht with hqueued | helsewhere
  · exact .inl (mem_queued_enqueueAll s now rs t hqueued)
  · exact .inr helsewhere

theorem covers_updateVisible (s : Loading P) (tiles : List (GridTile Float)) (now : Instant) :
    (s.updateVisible tiles now).1.Covers := by
  intro t ht
  rw [updateVisible_fst] at ht ⊢
  have hvisible : t ∈ placements tiles := by
    rw [enqueueAll_frame] at ht
    exact ht
  obtain ⟨place, hplace⟩ : ∃ place, (placements tiles)[t]? = some place :=
    ⟨_, getElem?_pos (placements tiles) t hvisible⟩
  have hrequested : (⟨place.priority, t⟩ : Request) ∈ requests (placements tiles) :=
    (mem_requests_iff _ _).mpr (by simp [hplace])
  exact covered_of_enqueueAll _ now _ _ hrequested

theorem Covers.dispatch {s : Loading P} (h : s.Covers) (limit : Nat) :
    (s.dispatch limit).2.Covers := by
  induction limit generalizing s with
  | zero => exact h
  | succ limit ih =>
      simp only [Loading.dispatch]
      cases hnext : s.nextDispatch with
      | none => exact h
      | some started =>
          obtain ⟨r, next⟩ := started
          obtain ⟨-, -, rfl⟩ := (nextDispatch_eq_some_iff s next r).mp hnext
          apply ih
          intro t ht
          simp only [dequeue, TileMap.mem_erase_iff, TileMap.mem_insert_iff]
          by_cases hstarted : r.tile = t
          · exact .inr (.inl (.inl hstarted))
          · rcases h t ht with hqueued | hflight | helsewhere
            · exact .inl ⟨hstarted, hqueued⟩
            · exact .inr (.inl (.inr hflight))
            · exact .inr (.inr helsewhere)

theorem Covers.dispatchAll {s : Loading P} (h : s.Covers) : s.dispatchAll.2.Covers :=
  h.dispatch s.queue.size

/-- The tile of a load that ends has arrived, is missing or has failed, or is off screen. -/
theorem Covers.complete {s : Loading P} (hcovers : s.Covers) (h : s.Consistent) (t : Tile)
    (outcome : Outcome P) (now : Instant) : (s.complete t outcome now).1.Covers := by
  unfold Loading.complete
  split
  case h_1 => exact hcovers
  case h_2 marked hrunning =>
    have hmark := h.marked_iff t marked hrunning
    split
    case isTrue hmarked =>
      intro u hu
      have hother : t ≠ u := fun htu => hmark.mp hmarked (htu ▸ hu)
      simpa [hother] using hcovers u hu
    case isFalse hunmarked =>
      cases outcome with
      | loaded payload =>
          dsimp only
          split
          case h_1 hgone =>
            intro u hu
            have hother : t ≠ u := by
              rintro rfl
              exact absurd hgone (by simpa using hu)
            simpa [hother] using hcovers u hu
          case h_2 place hplace =>
            intro u hu
            by_cases hsame : t = u
            · simp [hsame]
            · simpa [hsame] using hcovers u hu
      | missing =>
          intro u hu
          by_cases hsame : t = u
          · simp [hsame]
          · simpa [hsame] using hcovers u hu
      | failed error =>
          intro u hu
          by_cases hsame : t = u
          · simp [hsame]
          · simpa [hsame] using hcovers u hu

/-- A visible tile that backs off has a time at which it may be tried again. -/
theorem exists_nextRetry {s : Loading P} {t : Tile} (hvisible : t ∈ s.visible)
    (hstands : s.Stands t .backingOff) : ∃ due, s.nextRetry? = some due := by
  obtain ⟨herrors, hqueued, hflight⟩ := hstands
  rw [← Option.isSome_iff_exists, nextRetry?, List.isSome_min?_iff, ne_eq, List.map_eq_nil_iff,
    List.filter_eq_nil_iff]
  intro hnone
  have hentry : (t, s.errors[t]) ∈ s.errors.toList := by simp [herrors]
  exact hnone _ hentry (by simp [hvisible, hqueued, hflight, Bool.eq_false_iff])

/-- Without a visible tile there is nothing to try again. -/
theorem nextRetry_of_visible_empty {s : Loading P} (h : s.visible = ∅) : s.nextRetry? = none := by
  unfold nextRetry?
  simp [h]

end Loading

end MapTiles
