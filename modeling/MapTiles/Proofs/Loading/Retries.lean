import MapTiles.Proofs.Loading.Arrival
import MapTiles.Proofs.Loading.Offers
import MapTiles.Proofs.Loading.Waits

/-!
The time of the next attempt. It is the earliest time at which a visible tile that backs off may be
tried again. Once the tiles that may be tried again have been queued it lies ahead, and starting
loads does not change it. If there is none, and no tile waits or loads, every tile on screen has
arrived or is known to be missing.
-/

namespace MapTiles.Loading

variable {P : Type} {s : Loading P} {now due : Instant}

/-- Whether a tile on screen waits out a failure, with this record. -/
def BacksOff (s : Loading P) (t : Tile) (record : ErrorRecord) : Prop :=
  s.errors[t]? = some record ∧ t ∈ s.visible ∧ t ∉ s.queued ∧ t ∉ s.inFlight

/-- The next attempt is that of a tile that backs off, and no other is earlier. -/
theorem nextRetry_eq_some_iff (s : Loading P) (due : Instant) :
    s.nextRetry? = some due ↔
      (∃ t record, s.BacksOff t record ∧ record.retryAt = due) ∧
        ∀ t record, s.BacksOff t record → due ≤ record.retryAt := by
  have hmember : ∀ t record, (t, record) ∈ s.errors.toList.filter (fun entry =>
      s.visible.contains entry.1 && !s.queued.contains entry.1 && !s.inFlight.contains entry.1) ↔
      s.BacksOff t record := by
    intro t record
    simp [BacksOff, and_assoc, Bool.eq_false_iff]
  unfold nextRetry?
  rw [List.min?_eq_some_iff]
  simp only [List.mem_map, Prod.exists, hmember, forall_exists_index, and_imp]
  constructor
  · rintro ⟨hleast, hle⟩
    exact ⟨hleast, fun t record hbacks => hle _ t record hbacks rfl⟩
  · rintro ⟨hleast, hle⟩
    refine ⟨hleast, ?_⟩
    rintro _ t record hbacks rfl
    exact hle t record hbacks

/-- The next attempt is no later than that of any tile that backs off. -/
theorem BacksOff.exists_nextRetry_le {t : Tile} {record : ErrorRecord} (h : s.BacksOff t record) :
    ∃ due, s.nextRetry? = some due ∧ due ≤ record.retryAt := by
  obtain ⟨due, hdue⟩ := exists_nextRetry h.2.1 ⟨of_getElem?_eq_some h.1, h.2.2⟩
  exact ⟨due, hdue, ((nextRetry_eq_some_iff s due).mp hdue).2 t record h⟩

/-- A tile that backs off and may be tried again is not refused by the queue. Its record rules out that
it has arrived or is known to be missing. -/
theorem BacksOff.accepts (h : s.Consistent) {t : Tile} {record : ErrorRecord}
    (hbacks : s.BacksOff t record) (hdue : record.retryAt ≤ now) : s.accepts t now = true := by
  obtain ⟨hrecord, -, hqueued, hflight⟩ := hbacks
  have hfailed : t ∈ s.errors := of_getElem?_eq_some hrecord
  rw [accepts_iff]
  refine ⟨hqueued, hflight, h.errors_not_resident t hfailed,
    fun hmissing => h.missing_not_errors t hmissing hfailed, fun other hother => ?_⟩
  rw [Option.some.inj (hother.symm.trans hrecord)]
  exact decide_eq_true hdue

/-- Once every tile on screen that may be tried again was offered to the queue, the next attempt
lies ahead. -/
theorem lt_nextRetry_enqueueAll (h : s.Consistent) {rs : List Request} (hscreen : s.OnScreen rs)
    (hoffered : ∀ t ∈ s.visible, ∀ record, s.errors[t]? = some record → record.retryAt ≤ now →
      ∃ r ∈ rs, r.tile = t)
    (hnext : nextRetry? (s.enqueueAll now rs) = some due) : now < due := by
  obtain ⟨⟨t, record, hbacks, rfl⟩, -⟩ := (nextRetry_eq_some_iff _ _).mp hnext
  have hleft : t ∉ (s.enqueueAll now rs).queued := hbacks.2.2.1
  rw [enqueueAll_frame] at hbacks
  obtain ⟨hrecord, hvisible, -, hflight⟩ := hbacks
  apply Nat.lt_of_not_le
  intro hdue
  obtain ⟨r, hr, rfl⟩ := hoffered t hvisible record hrecord hdue
  have hbefore : s.BacksOff r.tile record :=
    ⟨hrecord, hvisible, fun hqueued => hleft (mem_queued_enqueueAll s now rs _ hqueued), hflight⟩
  have hqueue := (mem_queue_enqueueAll_iff hscreen r).mpr (.inr ⟨hr, hbefore.accepts h hdue⟩)
  exact hleft (of_getElem?_eq_some (((h.enqueueAll now rs hscreen).mem_queue_iff r).mp hqueue))

/-- Once the tiles that may be tried again have been queued, the next attempt lies ahead. -/
theorem lt_nextRetry_enqueueDue (h : s.Consistent)
    (hnext : nextRetry? (s.enqueueDue now).1 = some due) : now < due := by
  refine lt_nextRetry_enqueueAll h (onScreen_dueRequests s now) ?_ hnext
  intro t hvisible record hrecord hdue
  exact ⟨⟨s.visible[t].priority, t⟩,
    (mem_dueRequests_iff s now _).mpr ⟨by simp [hvisible], record, hrecord, hdue⟩, rfl⟩

/-- Once a view is shown, the next attempt lies ahead. -/
theorem lt_nextRetry_updateVisible (h : s.Consistent) {tiles : List (GridTile Float)}
    (hnext : nextRetry? (s.updateVisible tiles now).1 = some due) : now < due := by
  rw [updateVisible_fst] at hnext
  refine lt_nextRetry_enqueueAll (h.retained (placements tiles)) (onScreen_requests s _) ?_ hnext
  intro t hvisible record _ _
  have ht : t ∈ placements tiles := hvisible
  exact ⟨⟨(placements tiles)[t].priority, t⟩, (mem_requests_iff _ _).mpr (by simp [ht]), rfl⟩

/-- Once a view is shown, every wait for a failed tile goes on. -/
theorem BacksOff.lt_of_updateVisible (h : s.Consistent) {tiles : List (GridTile Float)} {t : Tile}
    {record : ErrorRecord} (hbacks : (s.updateVisible tiles now).1.BacksOff t record) :
    now < record.retryAt := by
  obtain ⟨due, hdue, hsoon⟩ := hbacks.exists_nextRetry_le
  exact Nat.lt_of_lt_of_le (lt_nextRetry_updateVisible h hdue) hsoon

/-- A tile that backs off after the end of a load did so before, or its load is the one that
failed. -/
theorem backsOff_of_complete (h : s.Consistent) (t : Tile) (outcome : Outcome P) {u : Tile}
    {record : ErrorRecord} (hbacks : (s.complete t outcome now).1.BacksOff u record) :
    s.BacksOff u record ∨ record = s.backoff.recordFailure s.errors[t]? now := by
  obtain ⟨hrecord, hvisible, hqueued, hflight⟩ := hbacks
  rw [visible_complete] at hvisible
  rw [queued_complete] at hqueued
  rw [inFlight_complete, TileMap.mem_erase_iff, not_and] at hflight
  rw [getElem?_errors_complete] at hrecord
  by_cases hsame : t = u
  · subst hsame
    rw [if_pos rfl] at hrecord
    cases hcompletion : (s.complete t outcome now).2 with
    | stored => simp [hcompletion, Completion.record] at hrecord
    | missing => simp [hcompletion, Completion.record] at hrecord
    | failed other =>
        right
        rw [hcompletion] at hrecord
        rw [← Option.some.inj hrecord]
        exact failed_eq s t outcome now hcompletion
    | unknown =>
        left
        rw [hcompletion] at hrecord
        exact ⟨hrecord, hvisible, hqueued, fun hrunning =>
          complete_ne_unknown s t outcome now hrunning hcompletion⟩
    | discarded =>
        left
        rw [hcompletion] at hrecord
        refine ⟨hrecord, hvisible, hqueued, fun hrunning => ?_⟩
        exact h.complete_ne_discarded hrunning hvisible outcome now hcompletion
  · rw [if_neg hsame] at hrecord
    exact .inl ⟨hrecord, hvisible, hqueued, hflight hsame⟩

/-- Starting loads makes no tile back off, and none stop. -/
theorem backsOff_dispatch_iff (h : s.Consistent) (limit : Nat) (t : Tile) (record : ErrorRecord) :
    (s.dispatch limit).2.BacksOff t record ↔ s.BacksOff t record := by
  induction limit generalizing s with
  | zero => rfl
  | succ limit ih =>
      simp only [dispatch]
      cases hnext : s.nextDispatch with
      | none => rfl
      | some started =>
          obtain ⟨r, next⟩ := started
          obtain ⟨-, hleast, hstarted⟩ := (nextDispatch_eq_some_iff s next r).mp hnext
          have hr : r.tile ∈ s.queued :=
            of_getElem?_eq_some ((h.mem_queue_iff r).mp (Std.ExtTreeSet.min?_mem hleast))
          refine (ih (h.nextDispatch hnext)).trans ?_
          rw [hstarted]
          simp only [BacksOff, dequeue, TileMap.mem_erase_iff, TileMap.mem_insert_iff]
          by_cases hsame : r.tile = t
          · subst hsame
            simp [hr]
          · simp [hsame]

theorem nextRetry_dispatchAll (h : s.Consistent) :
    nextRetry? s.dispatchAll.2 = s.nextRetry? := by
  apply Option.ext
  intro due
  simp only [nextRetry_eq_some_iff, dispatchAll, backsOff_dispatch_iff h]

/-- A free slot is used as long as a tile waits. -/
theorem dispatchAll_ne_nil (hqueue : s.queue ≠ ∅) (hfree : s.inFlight.size < s.maxLoads) :
    s.dispatchAll.1 ≠ [] := by
  obtain ⟨limit, hlimit⟩ : ∃ limit, s.queue.size = limit + 1 :=
    Nat.exists_eq_succ_of_ne_zero (mt Std.ExtTreeSet.eq_empty_iff_size_eq_zero.mpr hqueue)
  rw [dispatchAll, hlimit, dispatch]
  cases hnext : s.nextDispatch with
  | none =>
      rcases (nextDispatch_eq_none_iff s).mp hnext with hfull | hempty
      · exact absurd hfree (Nat.not_lt.mpr hfull)
      · exact absurd hempty hqueue
  | some started => exact List.cons_ne_nil _ _

theorem Consistent.queued_eq_empty (h : s.Consistent) (hqueue : s.queue = ∅) : s.queued = ∅ := by
  rw [Std.ExtTreeMap.eq_empty_iff_forall_not_mem]
  intro t ht
  have hr := (h.mem_queue_iff ⟨s.queued[t], t⟩).mpr (getElem?_pos s.queued t ht)
  simp [hqueue] at hr

/-- If no tile may be tried again, nothing changes. -/
theorem enqueueDue_of_empty (h : s.Consistent) (hbefore : s.queue = ∅)
    (hafter : (s.enqueueDue now).1.queue = ∅) : (s.enqueueDue now).1 = s := by
  have hqueued := (h.enqueueDue now).queued_eq_empty hafter
  have hframe : (s.enqueueDue now).1 = { s with
      queue := (s.enqueueDue now).1.queue, queued := (s.enqueueDue now).1.queued } :=
    s.enqueueAll_frame now (s.dueRequests now)
  rw [hframe, hafter, hqueued, ← hbefore, ← h.queued_eq_empty hbefore]

/-- If no tile waits, loads or is to be tried again, every tile on screen is done. -/
theorem Covers.done (hcovers : s.Covers) (h : s.Consistent) (hqueue : s.queue = ∅)
    (hflight : s.inFlight = ∅) (hretry : s.nextRetry? = none) {t : Tile} (ht : t ∈ s.visible) :
    s.Done t ∧ ¬s.Stands t .backingOff := by
  have hwaits : ¬s.Stands t .backingOff := by
    intro hstands
    obtain ⟨due, hdue⟩ := exists_nextRetry ht hstands
    cases hdue.symm.trans hretry
  refine ⟨?_, hwaits⟩
  have hqueued := h.queued_eq_empty hqueue
  rcases hcovers t ht with hq | hf | hresident | hmissing | herrors
  · simp [hqueued] at hq
  · simp [hflight] at hf
  · exact .inl hresident
  · exact .inr hmissing
  · exact absurd ⟨herrors, by simp [hqueued], by simp [hflight]⟩ hwaits

end MapTiles.Loading
