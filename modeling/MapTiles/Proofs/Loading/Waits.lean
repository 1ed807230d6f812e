import MapTiles.Proofs.Backoff
import MapTiles.Proofs.Loading.Slots

/-!
How long a failed tile waits. Only the end of a load and a reset touch the records of failures, and
a tile enters the queue only once it may be tried again. The clock does not go back, so every tile
that is started may be.
-/

namespace MapTiles

/-- What the end of a load does to the record of its tile. -/
def Completion.record (previous : Option ErrorRecord) : Completion → Option ErrorRecord
  | .stored => none
  | .missing => none
  | .failed record => some record
  | .discarded => previous
  | .unknown => previous

namespace Loading

variable {P : Type} {s : Loading P} {now : Instant}

/-- Whether every tile in the queue may be tried again by a time. -/
def Ripe (s : Loading P) (now : Instant) : Prop :=
  ∀ t ∈ s.queued, ∀ record, s.errors[t]? = some record → record.retryAt ≤ now

@[simp] theorem errors_dispatchAll (s : Loading P) : s.dispatchAll.2.errors = s.errors := by
  rw [dispatchAll, dispatch_frame]

@[simp] theorem errors_enqueueDue (s : Loading P) (now : Instant) :
    (s.enqueueDue now).1.errors = s.errors := by
  rw [enqueueDue, enqueueAll_frame]

@[simp] theorem errors_updateVisible (s : Loading P) (tiles : List (GridTile Float))
    (now : Instant) : (s.updateVisible tiles now).1.errors = s.errors := by
  rw [updateVisible_fst, enqueueAll_frame, retained, foldl_dequeue]

/-- The end of a load leaves the records of other tiles alone. -/
theorem getElem?_errors_complete (s : Loading P) (t u : Tile) (outcome : Outcome P)
    (now : Instant) :
    (s.complete t outcome now).1.errors[u]? =
      if t = u then Completion.record s.errors[u]? (s.complete t outcome now).2
      else s.errors[u]? := by
  unfold complete
  split
  case h_1 => simp [Completion.record]
  case h_2 marked hrunning =>
    split
    case isTrue => simp [Completion.record]
    case isFalse =>
      cases outcome with
      | loaded payload =>
          dsimp only
          split
          · simp [Completion.record]
          · simpa [Completion.record] using TileMap.getElem?_erase s.errors t u
      | missing => simpa [Completion.record] using TileMap.getElem?_erase s.errors t u
      | failed error => simpa [Completion.record] using TileMap.getElem?_insert s.errors t u _

/-- A failed load is recorded with its time and the wait that is due. -/
theorem failed_eq (s : Loading P) (t : Tile) (outcome : Outcome P) (now : Instant)
    {record : ErrorRecord} (h : (s.complete t outcome now).2 = .failed record) :
    record = s.backoff.recordFailure s.errors[t]? now := by
  unfold complete at h
  split at h
  case h_1 => cases h
  case h_2 marked hrunning =>
    split at h
    case isTrue => cases h
    case isFalse =>
      cases outcome with
      | loaded payload =>
          dsimp only at h
          split at h <;> cases h
      | missing => cases h
      | failed error => exact (Completion.failed.inj h).symm

namespace Ripe

/-- A ripe queue stays ripe. -/
theorem mono (h : s.Ripe now) {later : Instant} (hnow : now ≤ later) : s.Ripe later :=
  fun t ht record hrecord => Nat.le_trans (h t ht record hrecord) hnow

/-- A queue with fewer tiles is no less ripe. -/
theorem of_subset (h : s.Ripe now) {next : Loading P} (hqueued : ∀ t ∈ next.queued, t ∈ s.queued)
    (herrors : next.errors = s.errors) : next.Ripe now :=
  fun t ht record hrecord => h t (hqueued t ht) record (herrors ▸ hrecord)

/-- A tile enters the queue only if it may be tried again. -/
theorem enqueueAll (h : s.Ripe now) {told : Instant} (htold : told ≤ now) (rs : List Request) :
    (s.enqueueAll told rs).Ripe now := by
  induction rs generalizing s with
  | nil => exact h
  | cons r rest ih =>
      have hnext : (s.enqueue told r).Ripe now := by
        unfold enqueue
        split
        case isTrue haccepted =>
          intro t ht record hrecord
          rcases TileMap.mem_insert_iff.mp ht with rfl | hold
          · obtain ⟨-, -, -, -, hdue⟩ := (accepts_iff s r.tile told).mp haccepted
            exact Nat.le_trans (of_decide_eq_true (hdue record hrecord)) htold
          · exact h t hold record hrecord
        case isFalse => exact h
      exact ih hnext

theorem updateVisible (h : s.Ripe now) {told : Instant} (htold : told ≤ now)
    (tiles : List (GridTile Float)) : (s.updateVisible tiles told).1.Ripe now := by
  rw [updateVisible_fst]
  refine enqueueAll (h.of_subset ?_ ?_) htold _
  · intro t ht
    have hkept := (getElem?_queued_retained s _ t _).mp (getElem?_pos _ t ht)
    exact of_getElem?_eq_some hkept.1
  · rw [retained, foldl_dequeue]

theorem enqueueDue (h : s.Ripe now) {told : Instant} (htold : told ≤ now) :
    (s.enqueueDue told).1.Ripe now :=
  h.enqueueAll htold (s.dueRequests told)

/-- A tile whose load ends does not wait in the queue. -/
theorem complete (h : s.Ripe now) (hconsistent : s.Consistent) (t : Tile) (outcome : Outcome P)
    (told : Instant) : (s.complete t outcome told).1.Ripe now := by
  intro u hu record hrecord
  rw [queued_complete] at hu
  rw [getElem?_errors_complete] at hrecord
  split at hrecord
  case isTrue hsame =>
    subst hsame
    have hunknown : s.complete t outcome told = (s, .unknown) := by
      have habsent : s.inFlight[t]? = none := by
        simpa using hconsistent.queued_not_inFlight t hu
      rw [Loading.complete, habsent]
    rw [hunknown] at hrecord
    exact h t hu record hrecord
  case isFalse => exact h u hu record hrecord

theorem clearQueue (s : Loading P) (now : Instant) : s.clearQueue.1.Ripe now :=
  fun t ht => by simp [Loading.clearQueue] at ht

theorem reset (s : Loading P) (now : Instant) : s.reset.1.Ripe now :=
  fun t ht => by simp [Loading.reset, Loading.clearQueue] at ht

end Ripe

/-- A dispatch starts tiles from the queue, and leaves the others there. -/
theorem dispatch_queued {s : Loading P} (h : s.Consistent) (limit : Nat) :
    (∀ r ∈ (s.dispatch limit).1, r.tile ∈ s.queued) ∧
      ∀ t ∈ (s.dispatch limit).2.queued, t ∈ s.queued := by
  induction limit generalizing s with
  | zero => exact ⟨List.forall_mem_nil _, fun t ht => ht⟩
  | succ limit ih =>
      simp only [dispatch]
      cases hnext : s.nextDispatch with
      | none => exact ⟨List.forall_mem_nil _, fun t ht => ht⟩
      | some started =>
          obtain ⟨r, next⟩ := started
          obtain ⟨-, hleast, hstarted⟩ := (nextDispatch_eq_some_iff s next r).mp hnext
          have hr : r.tile ∈ s.queued :=
            of_getElem?_eq_some ((h.mem_queue_iff r).mp (Std.ExtTreeSet.min?_mem hleast))
          have hfewer : ∀ t ∈ next.queued, t ∈ s.queued := by
            rw [hstarted]
            exact fun t ht => (TileMap.mem_erase_iff.mp ht).2
          obtain ⟨hrest, hleft⟩ := ih (h.nextDispatch hnext)
          refine ⟨?_, fun t ht => hfewer t (hleft t ht)⟩
          intro q hq
          rcases List.mem_cons.mp hq with rfl | hlater
          · exact hr
          · exact hfewer q.tile (hrest q hlater)

/-- Only tiles on screen are started. -/
theorem visible_of_dispatchAll (h : s.Consistent) {t : Tile}
    (ht : t ∈ s.dispatchAll.1.map Request.tile) : t ∈ s.visible := by
  obtain ⟨r, hr, rfl⟩ := List.mem_map.mp ht
  have hqueued := (dispatch_queued h s.queue.size).1 r hr
  obtain ⟨place, hplace, -⟩ := Option.map_eq_some_iff.mp
    (h.queued_visible r.tile _ (getElem?_pos s.queued r.tile hqueued))
  exact of_getElem?_eq_some hplace

end Loading

end MapTiles
