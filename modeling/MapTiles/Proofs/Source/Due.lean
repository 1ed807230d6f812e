import MapTiles.Proofs.Loading.Offers
import MapTiles.Proofs.Loading.Reached
import MapTiles.Proofs.Source.Timers
import Mathlib.Data.List.Nodup

/-!
What is due is done. A tile on screen whose wait after a failure is over can enter the queue: its
record of the failure rules out that it has arrived or is known to be missing. So a retry takes all
such tiles at once, and the timer that is set after it lies ahead. A source never wakes itself without
end at the same instant.
-/

namespace MapTiles.Loading

variable {P : Type} {s : Loading P} {now : Instant}

/-- Whether the wait of a tile on screen is over, while the tile neither waits in the queue nor
loads. -/
def Lapsed (s : Loading P) (now : Instant) (t : Tile) : Prop :=
  ∃ record, s.BacksOff t record ∧ record.retryAt ≤ now

instance (s : Loading P) (now : Instant) (t : Tile) : Decidable (s.Lapsed now t) :=
  decidable_of_iff (s.errors[t]?.any (fun record => record.isDue now) ∧
      t ∈ s.visible ∧ t ∉ s.queued ∧ t ∉ s.inFlight) (by
    simp only [Lapsed, BacksOff, Option.any_eq_true, ErrorRecord.isDue, decide_eq_true_eq]
    tauto)

theorem Lapsed.mem_visible {t : Tile} (h : s.Lapsed now t) : t ∈ s.visible := by
  obtain ⟨_, ⟨-, hvisible, -⟩, -⟩ := h
  exact hvisible

theorem Lapsed.not_mem_queued {t : Tile} (h : s.Lapsed now t) : t ∉ s.queued := by
  obtain ⟨_, ⟨-, -, hqueued, -⟩, -⟩ := h
  exact hqueued

namespace Consistent

/-- A failed tile that is due is refused only if it waits or loads already. -/
theorem mem_queue_enqueueDue_iff (h : s.Consistent) (now : Instant) (r : Request) :
    r ∈ (s.enqueueDue now).1.queue ↔ r ∈ s.queue ∨
      s.visible[r.tile]?.map Placement.priority = some r.priority ∧ s.Lapsed now r.tile := by
  rw [Loading.enqueueDue, mem_queue_enqueueAll_iff (onScreen_dueRequests s now), mem_dueRequests_iff]
  refine or_congr_right ⟨?_, ?_⟩
  · rintro ⟨⟨hview, record, hrecord, hdue⟩, haccepted⟩
    obtain ⟨place, hplace, -⟩ := Option.map_eq_some_iff.mp hview
    obtain ⟨hqueued, hflight, -⟩ := (accepts_iff s r.tile now).mp haccepted
    exact ⟨hview, record, ⟨hrecord, of_getElem?_eq_some hplace, hqueued, hflight⟩, hdue⟩
  · rintro ⟨hview, record, hbacks, hdue⟩
    exact ⟨⟨hview, record, hbacks.1, hdue⟩, hbacks.accepts h hdue⟩

/-- A retry counts the tiles that it takes. -/
theorem enqueued_enqueueDue (h : s.Consistent) (now : Instant) :
    (s.enqueueDue now).2 = s.visible.keys.countP fun t => s.Lapsed now t := by
  let next := (s.enqueueDue now).1
  let taken := next.queue.toList.filter fun r => !s.queue.contains r
  have htaken : ∀ r, r ∈ taken ↔ r ∈ next.queue ∧ r ∉ s.queue := by
    intro r
    simp [taken, Bool.eq_false_iff]
  have hgrown : (s.enqueueDue now).2 = (taken.map Request.tile).length := by
    rw [List.length_map, ← List.countP_eq_length_filter]
    exact size_queue_enqueueAll (onScreen_dueRequests s now) now
  have htiles : (taken.map Request.tile).Perm (s.visible.keys.filter fun t => s.Lapsed now t) := by
    have hdistinct : (taken.map Request.tile).Nodup := by
      refine List.Nodup.map_on ?_ (List.Nodup.filter _ ?_)
      · intro q hq r hr htile
        exact (h.enqueueDue now).request_unique ((htaken q).mp hq).1 ((htaken r).mp hr).1 htile
      · exact Std.ExtTreeSet.distinct_toList.imp fun hne heq => hne (by simp [heq])
    rw [List.perm_ext_iff_of_nodup hdistinct (Std.ExtTreeMap.nodup_keys.filter _)]
    intro t
    rw [List.mem_map, List.mem_filter, Std.ExtTreeMap.mem_keys, decide_eq_true_eq]
    constructor
    · rintro ⟨r, hr, rfl⟩
      obtain ⟨hnext, hnew⟩ := (htaken r).mp hr
      have hlapsed := (((h.mem_queue_enqueueDue_iff now r).mp hnext).resolve_left hnew).2
      exact ⟨hlapsed.mem_visible, hlapsed⟩
    · rintro ⟨hvisible, hlapsed⟩
      have hview : s.visible[t]?.map Placement.priority = some s.visible[t].priority := by
        rw [getElem?_pos s.visible t hvisible, Option.map_some]
      refine ⟨⟨s.visible[t].priority, t⟩, (htaken _).mpr ⟨?_, fun hold => ?_⟩, rfl⟩
      · exact (h.mem_queue_enqueueDue_iff now _).mpr (.inr ⟨hview, hlapsed⟩)
      · exact hlapsed.not_mem_queued (of_getElem?_eq_some ((h.mem_queue_iff _).mp hold))
  rw [hgrown, htiles.length_eq, List.countP_eq_length_filter]

end Consistent

end MapTiles.Loading

namespace MapTiles.Source

variable {P : Type}

/-- The timer that a source sets when it handles a retry goes off later. -/
theorem delay_retry_pos {s : Source P} (h : s.loading.Consistent) (now : Instant)
    {delay : Duration} (hset : Effect.wake delay ∈ (s.retry now).effects) : 0 < delay := by
  cases hpaused : s.paused with
  | true =>
      have hidle : (s.retry now).effects = [] := by simp [retry, hpaused, Turn.idle]
      rw [hidle] at hset
      cases hset
  | false =>
      rw [retry_of_active hpaused] at hset
      have harms : ((Turn.idle { s.noted .retry with
          loading := (s.loading.enqueueDue now).1 }).settle now).Arms now none :=
        arms_settle (h.enqueueDue now) rfl rfl
          fun _ due hnext _ => Loading.lt_nextRetry_enqueueDue h hnext
      exact harms.delay_pos hset

end MapTiles.Source

namespace MapTiles.Loading

variable {P : Type}

/-- Whatever operations led to the bookkeeping, a retry at any time queues exactly the tiles on screen
whose wait is over by then and which neither wait nor load, each with the priority that it has on
screen, and counts them. It changes nothing else, and the next attempt lies ahead. So does the timer
of a source that sets one when it handles a retry. -/
theorem lapsed_tiles_taken (maxLoads : Nat) (backoff : BackoffPolicy)
    (operations : List (Operation P)) (now : Instant) :
    let s := reached maxLoads backoff operations
    let next := (s.enqueueDue now).1
    (∀ r : Request, r ∈ next.queue ↔ r ∈ s.queue ∨
      s.visible[r.tile]?.map Placement.priority = some r.priority ∧ s.Lapsed now r.tile) ∧
    (s.enqueueDue now).2 = (s.visible.keys.countP fun t => s.Lapsed now t) ∧
    next = { s with queue := next.queue, queued := next.queued } ∧
    (∀ (t : Tile) (p : Nat), next.queued[t]? = some p ↔ ⟨p, t⟩ ∈ next.queue) ∧
    (∀ due, next.nextRetry? = some due → now < due) ∧
    ∀ source : Source P, source.loading = s →
      ∀ delay, Source.Effect.wake delay ∈ (source.retry now).effects → 0 < delay := by
  intro s next
  have hconsistent : s.Consistent := consistent_reached maxLoads backoff operations
  have hnext : next.Consistent := hconsistent.enqueueDue now
  refine ⟨hconsistent.mem_queue_enqueueDue_iff now, hconsistent.enqueued_enqueueDue now,
    s.enqueueAll_frame now (s.dueRequests now), fun t p => (hnext.mem_queue_iff ⟨p, t⟩).symm,
    fun due hdue => lt_nextRetry_enqueueDue hconsistent hdue, ?_⟩
  intro source hsource delay hset
  exact Source.delay_retry_pos (hsource ▸ hconsistent) now hset

end MapTiles.Loading
