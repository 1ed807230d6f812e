import MapTiles.Proofs.Loading.Arrival
import MapTiles.Proofs.Loading.Offers
import MapTiles.Proofs.Loading.Reached

/-!
What a new view changes. It takes effect in several passes over the containers: tiles that left are
dropped, requests whose priority changed are taken out, loads are marked or taken up again, and the
tiles of the view are offered to the queue. The outcome is told here from the bookkeeping before
alone, and the report of the view counts what makes the difference.
-/

namespace MapTiles.Loading

variable {P : Type} {s : Loading P} {now : Instant}

/-- Of a repeated tile the last entry counts. -/
theorem getElem?_placements (tiles : List (GridTile Float)) (t : Tile) :
    (placements tiles)[t]? = (tiles.reverse.find? fun tile => tile.request.tile == t).map
      fun tile => ⟨tile.request.priority, tile.bounds⟩ := by
  induction tiles using List.reverseRecOn with
  | nil => simp [placements]
  | append_singleton tiles last ih =>
      have hlast : placements (tiles ++ [last]) =
          (placements tiles).insert last.request.tile ⟨last.request.priority, last.bounds⟩ := by
        simp [placements]
      rw [hlast, TileMap.getElem?_insert, List.reverse_append, List.reverse_singleton,
        List.singleton_append, List.find?_cons]
      by_cases h : last.request.tile = t
      · simp [h]
      · rw [if_neg h, beq_false_of_ne h, ih]

/-- Whether a tile of a new view may enter the queue is decided by the bookkeeping before, except that
it must not have kept its place in the queue. -/
theorem accepts_retained_iff (s : Loading P) {visible : TileMap Placement} {t : Tile}
    (ht : t ∈ visible) (now : Instant) :
    (s.retained visible).accepts t now = true ↔
      t ∉ (s.retained visible).queued ∧ t ∉ s.inFlight ∧ t ∉ s.resident ∧ t ∉ s.missing ∧
        ∀ record, s.errors[t]? = some record → record.retryAt ≤ now := by
  have hresident : t ∈ s.resident.filter (fun t _ => visible.contains t) ↔ t ∈ s.resident := by
    rw [Std.ExtTreeMap.mem_filter]
    simp [ht]
  rw [accepts_iff]
  simp only [retained, foldl_dequeue, Std.ExtTreeMap.mem_map, hresident, ErrorRecord.isDue,
    decide_eq_true_eq]

namespace Consistent

/-- A new view takes out of the queue what it does not ask for, and puts in what may enter. -/
theorem mem_queue_updateVisible_iff (h : s.Consistent) (hripe : s.Ripe now)
    (tiles : List (GridTile Float)) (r : Request) :
    r ∈ (s.updateVisible tiles now).1.queue ↔
      (placements tiles)[r.tile]?.map Placement.priority = some r.priority ∧
        r.tile ∉ s.inFlight ∧ r.tile ∉ s.resident ∧ r.tile ∉ s.missing ∧
        ∀ record, s.errors[r.tile]? = some record → record.retryAt ≤ now := by
  have hkept := h.retained (placements tiles)
  have hmember : (placements tiles)[r.tile]?.map Placement.priority = some r.priority →
      r.tile ∈ placements tiles := by
    intro hview
    obtain ⟨place, hplace, -⟩ := Option.map_eq_some_iff.mp hview
    exact of_getElem?_eq_some hplace
  rw [updateVisible_fst, mem_queue_enqueueAll_iff (onScreen_requests s _), mem_requests_iff,
    hkept.mem_queue_iff]
  constructor
  · rintro (hold | ⟨hview, haccepted⟩)
    -- a request that stays waited before, with a record that is ripe
    · obtain ⟨hwaited, hview⟩ := (getElem?_queued_retained s _ _ _).mp hold
      have hqueued : r.tile ∈ s.queued := of_getElem?_eq_some hwaited
      exact ⟨hview, h.queued_not_inFlight _ hqueued, h.queued_not_resident _ hqueued,
        fun hmissing => h.missing_not_queued _ hmissing hqueued, hripe _ hqueued⟩
    · exact ⟨hview, ((accepts_retained_iff s (hmember hview) now).mp haccepted).2⟩
  · rintro ⟨hview, hfree⟩
    by_cases hqueued : r.tile ∈ (s.retained (placements tiles)).queued
    · have hwaits := getElem?_pos _ r.tile hqueued
      have hpriority := hview.symm.trans ((getElem?_queued_retained s _ _ _).mp hwaits).2
      exact .inl (hpriority ▸ hwaits)
    · exact .inr ⟨hview, (accepts_retained_iff s (hmember hview) now).mpr ⟨hqueued, hfree⟩⟩

/-- The requests that a new view queues are those which did not wait before. -/
theorem enqueued_updateVisible (h : s.Consistent) (tiles : List (GridTile Float))
    (now : Instant) :
    (s.updateVisible tiles now).2.enqueued =
      (s.updateVisible tiles now).1.queue.toList.countP fun r => !s.queue.contains r := by
  have hgrown := size_queue_enqueueAll (onScreen_requests s (placements tiles)) now
  change (s.updateVisible tiles now).2.enqueued = _ at hgrown
  rw [hgrown, ← updateVisible_fst]
  apply List.countP_congr
  intro r hr
  -- a request that waited before and is asked for again was never taken out
  have hstays : r ∈ (s.retained (placements tiles)).queue ↔ r ∈ s.queue := by
    rw [mem_queue_retained_iff, mem_staleRequests_iff, and_iff_left_iff_imp]
    have hasked := ((h.updateVisible tiles now).mem_queue_iff r).mp (by simpa using hr)
    have hview := (h.updateVisible tiles now).queued_visible _ _ hasked
    rw [visible_updateVisible] at hview
    exact fun _ hstale => hstale.2 hview
  simp only [Bool.not_eq_true', Bool.eq_false_iff, ne_eq, Std.ExtTreeSet.contains_iff_mem, hstays]

end Consistent

/-- The requests that a new view takes out for good are those of the tiles which it does not show. -/
theorem dequeued_updateVisible (s : Loading P) (tiles : List (GridTile Float)) (now : Instant) :
    (s.updateVisible tiles now).2.dequeued =
      s.queued.keys.countP fun t => !(placements tiles).contains t := by
  change ((s.staleRequests (placements tiles)).filter _).length = _
  rw [← List.countP_eq_length_filter, staleRequests, List.countP_map, Std.ExtTreeMap.toList_filter,
    List.countP_filter, ← Std.ExtTreeMap.map_fst_toList_eq_keys, List.countP_map]
  apply List.countP_congr
  intro entry _
  simp only [Function.comp_apply, Bool.and_eq_true, Bool.not_eq_true', and_iff_left_iff_imp]
  intro hgone
  rw [Std.ExtTreeMap.getElem?_eq_none_of_contains_eq_false hgone]
  rfl

theorem evicted_updateVisible (s : Loading P) (tiles : List (GridTile Float)) (now : Instant) :
    (s.updateVisible tiles now).2.evicted =
      s.resident.keys.countP fun t => !(placements tiles).contains t := by
  change s.resident.size - (s.resident.filter fun t _ => (placements tiles).contains t).size = _
  have hsplit := List.length_eq_countP_add_countP (placements tiles).contains
    (l := s.resident.keys)
  rw [← Std.ExtTreeMap.length_keys, ← Std.ExtTreeMap.length_keys, Std.ExtTreeMap.keys_filter_key,
    ← List.countP_eq_length_filter, hsplit, Nat.add_sub_cancel_left]
  simp only [Bool.not_eq_true, Bool.decide_eq_false]

/-- The loads that a new view cancels were not marked before, and are now. -/
theorem mem_cancelled_updateVisible_iff (s : Loading P) (tiles : List (GridTile Float))
    (now : Instant) (t : Tile) :
    t ∈ (s.updateVisible tiles now).2.cancelled ↔
      s.inFlight[t]? = some false ∧ (s.updateVisible tiles now).1.inFlight[t]? = some true := by
  change t ∈ (s.inFlight.filter fun t marked => !marked && !(placements tiles).contains t).keys ↔ _
  rw [Std.ExtTreeMap.mem_keys, Std.ExtTreeMap.mem_iff_isSome_getElem?,
    Std.ExtTreeMap.getElem?_filter', inFlight_updateVisible, Std.ExtTreeMap.getElem?_map]
  cases s.inFlight[t]? with
  | none => simp
  | some marked => cases marked <;> simp

/-- The difference between the bookkeeping before a view of some tiles and after it, and the report of
the view. -/
structure Difference (s : Loading P) (tiles : List (GridTile Float)) (now : Instant)
    (next : Loading P) (report : VisibleUpdate) : Prop where
  /-- On screen are the tiles of the view, each with the last of its entries. -/
  visible : ∀ t, next.visible[t]? = (tiles.reverse.find? fun tile => tile.request.tile == t).map
    fun tile => ⟨tile.request.priority, tile.bounds⟩
  /-- Queued are the tiles of the view that are not loading, have not arrived, are not known to be
  missing and do not wait out a failure. -/
  mem_queue_iff : ∀ r : Request, r ∈ next.queue ↔
    next.visible[r.tile]?.map Placement.priority = some r.priority ∧
      r.tile ∉ s.inFlight ∧ r.tile ∉ s.resident ∧ r.tile ∉ s.missing ∧
      ¬∃ record, s.errors[r.tile]? = some record ∧ now < record.retryAt
  resident : next.resident = s.resident.filter fun t _ => next.isVisible t
  errors : next.errors = s.errors
  missing : next.missing = s.missing
  inFlight : next.inFlight.keys = s.inFlight.keys
  evicted : report.evicted = s.resident.keys.countP fun t => !next.isVisible t
  dequeued : report.dequeued = s.queued.keys.countP fun t => !next.isVisible t
  cancelled_sorted : report.cancelled.Pairwise fun t u => compare t u = .lt
  mem_cancelled_iff : ∀ t, t ∈ report.cancelled ↔
    s.inFlight[t]? = some false ∧ next.inFlight[t]? = some true
  enqueued : report.enqueued = next.queue.toList.countP fun r => !s.queue.contains r

/-- Whatever operations led to the bookkeeping, and in whatever order they were told their instants,
a view at a time that is not before any of these makes exactly the difference, and reports it. -/
theorem difference_of_view (maxLoads : Nat) (backoff : BackoffPolicy)
    {operations : List (Operation P)} {now : Instant}
    (htold : ∀ operation ∈ operations, operation.NotAfter now) (tiles : List (GridTile Float)) :
    let s := reached maxLoads backoff operations
    Difference s tiles now (s.updateVisible tiles now).1 (s.updateVisible tiles now).2 := by
  intro s
  have hconsistent : s.Consistent := consistent_reached maxLoads backoff operations
  have hvisible := visible_updateVisible s tiles now
  have hshows : (s.updateVisible tiles now).1.isVisible = (placements tiles).contains :=
    congrArg Std.ExtTreeMap.contains hvisible
  exact {
    visible := hvisible ▸ getElem?_placements tiles
    mem_queue_iff := by
      intro r
      rw [hconsistent.mem_queue_updateVisible_iff (ripe_reached htold), hvisible]
      simp only [not_exists, not_and, Nat.not_lt]
    resident := hshows ▸ resident_updateVisible s tiles now
    errors := errors_updateVisible s tiles now
    missing := missing_updateVisible s tiles now
    inFlight := keys_updateVisible s tiles now
    evicted := hshows ▸ evicted_updateVisible s tiles now
    dequeued := hshows ▸ dequeued_updateVisible s tiles now
    cancelled_sorted := Std.ExtTreeMap.ordered_keys
    mem_cancelled_iff := mem_cancelled_updateVisible_iff s tiles now
    enqueued := hconsistent.enqueued_updateVisible tiles now }

/-- A tile of a row. -/
def rowTile (column : Int) : Tile :=
  ⟨column, 0, 0, Binary64.ofFloat 1⟩

/-- A tile of a row as a view asks for it. -/
def rowEntry (column : Int) (priority : Nat) : GridTile Float :=
  ⟨⟨priority, rowTile column⟩, Rect.ofCorners mercatorSystem 0 0 1 1⟩

/-- The first of three tiles has arrived, the second is loading, and the third waits. -/
def rowHistory : List (Operation Unit) :=
  [.updateVisible [rowEntry 0 0, rowEntry 1 1, rowEntry 2 2] 0, .nextDispatch,
    .complete (rowTile 0) (.loaded ()) 3, .nextDispatch]

/-- A view that keeps only the third tile, with another priority, and asks twice for a fourth one. The
first tile is dropped, the load of the second cancelled, and two requests are new. -/
theorem difference_of_view_in_row :
    let s := reached 2 (.ofConfig .standard) rowHistory
    let tiles := [rowEntry 2 5, rowEntry 3 7, rowEntry 3 1]
    (∀ operation ∈ rowHistory, operation.NotAfter 4) ∧
      Difference s tiles 4 (s.updateVisible tiles 4).1 ⟨2, 0, 1, [rowTile 1]⟩ := by
  intro s tiles
  have htold : ∀ operation ∈ rowHistory, operation.NotAfter 4 := by
    simp [rowHistory, Operation.NotAfter, Operation.instant?]
  have hreport : (s.updateVisible tiles 4).2 = ⟨2, 0, 1, [rowTile 1]⟩ := by
    simp only [s, reached, rowHistory, List.foldl_cons, List.foldl_nil, apply, nextDispatch_eq]
    decide +kernel
  exact ⟨htold, hreport ▸ difference_of_view 2 (.ofConfig .standard) htold tiles⟩

end MapTiles.Loading
