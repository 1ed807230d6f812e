import MapTiles.Proofs.Loading.TileMap

/-!
The rules that tie the containers of the bookkeeping to each other. Every change of the
bookkeeping keeps all of them, in any order and with any arguments: repeated tiles in a view,
outcomes of loads that were never started, instants that go back. None of the rules survives on
its own. That a failed tile is never resident, for instance, needs that a loading tile is not
resident, and this needs that a queued tile is not.
-/

namespace MapTiles.Loading

variable {P : Type}

/-- The rules of the bookkeeping. -/
structure Consistent (s : Loading P) : Prop where
  /-- The queue holds the requests that the tiles and priorities of `queued` make. -/
  mem_queue_iff : ∀ r : Request, r ∈ s.queue ↔ s.queued[r.tile]? = some r.priority
  /-- A queued tile is on screen with the priority under which it waits. -/
  queued_visible : ∀ (t : Tile) (p : Nat), s.queued[t]? = some p →
    s.visible[t]?.map Placement.priority = some p
  queued_not_inFlight : ∀ t ∈ s.queued, t ∉ s.inFlight
  queued_not_resident : ∀ t ∈ s.queued, t ∉ s.resident
  inFlight_not_resident : ∀ t ∈ s.inFlight, t ∉ s.resident
  inFlight_le : s.inFlight.size ≤ s.maxLoads
  /-- The loads marked as cancelled are those whose tile is off screen. -/
  marked_iff : ∀ (t : Tile) (marked : Bool), s.inFlight[t]? = some marked →
    (marked = true ↔ t ∉ s.visible)
  resident_visible : ∀ t ∈ s.resident, t ∈ s.visible
  missing_not_queued : ∀ t ∈ s.missing, t ∉ s.queued
  missing_not_inFlight : ∀ t ∈ s.missing, t ∉ s.inFlight
  missing_not_resident : ∀ t ∈ s.missing, t ∉ s.resident
  missing_not_errors : ∀ t ∈ s.missing, t ∉ s.errors
  errors_not_resident : ∀ t ∈ s.errors, t ∉ s.resident

/-- What never changes: the number of slots and the waits after failures. -/
def limits (s : Loading P) : Nat × BackoffPolicy :=
  (s.maxLoads, s.backoff)

theorem accepts_iff (s : Loading P) (t : Tile) (now : Instant) :
    s.accepts t now = true ↔ t ∉ s.queued ∧ t ∉ s.inFlight ∧ t ∉ s.resident ∧ t ∉ s.missing ∧
      ∀ record, s.errors[t]? = some record → record.isDue now = true := by
  simp [accepts, Option.all_eq_true, and_assoc, Bool.eq_false_iff]

/-- Queueing requests changes nothing but the queue. -/
theorem enqueueAll_frame (s : Loading P) (now : Instant) (rs : List Request) :
    s.enqueueAll now rs =
      { s with queue := (s.enqueueAll now rs).queue, queued := (s.enqueueAll now rs).queued } := by
  induction rs generalizing s with
  | nil => rfl
  | cons r rest ih =>
      simp only [enqueueAll, List.foldl_cons, enqueue]
      by_cases haccepted : s.accepts r.tile now = true
      · rw [if_pos haccepted]
        exact ih { s with queue := s.queue.insert r, queued := s.queued.insert r.tile r.priority }
      · rw [if_neg haccepted]
        exact ih s

theorem visible_enqueue (s : Loading P) (now : Instant) (r : Request) :
    (s.enqueue now r).visible = s.visible := by
  change (s.enqueueAll now [r]).visible = s.visible
  rw [enqueueAll_frame]

/-- Taking requests out of the queue changes nothing else. -/
theorem foldl_dequeue (s : Loading P) (rs : List Request) :
    rs.foldl dequeue s =
      { s with
        queue := rs.foldl (fun queue r => queue.erase r) s.queue
        queued := rs.foldl (fun queued r => queued.erase r.tile) s.queued } := by
  induction rs generalizing s with
  | nil => rfl
  | cons r rest ih =>
      rw [List.foldl_cons, ih]
      rfl

private theorem mem_foldl_erase (queue : Std.ExtTreeSet Request) (rs : List Request)
    (q : Request) :
    q ∈ rs.foldl (fun queue r => queue.erase r) queue ↔ q ∈ queue ∧ q ∉ rs := by
  induction rs generalizing queue with
  | nil => simp
  | cons r rest ih =>
      rw [List.foldl_cons, ih, Std.ExtTreeSet.mem_erase, ne_eq, Std.compare_eq_iff_eq,
        List.mem_cons, not_or, and_assoc]
      constructor
      · rintro ⟨hother, hq, hrest⟩
        exact ⟨hq, Ne.symm hother, hrest⟩
      · rintro ⟨hq, hother, hrest⟩
        exact ⟨Ne.symm hother, hq, hrest⟩

private theorem getElem?_foldl_erase (queued : TileMap Nat) (rs : List Request) (t : Tile) :
    (rs.foldl (fun queued r => queued.erase r.tile) queued)[t]? =
      if t ∈ rs.map Request.tile then none else queued[t]? := by
  induction rs generalizing queued with
  | nil => simp
  | cons r rest ih =>
      rw [List.foldl_cons, ih, TileMap.getElem?_erase, List.map_cons]
      by_cases hrest : t ∈ rest.map Request.tile
      · rw [if_pos hrest, if_pos (List.mem_cons_of_mem _ hrest)]
      · simp only [if_neg hrest, List.mem_cons, or_iff_left hrest, eq_comm]

/-- The requests of a visible set are its tiles with their priorities. -/
theorem mem_requests_iff (visible : TileMap Placement) (r : Request) :
    r ∈ requests visible ↔ visible[r.tile]?.map Placement.priority = some r.priority := by
  simp only [requests, List.mem_map, Option.map_eq_some_iff, Prod.exists]
  constructor
  · rintro ⟨t, place, hmember, rfl⟩
    exact ⟨place, by simpa using hmember, rfl⟩
  · rintro ⟨place, hplace, hpriority⟩
    exact ⟨r.tile, place, by simpa using hplace, by rw [hpriority]⟩

/-- The requests that may be tried again are those of the tiles on screen whose wait is over. -/
theorem mem_dueRequests_iff (s : Loading P) (now : Instant) (r : Request) :
    r ∈ s.dueRequests now ↔ s.visible[r.tile]?.map Placement.priority = some r.priority ∧
      ∃ record, s.errors[r.tile]? = some record ∧ record.retryAt ≤ now := by
  simp only [dueRequests, List.mem_filterMap, Prod.exists]
  constructor
  · rintro ⟨t, record, hmember, hasked⟩
    split at hasked
    case isTrue hdue =>
      obtain ⟨place, hplace, rfl⟩ := Option.map_eq_some_iff.mp hasked
      refine ⟨by simp [hplace], record, ?_, of_decide_eq_true hdue⟩
      exact Std.ExtTreeMap.mem_toList_iff_getElem?_eq_some.mp hmember
    case isFalse => cases hasked
  · rintro ⟨hview, record, hrecord, hdue⟩
    obtain ⟨place, hplace, hpriority⟩ := Option.map_eq_some_iff.mp hview
    have hover : record.isDue now = true := decide_eq_true hdue
    refine ⟨r.tile, record, Std.ExtTreeMap.mem_toList_iff_getElem?_eq_some.mpr hrecord, ?_⟩
    rw [if_pos hover, hplace, Option.map_some, hpriority]

theorem mem_staleRequests_iff (s : Loading P) (visible : TileMap Placement) (r : Request) :
    r ∈ s.staleRequests visible ↔ s.queued[r.tile]? = some r.priority ∧
      visible[r.tile]?.map Placement.priority ≠ some r.priority := by
  simp only [staleRequests, List.mem_map, Prod.exists]
  constructor
  · rintro ⟨t, priority, hmember, rfl⟩
    simpa [Option.filter_eq_some_iff] using hmember
  · rintro ⟨hqueued, hstale⟩
    refine ⟨r.tile, r.priority, ?_, rfl⟩
    simpa [Option.filter_eq_some_iff] using And.intro hqueued hstale

/-- The bookkeeping once a new visible set has taken effect on what there was, before any of its
tiles is queued. -/
def retained (s : Loading P) (visible : TileMap Placement) : Loading P :=
  { (s.staleRequests visible).foldl dequeue s with
    visible := visible
    inFlight := s.inFlight.map fun t _ => !visible.contains t
    resident := s.resident.filter fun t _ => visible.contains t }

theorem updateVisible_fst (s : Loading P) (tiles : List (GridTile Float)) (now : Instant) :
    (s.updateVisible tiles now).1 =
      (s.retained (placements tiles)).enqueueAll now (requests (placements tiles)) := rfl

/-- Whether requests have the priorities that their tiles have on screen. -/
def OnScreen (s : Loading P) (rs : List Request) : Prop :=
  ∀ r ∈ rs, s.visible[r.tile]?.map Placement.priority = some r.priority

theorem onScreen_requests (s : Loading P) (visible : TileMap Placement) :
    (s.retained visible).OnScreen (requests visible) :=
  fun r hr => (mem_requests_iff visible r).mp hr

theorem onScreen_dueRequests (s : Loading P) (now : Instant) : s.OnScreen (s.dueRequests now) :=
  fun r hr => ((mem_dueRequests_iff s now r).mp hr).1

theorem mem_queue_retained_iff (s : Loading P) (visible : TileMap Placement) (r : Request) :
    r ∈ (s.retained visible).queue ↔ r ∈ s.queue ∧ r ∉ s.staleRequests visible := by
  simp only [retained, foldl_dequeue]
  exact mem_foldl_erase s.queue (s.staleRequests visible) r

/-- A tile keeps its place in the queue if the new visible set has it with the same priority. -/
theorem getElem?_queued_retained (s : Loading P) (visible : TileMap Placement) (t : Tile)
    (p : Nat) :
    (s.retained visible).queued[t]? = some p ↔
      s.queued[t]? = some p ∧ visible[t]?.map Placement.priority = some p := by
  simp only [retained, foldl_dequeue, getElem?_foldl_erase, List.mem_map]
  have hstale := mem_staleRequests_iff s visible
  constructor
  · intro h
    have hkept : ¬∃ r ∈ s.staleRequests visible, r.tile = t := by
      intro hmember
      simp [hmember] at h
    have hqueued : s.queued[t]? = some p := by simpa [hkept] using h
    refine ⟨hqueued, Decidable.byContradiction ?_⟩
    intro hchanged
    exact hkept ⟨⟨p, t⟩, (hstale ⟨p, t⟩).mpr ⟨hqueued, hchanged⟩, rfl⟩
  · rintro ⟨hqueued, hsame⟩
    have hkept : ¬∃ r ∈ s.staleRequests visible, r.tile = t := by
      rintro ⟨r, hmember, rfl⟩
      obtain ⟨hr, hchanged⟩ := (hstale r).mp hmember
      have hpriority : p = r.priority := Option.some.inj (hqueued.symm.trans hr)
      exact hchanged (hpriority ▸ hsame)
    simpa [hkept] using hqueued

theorem nextDispatch_eq_some_iff (s next : Loading P) (r : Request) :
    s.nextDispatch = some (r, next) ↔
      s.inFlight.size < s.maxLoads ∧ s.queue.min? = some r ∧
        next = { s.dequeue r with inFlight := s.inFlight.insert r.tile false } := by
  unfold nextDispatch
  split
  case isTrue hfull => simp [Nat.not_lt.mpr hfull]
  case isFalse hfree =>
    simp only [Option.map_eq_some_iff, Prod.mk.injEq, Nat.lt_of_not_le hfree, true_and]
    constructor
    · rintro ⟨q, hq, rfl, rfl⟩
      exact ⟨hq, rfl⟩
    · rintro ⟨hq, rfl⟩
      exact ⟨r, hq, rfl, rfl⟩

theorem nextDispatch_eq_none_iff (s : Loading P) :
    s.nextDispatch = none ↔ s.maxLoads ≤ s.inFlight.size ∨ s.queue = ∅ := by
  unfold nextDispatch
  split
  case isTrue hfull => simp [hfull]
  case isFalse hfree => simp [hfree]

/-! The number of slots and the waits are never changed. -/

@[simp] theorem limits_enqueueAll (s : Loading P) (now : Instant) (rs : List Request) :
    (s.enqueueAll now rs).limits = s.limits := by
  rw [enqueueAll_frame]
  rfl

@[simp] theorem limits_updateVisible (s : Loading P) (tiles : List (GridTile Float))
    (now : Instant) : (s.updateVisible tiles now).1.limits = s.limits := by
  rw [updateVisible_fst, limits_enqueueAll, retained, foldl_dequeue]
  rfl

theorem limits_nextDispatch {s next : Loading P} {r : Request}
    (hnext : s.nextDispatch = some (r, next)) : next.limits = s.limits := by
  obtain ⟨-, -, rfl⟩ := (nextDispatch_eq_some_iff s next r).mp hnext
  rfl

@[simp] theorem limits_complete (s : Loading P) (t : Tile) (outcome : Outcome P)
    (now : Instant) : (s.complete t outcome now).1.limits = s.limits := by
  unfold complete
  repeat' split
  all_goals rfl

@[simp] theorem limits_enqueueDue (s : Loading P) (now : Instant) :
    (s.enqueueDue now).1.limits = s.limits :=
  limits_enqueueAll s now (s.dueRequests now)

theorem consistent_start (maxLoads : Nat) (backoff : BackoffPolicy) :
    (start maxLoads backoff : Loading P).Consistent := by
  constructor <;> simp [start]

namespace Consistent

variable {s : Loading P}

/-- A tile waits under one priority only. -/
theorem request_unique (h : s.Consistent) {q r : Request} (hq : q ∈ s.queue) (hr : r ∈ s.queue)
    (htile : q.tile = r.tile) : q = r := by
  have hpriority := (h.mem_queue_iff q).mp hq
  rw [htile, (h.mem_queue_iff r).mp hr] at hpriority
  cases q
  cases r
  simp_all

theorem enqueue (h : s.Consistent) (now : Instant) (r : Request)
    (hr : s.visible[r.tile]?.map Placement.priority = some r.priority) :
    (s.enqueue now r).Consistent := by
  unfold Loading.enqueue
  split
  case isFalse => exact h
  case isTrue haccepted =>
    obtain ⟨hqueued, hflight, hresident, hmissing, -⟩ := (accepts_iff s r.tile now).mp haccepted
    refine { h with
      mem_queue_iff := ?_, queued_visible := ?_
      queued_not_inFlight := TileMap.forall_insert hflight h.queued_not_inFlight
      queued_not_resident := TileMap.forall_insert hresident h.queued_not_resident
      missing_not_queued := TileMap.not_mem_insert hmissing h.missing_not_queued }
    · intro q
      rw [Std.ExtTreeSet.mem_insert, Std.compare_eq_iff_eq, TileMap.getElem?_insert,
        h.mem_queue_iff]
      by_cases htile : r.tile = q.tile
      -- the tile did not wait before, so its only request is the new one
      · have habsent : s.queued[q.tile]? = none := by
          rw [← htile]
          simpa using hqueued
        rw [if_pos htile, habsent, Option.some.injEq]
        constructor
        · rintro (rfl | hold)
          · rfl
          · cases hold
        · intro hpriority
          cases q
          cases r
          exact .inl (by simp_all)
      · have hother : r ≠ q := fun hsame => htile (congrArg Request.tile hsame)
        rw [if_neg htile, or_iff_right hother]
    · intro t p hp
      rw [TileMap.getElem?_insert] at hp
      split at hp
      case isTrue htile =>
        rw [← htile, ← hp]
        exact hr
      case isFalse => exact h.queued_visible t p hp

theorem enqueueAll (h : s.Consistent) (now : Instant) (rs : List Request)
    (hrs : s.OnScreen rs) : (s.enqueueAll now rs).Consistent := by
  induction rs generalizing s with
  | nil => exact h
  | cons r rest ih =>
      apply ih (h.enqueue now r (hrs r (by simp)))
      intro q hq
      rw [visible_enqueue]
      exact hrs q (by simp [hq])

/-- The rules hold again before the tiles of the new visible set are queued. -/
theorem retained (h : s.Consistent) (visible : TileMap Placement) :
    (s.retained visible).Consistent := by
  have hqueued := getElem?_queued_retained s visible
  have hmem : ∀ t ∈ (s.retained visible).queued, t ∈ s.queued := by
    intro t ht
    have hp := getElem?_pos (s.retained visible).queued t ht
    exact of_getElem?_eq_some ((hqueued t _).mp hp).1
  have hflight : ∀ t, t ∈ (s.retained visible).inFlight ↔ t ∈ s.inFlight := by
    simp [Loading.retained]
  have hresident : ∀ t ∈ (s.retained visible).resident, t ∈ s.resident ∧ t ∈ visible := by
    intro t ht
    simp only [Loading.retained, Std.ExtTreeMap.mem_filter] at ht
    exact ⟨ht.1, by simpa using ht.2⟩
  constructor
  case mem_queue_iff =>
    intro r
    rw [mem_queue_retained_iff, mem_staleRequests_iff, hqueued, h.mem_queue_iff]
    constructor
    · rintro ⟨hr, hkept⟩
      exact ⟨hr, Decidable.byContradiction fun hchanged => hkept ⟨hr, hchanged⟩⟩
    · rintro ⟨hr, hsame⟩
      exact ⟨hr, fun hstale => hstale.2 hsame⟩
  case queued_visible => exact fun t p ht => ((hqueued t p).mp ht).2
  case queued_not_inFlight =>
    exact fun t ht hf => h.queued_not_inFlight t (hmem t ht) ((hflight t).mp hf)
  case queued_not_resident =>
    exact fun t ht hr => h.queued_not_resident t (hmem t ht) (hresident t hr).1
  case inFlight_not_resident =>
    exact fun t ht hr => h.inFlight_not_resident t ((hflight t).mp ht) (hresident t hr).1
  case inFlight_le => simpa [Loading.retained, foldl_dequeue] using h.inFlight_le
  case marked_iff =>
    intro t marked ht
    simp only [Loading.retained, Std.ExtTreeMap.getElem?_map, Option.map_eq_some_iff] at ht
    obtain ⟨_, _, rfl⟩ := ht
    simp [Loading.retained, Bool.eq_false_iff]
  case resident_visible => exact fun t ht => (hresident t ht).2
  case missing_not_queued =>
    intro t ht hq
    simp only [Loading.retained, foldl_dequeue] at ht
    exact h.missing_not_queued t ht (hmem t hq)
  case missing_not_inFlight =>
    intro t ht hf
    simp only [Loading.retained, foldl_dequeue] at ht
    exact h.missing_not_inFlight t ht ((hflight t).mp hf)
  case missing_not_resident =>
    intro t ht hr
    simp only [Loading.retained, foldl_dequeue] at ht
    exact h.missing_not_resident t ht (hresident t hr).1
  case missing_not_errors => simpa [Loading.retained, foldl_dequeue] using h.missing_not_errors
  case errors_not_resident =>
    intro t ht hr
    simp only [Loading.retained, foldl_dequeue] at ht
    exact h.errors_not_resident t ht (hresident t hr).1

theorem updateVisible (h : s.Consistent) (tiles : List (GridTile Float)) (now : Instant) :
    (s.updateVisible tiles now).1.Consistent := by
  rw [updateVisible_fst]
  exact (h.retained (placements tiles)).enqueueAll now _ (onScreen_requests s _)

theorem nextDispatch (h : s.Consistent) {r : Request} {next : Loading P}
    (hnext : s.nextDispatch = some (r, next)) : next.Consistent := by
  obtain ⟨hfree, hleast, rfl⟩ := (nextDispatch_eq_some_iff s next r).mp hnext
  have hwaiting : s.queued[r.tile]? = some r.priority :=
    (h.mem_queue_iff r).mp (Std.ExtTreeSet.min?_mem hleast)
  have hqueued : r.tile ∈ s.queued := of_getElem?_eq_some hwaiting
  have hvisible : r.tile ∈ s.visible := by
    obtain ⟨place, hplace, -⟩ :=
      Option.map_eq_some_iff.mp (h.queued_visible r.tile r.priority hwaiting)
    exact of_getElem?_eq_some hplace
  have hflight := h.queued_not_inFlight r.tile hqueued
  have hresident := h.queued_not_resident r.tile hqueued
  have hmissing : r.tile ∉ s.missing := fun hm => h.missing_not_queued r.tile hm hqueued
  have hgone := TileMap.not_mem_erase_self s.queued r.tile
  refine { h with
    mem_queue_iff := ?_, queued_visible := ?_, inFlight_le := ?_, marked_iff := ?_
    queued_not_inFlight :=
      TileMap.not_mem_insert hgone (TileMap.forall_erase h.queued_not_inFlight)
    queued_not_resident := TileMap.forall_erase h.queued_not_resident
    inFlight_not_resident := TileMap.forall_insert hresident h.inFlight_not_resident
    missing_not_queued := TileMap.not_mem_erase h.missing_not_queued
    missing_not_inFlight := TileMap.not_mem_insert hmissing h.missing_not_inFlight }
  · intro q
    change q ∈ s.queue.erase r ↔ (s.queued.erase r.tile)[q.tile]? = some q.priority
    rw [Std.ExtTreeSet.mem_erase, ne_eq, Std.compare_eq_iff_eq, TileMap.getElem?_erase,
      h.mem_queue_iff]
    by_cases htile : r.tile = q.tile
    -- another request of the tile would be the same one
    · rw [if_pos htile]
      constructor
      · rintro ⟨hother, hq⟩
        have hmember := Std.ExtTreeSet.min?_mem hleast
        exact absurd (h.request_unique hmember ((h.mem_queue_iff q).mpr hq) htile) hother
      · intro hnone
        cases hnone
    · have hother : r ≠ q := fun hsame => htile (congrArg Request.tile hsame)
      rw [if_neg htile, and_iff_right hother]
  · intro t p hp
    change (s.queued.erase r.tile)[t]? = some p at hp
    rw [TileMap.getElem?_erase] at hp
    split at hp
    case isTrue => cases hp
    case isFalse => exact h.queued_visible t p hp
  · rw [Std.ExtTreeMap.size_insert, if_neg (by simpa using hflight)]
    exact hfree
  · intro t marked ht
    rw [TileMap.getElem?_insert] at ht
    split at ht
    case isTrue htile =>
      cases ht
      rw [← htile]
      exact ⟨fun hmarked => (nomatch hmarked), fun hgone => absurd hvisible hgone⟩
    case isFalse => exact h.marked_iff t marked ht

theorem dispatch (h : s.Consistent) (limit : Nat) : (s.dispatch limit).2.Consistent := by
  induction limit generalizing s with
  | zero => exact h
  | succ limit ih =>
      simp only [Loading.dispatch]
      cases hnext : s.nextDispatch with
      | none => exact h
      | some started => exact ih (h.nextDispatch hnext)

theorem dispatchAll (h : s.Consistent) : s.dispatchAll.2.Consistent :=
  h.dispatch s.queue.size

/-- A load that ends without being marked has its tile on screen, so a payload is stored. -/
theorem complete_loaded (h : s.Consistent) (t : Tile) (payload : P) (now : Instant)
    (hrunning : s.inFlight[t]? = some false) :
    (s.complete t (.loaded payload) now).2 = .stored := by
  have hvisible : t ∈ s.visible := by
    apply Decidable.byContradiction
    intro hgone
    cases (h.marked_iff t false hrunning).mpr hgone
  simp [Loading.complete, hrunning, getElem?_pos s.visible t hvisible]

/-- A load that has ended leaves its tile free to be anything. -/
theorem freed (h : s.Consistent) (t : Tile) :
    ({ s with inFlight := s.inFlight.erase t } : Loading P).Consistent := by
  refine { h with
    queued_not_inFlight := TileMap.not_mem_erase h.queued_not_inFlight
    inFlight_not_resident := TileMap.forall_erase h.inFlight_not_resident
    inFlight_le := Nat.le_trans Std.ExtTreeMap.size_erase_le h.inFlight_le
    marked_iff := ?_
    missing_not_inFlight := TileMap.not_mem_erase h.missing_not_inFlight }
  intro u marked hu
  rw [TileMap.getElem?_erase] at hu
  split at hu
  case isTrue => cases hu
  case isFalse => exact h.marked_iff u marked hu

theorem complete (h : s.Consistent) (t : Tile) (outcome : Outcome P) (now : Instant) :
    (s.complete t outcome now).1.Consistent := by
  have hfreed := h.freed t
  unfold Loading.complete
  split
  case h_1 => exact h
  case h_2 marked hrunning =>
    have hflight : t ∈ s.inFlight := of_getElem?_eq_some hrunning
    have hqueued : t ∉ s.queued := fun hq => h.queued_not_inFlight t hq hflight
    have hresident := h.inFlight_not_resident t hflight
    have hmissing : t ∉ s.missing := fun hm => h.missing_not_inFlight t hm hflight
    have hflightGone := TileMap.not_mem_erase_self s.inFlight t
    have herrorsGone := TileMap.not_mem_erase_self s.errors t
    split
    case isTrue => exact hfreed
    case isFalse hunmarked =>
      cases outcome with
      | loaded payload =>
          dsimp only
          split
          case h_1 => exact hfreed
          case h_2 place hplace =>
            have hvisible : t ∈ s.visible := of_getElem?_eq_some hplace
            exact { hfreed with
              queued_not_resident := TileMap.not_mem_insert hqueued h.queued_not_resident
              inFlight_not_resident :=
                TileMap.not_mem_insert hflightGone hfreed.inFlight_not_resident
              resident_visible := TileMap.forall_insert hvisible h.resident_visible
              missing_not_resident := TileMap.not_mem_insert hmissing h.missing_not_resident
              missing_not_errors := TileMap.not_mem_erase h.missing_not_errors
              errors_not_resident :=
                TileMap.not_mem_insert herrorsGone (TileMap.forall_erase h.errors_not_resident) }
      | missing =>
          exact { hfreed with
            missing_not_queued := TileSet.forall_insert hqueued h.missing_not_queued
            missing_not_inFlight :=
              TileSet.forall_insert hflightGone hfreed.missing_not_inFlight
            missing_not_resident := TileSet.forall_insert hresident h.missing_not_resident
            missing_not_errors :=
              TileSet.forall_insert herrorsGone (TileMap.not_mem_erase h.missing_not_errors)
            errors_not_resident := TileMap.forall_erase h.errors_not_resident }
      | failed error =>
          exact { hfreed with
            missing_not_errors := TileMap.not_mem_insert hmissing h.missing_not_errors
            errors_not_resident := TileMap.forall_insert hresident h.errors_not_resident }

theorem clearQueue (h : s.Consistent) : s.clearQueue.1.Consistent := by
  refine { h with
    mem_queue_iff := ?_, queued_visible := ?_, queued_not_inFlight := ?_
    queued_not_resident := ?_, missing_not_queued := ?_ }
  all_goals simp [Loading.clearQueue]

theorem reset (h : s.Consistent) : s.reset.1.Consistent := by
  have hcleared := h.clearQueue
  refine { hcleared with
    queued_not_resident := ?_, inFlight_not_resident := ?_, resident_visible := ?_
    missing_not_resident := ?_, missing_not_errors := ?_, errors_not_resident := ?_ }
  all_goals simp [Loading.reset]

theorem enqueueDue (h : s.Consistent) (now : Instant) : (s.enqueueDue now).1.Consistent :=
  h.enqueueAll now _ (onScreen_dueRequests s now)

end Consistent

/-- The ways in which the bookkeeping changes. -/
inductive Operation (P : Type) where
  | updateVisible (tiles : List (GridTile Float)) (now : Instant)
  | nextDispatch
  | complete (tile : Tile) (outcome : Outcome P) (now : Instant)
  | enqueueDue (now : Instant)
  | clearQueue
  | reset

/-- The bookkeeping after an operation. -/
def apply (s : Loading P) : Operation P → Loading P
  | .updateVisible tiles now => (s.updateVisible tiles now).1
  | .nextDispatch => (s.nextDispatch.map Prod.snd).getD s
  | .complete tile outcome now => (s.complete tile outcome now).1
  | .enqueueDue now => (s.enqueueDue now).1
  | .clearQueue => s.clearQueue.1
  | .reset => s.reset.1

theorem Consistent.apply {s : Loading P} (h : s.Consistent) (operation : Operation P) :
    (s.apply operation).Consistent := by
  cases operation with
  | updateVisible tiles now => exact h.updateVisible tiles now
  | nextDispatch =>
      simp only [Loading.apply]
      cases hnext : s.nextDispatch with
      | none => exact h
      | some started => exact h.nextDispatch hnext
  | complete tile outcome now => exact h.complete tile outcome now
  | enqueueDue now => exact h.enqueueDue now
  | clearQueue => exact h.clearQueue
  | reset => exact h.reset

theorem limits_apply (s : Loading P) (operation : Operation P) :
    (s.apply operation).limits = s.limits := by
  cases operation with
  | updateVisible tiles now => exact limits_updateVisible s tiles now
  | nextDispatch =>
      simp only [apply]
      cases hnext : s.nextDispatch with
      | none => rfl
      | some started => exact limits_nextDispatch hnext
  | complete tile outcome now => exact limits_complete s tile outcome now
  | enqueueDue now => exact limits_enqueueDue s now
  | clearQueue => rfl
  | reset => rfl

/-- The rules hold after any operations in any order. The bookkeeping starts with at least one slot,
and keeps their number; a tile never waits twice; and the payload of a load that was not cancelled
always finds its tile on screen. -/
theorem consistent_after_operations (maxLoads : Nat) (shortest longest : Duration)
    (operations : List (Operation P)) :
    let s := operations.foldl apply (start maxLoads (BackoffPolicy.between shortest longest))
    s.Consistent ∧ s.maxLoads = max maxLoads 1 ∧
      (∀ q ∈ s.queue, ∀ r ∈ s.queue, q.tile = r.tile → q = r) ∧
      ∀ t payload now, s.inFlight[t]? = some false →
        (s.complete t (.loaded payload) now).2 = .stored := by
  intro s
  have hrun : ∀ first : Loading P, first.Consistent →
      (operations.foldl apply first).Consistent ∧
        (operations.foldl apply first).limits = first.limits := by
    induction operations with
    | nil => exact fun first h => ⟨h, rfl⟩
    | cons operation rest ih =>
        intro first h
        obtain ⟨hconsistent, hlimits⟩ := ih (first.apply operation) (h.apply operation)
        exact ⟨hconsistent, hlimits.trans (limits_apply first operation)⟩
  obtain ⟨hconsistent, hlimits⟩ := hrun _ (consistent_start _ _)
  refine ⟨hconsistent, congrArg Prod.fst hlimits, ?_, ?_⟩
  · intro q hq r hr htile
    exact hconsistent.request_unique hq hr htile
  · intro t payload now hrunning
    exact hconsistent.complete_loaded t payload now hrunning

end MapTiles.Loading
