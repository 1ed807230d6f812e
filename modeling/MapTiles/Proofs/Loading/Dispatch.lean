import MapTiles.Proofs.Loading.Slots

/-!
The order in which tiles are requested. A new view fixes it: from then on loads start from the front
of the queue, and whatever becomes of a load, it puts no tile into the queue and takes none out. How
many slots there are and when they are freed decides how far the loads have come, and nothing else.
-/

namespace MapTiles.Loading

variable {P : Type}

/-- What happens to the loads of a view: the next one may start, or one of them ends. -/
inductive Event (P : Type) where
  | start
  | finish (tile : Tile) (outcome : Outcome P) (now : Instant)

def Event.operation : Event P → Operation P
  | .start => .nextDispatch
  | .finish tile outcome now => .complete tile outcome now

/-- The bookkeeping after events. -/
def after (s : Loading P) (events : List (Event P)) : Loading P :=
  (events.map Event.operation).foldl apply s

/-- The requests that are started in the course of events. -/
def started (s : Loading P) : List (Event P) → List Request
  | [] => []
  | .start :: rest =>
    match s.nextDispatch with
    | none => s.started rest
    | some (r, next) => r :: next.started rest
  | .finish tile outcome now :: rest => (s.complete tile outcome now).1.started rest

theorem started_cons (s : Loading P) (event : Event P) (rest : List (Event P)) :
    s.started (event :: rest) = s.started [event] ++ (s.apply event.operation).started rest := by
  cases event with
  | start =>
      simp only [started, Event.operation, apply]
      cases s.nextDispatch with
      | none => rfl
      | some first => rfl
  | finish tile outcome now => rfl

theorem started_append (s : Loading P) (events later : List (Event P)) :
    s.started (events ++ later) = s.started events ++ (s.after events).started later := by
  induction events generalizing s with
  | nil => rfl
  | cons event rest ih =>
      rw [List.cons_append, started_cons, ih, started_cons s event rest, List.append_assoc]
      rfl

theorem limits_after (s : Loading P) (events : List (Event P)) :
    (s.after events).limits = s.limits := by
  induction events generalizing s with
  | nil => rfl
  | cons event rest ih => exact (ih (s.apply event.operation)).trans (limits_apply s event.operation)

/-- Without its first request the queue is what comes after it. -/
private theorem toList_erase_head {queue : Std.ExtTreeSet Request} {r : Request}
    {rest : List Request} (h : queue.toList = r :: rest) : (queue.erase r).toList = rest := by
  have hothers : queue.erase r = queue.filter fun q => q ≠ r := by
    apply Std.ExtTreeSet.ext_mem
    intro q
    rw [Std.ExtTreeSet.mem_erase, ne_eq, Std.compare_eq_iff_eq, Std.ExtTreeSet.mem_filter]
    simp only [Std.ExtTreeSet.get_eq, decide_eq_true_eq, exists_prop, ne_comm, and_comm]
  have hfirst : ∀ q ∈ rest, q ≠ r := by
    have hordered : (r :: rest).Pairwise fun q p => compare q p = .lt :=
      h ▸ Std.ExtTreeSet.ordered_toList
    rintro q hq rfl
    exact absurd (List.rel_of_pairwise_cons hordered hq) (by simp)
  rw [hothers, Std.ExtTreeSet.toList_filter, h, List.filter_cons_of_neg (by simp),
    List.filter_eq_self]
  simpa using hfirst

/-- What an event starts comes from the front of the queue, and the rest of it is left. -/
theorem started_append_queue_apply (s : Loading P) (event : Event P) :
    s.started [event] ++ (s.apply event.operation).queue.toList = s.queue.toList := by
  cases event with
  | start =>
      simp only [started, Event.operation, apply]
      cases hnext : s.nextDispatch with
      | none => rfl
      | some first =>
          obtain ⟨r, next⟩ := first
          obtain ⟨-, hleast, rfl⟩ := (nextDispatch_eq_some_iff s next r).mp hnext
          rw [Std.ExtTreeSet.min?_eq_head?_toList, List.head?_eq_some_iff] at hleast
          obtain ⟨rest, hqueue⟩ := hleast
          rw [hqueue]
          exact congrArg (r :: ·) (toList_erase_head hqueue)
  | finish tile outcome now => exact congrArg (·.toList) (queue_complete s tile outcome now)

/-- What has been started and what still waits make up the queue as it was, in its order. -/
theorem started_append_queue (s : Loading P) (events : List (Event P)) :
    s.started events ++ (s.after events).queue.toList = s.queue.toList := by
  induction events generalizing s with
  | nil => rfl
  | cons event rest ih =>
      let next := s.apply event.operation
      calc s.started (event :: rest) ++ (next.after rest).queue.toList
          = s.started [event] ++ (next.started rest ++ (next.after rest).queue.toList) := by
            rw [started_cons, List.append_assoc]
        _ = s.started [event] ++ next.queue.toList := by rw [ih]
        _ = s.queue.toList := started_append_queue_apply s event

/-- Another start takes the next request while a slot is free. -/
theorem started_next {s : Loading P} (hfree : s.inFlight.size < s.maxLoads) :
    s.started [.start] = s.queue.toList.take 1 := by
  rw [started, nextDispatch_eq, if_neg (Nat.not_le.mpr hfree)]
  cases s.queue.toList with
  | nil => rfl
  | cons r rest => rfl

/-- The same bookkeeping with another number of slots. -/
def withSlots (s : Loading P) (slots : Nat) : Loading P :=
  { s with maxLoads := slots }

theorem enqueue_withSlots (s : Loading P) (slots : Nat) (now : Instant) (r : Request) :
    (s.withSlots slots).enqueue now r = (s.enqueue now r).withSlots slots := by
  have haccepts : (s.withSlots slots).accepts r.tile now = s.accepts r.tile now := rfl
  unfold enqueue
  rw [haccepts]
  split <;> rfl

theorem enqueueAll_withSlots (s : Loading P) (slots : Nat) (now : Instant) (rs : List Request) :
    (s.withSlots slots).enqueueAll now rs = (s.enqueueAll now rs).withSlots slots := by
  induction rs generalizing s with
  | nil => rfl
  | cons r rest ih =>
      change ((s.withSlots slots).enqueue now r).enqueueAll now rest = _
      rw [enqueue_withSlots]
      exact ih (s.enqueue now r)

/-- How many slots there are does not matter to what a view queues. -/
theorem updateVisible_withSlots (s : Loading P) (slots : Nat) (tiles : List (GridTile Float))
    (now : Instant) :
    ((s.withSlots slots).updateVisible tiles now).1 =
      (s.updateVisible tiles now).1.withSlots slots := by
  have hretained : ∀ visible, (s.withSlots slots).retained visible =
      (s.retained visible).withSlots slots := by
    intro visible
    simp only [retained, foldl_dequeue]
    rfl
  rw [updateVisible_fst, hretained, enqueueAll_withSlots, ← updateVisible_fst]

theorem compare_request_lt_iff (q r : Request) : compare q r = .lt ↔
    q.priority < r.priority ∨ q.priority = r.priority ∧ compare q.tile r.tile = .lt := by
  change (compare q.priority r.priority).then (compare q.tile r.tile) = .lt ↔ _
  rw [Ordering.then_eq_lt, Nat.compare_eq_lt, Nat.compare_eq_eq]

/-- A view of some tiles leaves requests waiting, whatever the bookkeeping was before, and they are
listed by priority and then by tile. With any number of slots and in the course of any starts and ends
of loads, in any order and with any outcomes, the requests that are started begin this list, and they
are all of it once the queue is empty. So of two courses of events one starts what the other does,
and maybe more. And none lags: while a slot is free, another start takes the next of the list. -/
theorem starts_in_order (s : Loading P) (tiles : List (GridTile Float)) (now : Instant) :
    let order := (s.updateVisible tiles now).1.queue.toList
    let shown (slots : Nat) := ((s.withSlots slots).updateVisible tiles now).1
    (order.Pairwise fun q r =>
      q.priority < r.priority ∨ q.priority = r.priority ∧ compare q.tile r.tile = .lt) ∧
    (∀ slots events, (shown slots).started events <+: order) ∧
    (∀ slots events,
      ((shown slots).after events).queue = ∅ ↔ (shown slots).started events = order) ∧
    (∀ slots events slots' events',
      (shown slots).started events <+: (shown slots').started events' ∨
        (shown slots').started events' <+: (shown slots).started events) ∧
    ∀ slots events, ((shown slots).after events).inFlight.size < slots →
      (shown slots).started (events ++ [.start]) =
        order.take (((shown slots).started events).length + 1) := by
  intro order shown
  have hsplit : ∀ slots events,
      (shown slots).started events ++ ((shown slots).after events).queue.toList = order := by
    intro slots events
    rw [started_append_queue]
    exact congrArg (·.queue.toList) (updateVisible_withSlots s slots tiles now)
  have hbegins : ∀ slots events, (shown slots).started events <+: order :=
    fun slots events => ⟨_, hsplit slots events⟩
  refine ⟨?_, hbegins, ?_, ?_, ?_⟩
  · exact Std.ExtTreeSet.ordered_toList.imp (compare_request_lt_iff _ _).mp
  · intro slots events
    rw [← Std.ExtTreeSet.toList_eq_nil_iff, ← hsplit slots events, List.self_eq_append_right]
  · intro slots events slots' events'
    exact List.prefix_or_prefix_of_prefix (hbegins slots events) (hbegins slots' events')
  · intro slots events hfree
    have hslots : ((shown slots).after events).maxLoads = slots := by
      have hlimits := (limits_after (shown slots) events).trans (limits_updateVisible ..)
      exact congrArg Prod.fst hlimits
    rw [started_append, started_next (hslots.symm ▸ hfree), ← hsplit slots events,
      List.take_length_add_append]

end MapTiles.Loading
