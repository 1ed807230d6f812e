import MapTiles.Proofs.Loading.Consistency

/-!
How the slots for loads are used. A load that starts takes its tile from the queue to the running
loads, a load that ends takes its tile from there, and nothing else does either. Dispatching
stops only when the queue is empty or every slot is taken.
-/

namespace MapTiles.Loading

variable {P : Type}

/-- No slot is free while a tile waits. -/
def Saturated (s : Loading P) : Prop :=
  s.queue = ∅ ∨ s.inFlight.size = s.maxLoads

/-- The request at the head of the queue is started if a slot is free. -/
theorem nextDispatch_eq (s : Loading P) :
    s.nextDispatch =
      if s.maxLoads ≤ s.inFlight.size then none
      else s.queue.toList.head?.map fun r =>
        (r, { s.dequeue r with inFlight := s.inFlight.insert r.tile false }) := by
  rw [nextDispatch, Std.ExtTreeSet.min?_eq_head?_toList]

/-- What dispatching leaves as it is. -/
theorem dispatch_frame (s : Loading P) (limit : Nat) :
    (s.dispatch limit).2 =
      { s with
        queue := (s.dispatch limit).2.queue
        queued := (s.dispatch limit).2.queued
        inFlight := (s.dispatch limit).2.inFlight } := by
  induction limit generalizing s with
  | zero => rfl
  | succ limit ih =>
      simp only [dispatch]
      cases hnext : s.nextDispatch with
      | none => rfl
      | some started =>
          obtain ⟨r, next⟩ := started
          obtain ⟨-, -, rfl⟩ := (nextDispatch_eq_some_iff s next r).mp hnext
          exact ih { s.dequeue r with inFlight := s.inFlight.insert r.tile false }

@[simp] theorem limits_dispatchAll (s : Loading P) : s.dispatchAll.2.limits = s.limits := by
  rw [dispatchAll, dispatch_frame]
  rfl

@[simp] theorem visible_dispatchAll (s : Loading P) : s.dispatchAll.2.visible = s.visible := by
  rw [dispatchAll, dispatch_frame]

/-- A dispatch with room for the whole queue goes on until nothing more can start. -/
theorem saturated_dispatch {s : Loading P} (h : s.Consistent) (limit : Nat)
    (hlimit : s.queue.size ≤ limit) : (s.dispatch limit).2.Saturated := by
  induction limit generalizing s with
  | zero => exact .inl (Std.ExtTreeSet.eq_empty_iff_size_eq_zero.mpr (Nat.le_zero.mp hlimit))
  | succ limit ih =>
      simp only [dispatch]
      cases hnext : s.nextDispatch with
      | none =>
          rcases (nextDispatch_eq_none_iff s).mp hnext with hfull | hempty
          · exact .inr (Nat.le_antisymm h.inFlight_le hfull)
          · exact .inl hempty
      | some started =>
          obtain ⟨r, next⟩ := started
          have hstep := (nextDispatch_eq_some_iff s next r).mp hnext
          have hmember : r ∈ s.queue := Std.ExtTreeSet.min?_mem hstep.2.1
          have hqueue : next.queue = s.queue.erase r := by rw [hstep.2.2]; rfl
          apply ih (h.nextDispatch hnext)
          rw [hqueue, Std.ExtTreeSet.size_erase, if_pos (by simpa using hmember)]
          omega

theorem saturated_dispatchAll {s : Loading P} (h : s.Consistent) : s.dispatchAll.2.Saturated :=
  saturated_dispatch h s.queue.size (Nat.le_refl _)

/-- Nothing starts while no slot is free for a tile that waits. -/
theorem Saturated.dispatchAll_eq {s : Loading P} (h : s.Saturated) : s.dispatchAll = ([], s) := by
  have hnone : s.nextDispatch = none := by
    rw [nextDispatch_eq_none_iff]
    rcases h with hempty | hfull
    · exact .inr hempty
    · exact .inl (Nat.le_of_eq hfull.symm)
  unfold dispatchAll
  cases s.queue.size with
  | zero => rfl
  | succ limit => rw [dispatch, hnone]

/-- A request that waits alone is started if a slot is free. -/
theorem dispatchAll_single {s : Loading P} {r : Request} (hqueue : s.queue.toList = [r])
    (hfree : s.inFlight.size < s.maxLoads) :
    s.dispatchAll =
      ([r], { s.dequeue r with inFlight := s.inFlight.insert r.tile false }) := by
  have hleast : s.queue.min? = some r := by
    rw [Std.ExtTreeSet.min?_eq_head?_toList, hqueue]
    rfl
  have hnext := (nextDispatch_eq_some_iff s _ r).mpr ⟨hfree, hleast, rfl⟩
  have hsize : s.queue.size = 1 := by
    rw [← Std.ExtTreeSet.length_toList, hqueue]
    rfl
  simp [dispatchAll, hsize, dispatch, hnext]

private theorem keys_insert_perm (running : TileMap Bool) (t : Tile) (marked : Bool)
    (ht : t ∉ running) : (running.insert t marked).keys.Perm (t :: running.keys) := by
  rw [List.perm_ext_iff_of_nodup Std.ExtTreeMap.nodup_keys
    (List.nodup_cons.mpr ⟨by simpa using ht, Std.ExtTreeMap.nodup_keys⟩)]
  intro u
  rw [Std.ExtTreeMap.mem_keys, TileMap.mem_insert_iff, List.mem_cons, Std.ExtTreeMap.mem_keys,
    eq_comm]

private theorem keys_erase_perm (running : TileMap Bool) (t : Tile) (ht : t ∈ running) :
    (t :: (running.erase t).keys).Perm running.keys := by
  rw [List.perm_ext_iff_of_nodup
    (List.nodup_cons.mpr ⟨by simp, Std.ExtTreeMap.nodup_keys⟩) Std.ExtTreeMap.nodup_keys]
  intro u
  rw [List.mem_cons, Std.ExtTreeMap.mem_keys, Std.ExtTreeMap.mem_keys, TileMap.mem_erase_iff]
  by_cases hu : t = u
  · subst hu
    simp [ht]
  · simp [hu, Ne.symm hu]

/-- The running loads after a dispatch are those before it and those that it started. -/
theorem keys_dispatch {s : Loading P} (h : s.Consistent) (limit : Nat) :
    (s.dispatch limit).2.inFlight.keys.Perm
      ((s.dispatch limit).1.map Request.tile ++ s.inFlight.keys) := by
  induction limit generalizing s with
  | zero => exact .refl _
  | succ limit ih =>
      simp only [dispatch]
      cases hnext : s.nextDispatch with
      | none => exact .refl _
      | some started =>
          obtain ⟨r, next⟩ := started
          have hstep := (nextDispatch_eq_some_iff s next r).mp hnext
          have hqueued : r.tile ∈ s.queued :=
            of_getElem?_eq_some ((h.mem_queue_iff r).mp (Std.ExtTreeSet.min?_mem hstep.2.1))
          have hkeys : next.inFlight.keys.Perm (r.tile :: s.inFlight.keys) := by
            rw [hstep.2.2]
            exact keys_insert_perm s.inFlight r.tile false (h.queued_not_inFlight r.tile hqueued)
          have hrest := ih (h.nextDispatch hnext)
          exact hrest.trans ((hkeys.append_left _).trans List.perm_middle)

theorem keys_dispatchAll {s : Loading P} (h : s.Consistent) :
    s.dispatchAll.2.inFlight.keys.Perm (s.dispatchAll.1.map Request.tile ++ s.inFlight.keys) :=
  keys_dispatch h s.queue.size

/-- A load that ends is running no more, and no other is touched. -/
theorem inFlight_complete (s : Loading P) (t : Tile) (outcome : Outcome P) (now : Instant) :
    (s.complete t outcome now).1.inFlight = s.inFlight.erase t := by
  unfold complete
  split
  case h_1 hnone =>
    apply Std.ExtTreeMap.ext_getElem?
    intro u
    rw [TileMap.getElem?_erase]
    split
    case isTrue hsame => rw [← hsame, hnone]
    case isFalse => rfl
  case h_2 =>
    repeat' split
    all_goals rfl

/-- A load that ends frees the slot of its tile and no other. -/
theorem keys_complete (s : Loading P) (t : Tile) (outcome : Outcome P) (now : Instant)
    (ht : t ∈ s.inFlight) :
    (t :: (s.complete t outcome now).1.inFlight.keys).Perm s.inFlight.keys := by
  rw [inFlight_complete]
  exact keys_erase_perm s.inFlight t ht

/-- The outcome of a running load is never taken for that of an unknown one. -/
theorem complete_ne_unknown (s : Loading P) (t : Tile) (outcome : Outcome P) (now : Instant)
    (ht : t ∈ s.inFlight) : (s.complete t outcome now).2 ≠ .unknown := by
  rw [complete, getElem?_pos s.inFlight t ht]
  dsimp only
  repeat' split
  all_goals exact Completion.noConfusion

/-- A new view marks the loads of the tiles that it does not show, and no others. -/
theorem inFlight_updateVisible (s : Loading P) (tiles : List (GridTile Float)) (now : Instant) :
    (s.updateVisible tiles now).1.inFlight =
      s.inFlight.map fun t _ => !(placements tiles).contains t := by
  rw [updateVisible_fst, enqueueAll_frame]
  rfl

@[simp] theorem keys_updateVisible (s : Loading P) (tiles : List (GridTile Float))
    (now : Instant) : (s.updateVisible tiles now).1.inFlight.keys = s.inFlight.keys := by
  rw [inFlight_updateVisible, Std.ExtTreeMap.keys_map]

@[simp] theorem visible_updateVisible (s : Loading P) (tiles : List (GridTile Float))
    (now : Instant) : (s.updateVisible tiles now).1.visible = placements tiles := by
  rw [updateVisible_fst, enqueueAll_frame]
  rfl

@[simp] theorem visible_complete (s : Loading P) (t : Tile) (outcome : Outcome P)
    (now : Instant) : (s.complete t outcome now).1.visible = s.visible := by
  unfold complete
  repeat' split
  all_goals rfl

@[simp] theorem queue_complete (s : Loading P) (t : Tile) (outcome : Outcome P)
    (now : Instant) : (s.complete t outcome now).1.queue = s.queue := by
  unfold complete
  repeat' split
  all_goals rfl

@[simp] theorem queued_complete (s : Loading P) (t : Tile) (outcome : Outcome P)
    (now : Instant) : (s.complete t outcome now).1.queued = s.queued := by
  unfold complete
  repeat' split
  all_goals rfl

@[simp] theorem visible_enqueueDue (s : Loading P) (now : Instant) :
    (s.enqueueDue now).1.visible = s.visible := by
  rw [enqueueDue, enqueueAll_frame]

@[simp] theorem inFlight_enqueueDue (s : Loading P) (now : Instant) :
    (s.enqueueDue now).1.inFlight = s.inFlight := by
  rw [enqueueDue, enqueueAll_frame]

end MapTiles.Loading
