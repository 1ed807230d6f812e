import MapTiles.Proofs.Loading.Difference
import MapTiles.Proofs.Loading.Refresh

/-!
Views that are passed over. If two views are told at the same time, the second one undoes all that
the first did to the loads, the marks and the queue. What the first does for good is to drop tiles: a
tile that it does not show has to be loaded again. So nothing is lost if the first view is left out.
-/

namespace MapTiles.Loading

variable {P : Type} {s : Loading P} {now : Instant}

/-- The tiles that are left after two views are those that both of them show. -/
theorem resident_updateVisible_twice (s : Loading P) (a b : List (GridTile Float))
    (now : Instant) :
    ((s.updateVisible a now).1.updateVisible b now).1.resident =
      (s.updateVisible b now).1.resident.filter fun t _ => (placements a).contains t := by
  simp only [resident_updateVisible]
  apply Std.ExtTreeMap.ext_getElem?
  intro t
  simp only [Std.ExtTreeMap.getElem?_filter', Option.filter_filter, Bool.and_comm]

namespace Consistent

/-- After two views the queue holds what it would hold after the second, and the tiles of the second
that the first has dropped. Such a tile had arrived, so nothing else keeps it out of the queue. -/
theorem mem_queue_updateVisible_twice_iff (h : s.Consistent) (hripe : s.Ripe now)
    (a b : List (GridTile Float)) (r : Request) :
    r ∈ ((s.updateVisible a now).1.updateVisible b now).1.queue ↔
      r ∈ (s.updateVisible b now).1.queue ∨
        (placements b)[r.tile]?.map Placement.priority = some r.priority ∧
          r.tile ∈ s.resident ∧ r.tile ∉ placements a := by
  have hresident : r.tile ∈ (s.updateVisible a now).1.resident ↔
      r.tile ∈ s.resident ∧ r.tile ∈ placements a := by
    rw [resident_updateVisible, Std.ExtTreeMap.mem_filter]
    simp
  have hflight : r.tile ∈ (s.updateVisible a now).1.inFlight ↔ r.tile ∈ s.inFlight := by
    rw [inFlight_updateVisible, Std.ExtTreeMap.mem_map]
  rw [(h.updateVisible a now).mem_queue_updateVisible_iff (hripe.updateVisible (Nat.le_refl now) a),
    h.mem_queue_updateVisible_iff hripe, hresident, hflight, missing_updateVisible,
    errors_updateVisible]
  constructor
  · rintro ⟨hview, hfree, hleft, hrest⟩
    by_cases harrived : r.tile ∈ s.resident
    · exact .inr ⟨hview, harrived, fun hshown => hleft ⟨harrived, hshown⟩⟩
    · exact .inl ⟨hview, hfree, harrived, hrest⟩
  · rintro (⟨hview, hfree, harrived, hrest⟩ | ⟨hview, harrived, hgone⟩)
    · exact ⟨hview, hfree, fun hleft => harrived hleft.1, hrest⟩
    · refine ⟨hview, fun hf => h.inFlight_not_resident _ hf harrived, fun hleft => hgone hleft.2,
        fun hm => h.missing_not_resident _ hm harrived, fun record hrecord => ?_⟩
      exact absurd harrived (h.errors_not_resident _ (of_getElem?_eq_some hrecord))

/-- A view that is told again at the same time changes nothing. -/
theorem updateVisible_again (h : s.Consistent) (tiles : List (GridTile Float)) (now : Instant) :
    (s.updateVisible tiles now).1.updateVisible tiles now =
      ((s.updateVisible tiles now).1, ⟨0, 0, 0, []⟩) :=
  (h.updateVisible tiles now).updateVisible_self (covers_updateVisible s tiles now)
    (fun _ _ hbacks => hbacks.lt_of_updateVisible h) (visible_updateVisible s tiles now)

end Consistent

/-- Whatever operations led to the bookkeeping, two views that are told at a time which is not before
any instant that these were told leave the same tiles on screen, loads, marks, records and missing
tiles as the second view alone. Tiles that the first view does not show are dropped in addition, and
those of them that the second one shows are queued again. The first view told twice is told once. -/
theorem skipped_view_not_missed (maxLoads : Nat) (backoff : BackoffPolicy)
    {operations : List (Operation P)} {now : Instant}
    (htold : ∀ operation ∈ operations, operation.NotAfter now) (a b : List (GridTile Float)) :
    let s := reached maxLoads backoff operations
    let first := (s.updateVisible a now).1
    let both := (first.updateVisible b now).1
    let second := (s.updateVisible b now).1
    both.limits = second.limits ∧ both.visible = second.visible ∧
      both.inFlight = second.inFlight ∧ both.errors = second.errors ∧
      both.missing = second.missing ∧
      both.resident = (second.resident.filter fun t _ => first.isVisible t) ∧
      (∀ r : Request, r ∈ both.queue ↔ r ∈ second.queue ∨
        second.visible[r.tile]?.map Placement.priority = some r.priority ∧
          r.tile ∈ s.resident ∧ r.tile ∉ first.visible) ∧
      (∀ (t : Tile) (p : Nat), both.queued[t]? = some p ↔ ⟨p, t⟩ ∈ both.queue) ∧
      first.updateVisible a now = (first, ⟨0, 0, 0, []⟩) := by
  intro s first both second
  have hconsistent : s.Consistent := consistent_reached maxLoads backoff operations
  have hfirst : first.visible = placements a := visible_updateVisible s a now
  have hsecond : second.visible = placements b := visible_updateVisible s b now
  refine ⟨?_, ?_, ?_, ?_, ?_, ?_, ?_, ?_, hconsistent.updateVisible_again a now⟩
  · exact (limits_updateVisible ..).trans
      ((limits_updateVisible ..).trans (limits_updateVisible ..).symm)
  · exact (visible_updateVisible ..).trans hsecond.symm
  · simp only [both, first, second, inFlight_updateVisible, Std.ExtTreeMap.map_map]
  · simp only [both, first, second, errors_updateVisible]
  · simp only [both, first, second, missing_updateVisible]
  · simp only [isVisible, hfirst]
    exact resident_updateVisible_twice s a b now
  · intro r
    rw [hfirst, hsecond]
    exact hconsistent.mem_queue_updateVisible_twice_iff (ripe_reached htold) a b r
  · have hboth : both.Consistent := (hconsistent.updateVisible a now).updateVisible b now
    exact fun t p => (hboth.mem_queue_iff ⟨p, t⟩).symm

/-- The first of three tiles has arrived. A view without it, followed by one of all three, queues it
again, and the loads are as if the view in between had never been told. -/
theorem skipped_view_not_missed_in_row :
    let s := reached 2 (.ofConfig .standard) rowHistory
    let first := (s.updateVisible [rowEntry 2 5] 4).1
    let b := [rowEntry 0 3, rowEntry 1 1, rowEntry 2 2]
    (∀ operation ∈ rowHistory, operation.NotAfter 4) ∧
      ⟨3, rowTile 0⟩ ∈ (first.updateVisible b 4).1.queue ∧
      (first.updateVisible b 4).1.inFlight = (s.updateVisible b 4).1.inFlight := by
  intro s first b
  have htold : ∀ operation ∈ rowHistory, operation.NotAfter 4 := by
    simp [rowHistory, Operation.NotAfter, Operation.instant?]
  obtain ⟨-, -, hflight, -, -, -, hqueue, -⟩ :=
    skipped_view_not_missed 2 (.ofConfig .standard) htold [rowEntry 2 5] b
  refine ⟨htold, (hqueue ⟨3, rowTile 0⟩).mpr (.inr ⟨?_, ?_, ?_⟩), hflight⟩
  all_goals
    simp only [reached, rowHistory, List.foldl_cons, List.foldl_nil, apply, nextDispatch_eq]
    decide +kernel

end MapTiles.Loading
