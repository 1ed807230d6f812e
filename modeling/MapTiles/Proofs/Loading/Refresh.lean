import MapTiles.Proofs.Loading.Retries

/-!
Showing the tiles that are on screen already. Nothing is dropped, dequeued or cancelled, and nothing
is queued if every tile on screen is accounted for and none that backs off may be tried again.
-/

namespace MapTiles.Loading

variable {P : Type} {s : Loading P} {now : Instant}

/-- Requests whose tiles may not enter the queue leave it as it is. -/
theorem enqueueAll_of_refused {rs : List Request} (h : ∀ r ∈ rs, s.accepts r.tile now = false) :
    s.enqueueAll now rs = s := by
  induction rs with
  | nil => rfl
  | cons r rest ih =>
      have hrefused : s.enqueue now r = s := by
        rw [enqueue, h r List.mem_cons_self, if_neg Bool.false_ne_true]
      change (s.enqueue now r).enqueueAll now rest = s
      rw [hrefused]
      exact ih fun q hq => h q (List.mem_cons_of_mem r hq)

/-- A tile on screen that is accounted for enters the queue only if it backs off and may be tried
again. -/
theorem Covers.accepts_eq_false (hcovers : s.Covers) {t : Tile} (hvisible : t ∈ s.visible)
    (hwaits : ∀ record, s.BacksOff t record → now < record.retryAt) : s.accepts t now = false := by
  rw [Bool.eq_false_iff, ne_eq, accepts_iff]
  rintro ⟨hqueued, hflight, hresident, hmissing, hdue⟩
  have herrors : t ∈ s.errors := by
    rcases hcovers t hvisible with hq | hf | hr | hm | he
    · exact absurd hq hqueued
    · exact absurd hf hflight
    · exact absurd hr hresident
    · exact absurd hm hmissing
    · exact he
  have hrecord := getElem?_pos s.errors t herrors
  have hlate := hwaits _ ⟨hrecord, hvisible, hqueued, hflight⟩
  exact absurd (of_decide_eq_true (hdue _ hrecord)) (Nat.not_le.mpr hlate)

namespace Consistent

/-- No request is stale under the visible set that is there already. -/
theorem staleRequests_visible (h : s.Consistent) : s.staleRequests s.visible = [] := by
  rw [List.eq_nil_iff_forall_not_mem]
  intro r hr
  obtain ⟨hqueued, hchanged⟩ := (mem_staleRequests_iff s s.visible r).mp hr
  exact hchanged (h.queued_visible r.tile r.priority hqueued)

theorem marks_visible (h : s.Consistent) :
    s.inFlight.map (fun t _ => !s.visible.contains t) = s.inFlight := by
  apply Std.ExtTreeMap.ext_getElem?
  intro t
  rw [Std.ExtTreeMap.getElem?_map]
  cases hrunning : s.inFlight[t]? with
  | none => rfl
  | some marked =>
      have hmarked := h.marked_iff t marked hrunning
      rw [Option.map_some, Option.some.injEq, Bool.eq_iff_iff, hmarked]
      simp [Bool.eq_false_iff]

theorem filter_resident_visible (h : s.Consistent) :
    s.resident.filter (fun t _ => s.visible.contains t) = s.resident := by
  rw [Std.ExtTreeMap.filter_eq_self_iff]
  intro t ht
  simpa using h.resident_visible t ht

theorem retained_visible (h : s.Consistent) : s.retained s.visible = s := by
  rw [Loading.retained, h.staleRequests_visible, h.marks_visible, h.filter_resident_visible]
  rfl

/-- Only loads of tiles that are on screen can be cancelled by a new view. -/
theorem cancelled_visible (h : s.Consistent) :
    s.inFlight.filter (fun t marked => !marked && !s.visible.contains t) = ∅ := by
  rw [Std.ExtTreeMap.eq_empty_iff_forall_not_mem]
  intro t ht
  obtain ⟨hflight, hcancelled⟩ := Std.ExtTreeMap.mem_filter.mp ht
  have hmarked := h.marked_iff t _ (getElem?_pos s.inFlight t hflight)
  simp_all [Bool.eq_false_iff]

/-- The tiles on screen can be shown again without any change. -/
theorem updateVisible_self (h : s.Consistent) (hcovers : s.Covers)
    (hwaits : ∀ t record, s.BacksOff t record → now < record.retryAt)
    {tiles : List (GridTile Float)} (hvisible : s.visible = placements tiles) :
    s.updateVisible tiles now = (s, ⟨0, 0, 0, []⟩) := by
  have hrefused : s.enqueueAll now (requests s.visible) = s := by
    apply enqueueAll_of_refused
    intro r hr
    obtain ⟨place, hplace, -⟩ :=
      Option.map_eq_some_iff.mp ((mem_requests_iff s.visible r).mp hr)
    exact hcovers.accepts_eq_false (of_getElem?_eq_some hplace) (hwaits r.tile)
  have hretained : (s.retained s.visible).enqueueAll now (requests s.visible) = s := by
    rw [h.retained_visible, hrefused]
  unfold Loading.updateVisible
  rw [← hvisible]
  refine Prod.ext hretained ?_
  change VisibleUpdate.mk
    (((s.retained s.visible).enqueueAll now (requests s.visible)).queue.size -
      (s.retained s.visible).queue.size)
    ((s.staleRequests s.visible).filter _).length
    (s.resident.size - (s.resident.filter fun t _ => s.visible.contains t).size)
    (s.inFlight.filter fun t marked => !marked && !s.visible.contains t).keys = _
  rw [hretained, h.retained_visible, h.staleRequests_visible, h.filter_resident_visible,
    h.cancelled_visible, Nat.sub_self, Nat.sub_self]
  rfl

end Consistent

end MapTiles.Loading
