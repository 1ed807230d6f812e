import MapTiles.Proofs.Loading.Coverage

/-!
What becomes of requests that are offered to the queue. As long as they are requests of the visible
set, so that no tile has two of them, the queue takes exactly those whose tiles could enter it before
the first was offered: none of them keeps another one out.
-/

namespace MapTiles.Loading

variable {P : Type} {s : Loading P} {now : Instant}

/-- A tile has one request. -/
theorem OnScreen.eq_of_tile {rs : List Request} (h : s.OnScreen rs) {q r : Request} (hq : q ∈ rs)
    (hr : r ∈ rs) (htile : q.tile = r.tile) : q = r := by
  have hpriority := h q hq
  rw [htile, h r hr, Option.some.injEq] at hpriority
  cases q
  cases r
  simp_all

/-- A request that enters the queue keeps out its own tile only. -/
theorem accepts_enqueue_iff {r : Request} (haccepted : s.accepts r.tile now = true) (t : Tile) :
    (s.enqueue now r).accepts t now = true ↔ r.tile ≠ t ∧ s.accepts t now = true := by
  rw [enqueue, if_pos haccepted]
  simp only [accepts_iff, TileMap.mem_insert_iff, not_or, and_assoc, ne_eq]

/-- The queue keeps what it had, and takes the requests on screen whose tiles may enter it. -/
theorem mem_queue_enqueueAll_iff {rs : List Request} (h : s.OnScreen rs) (q : Request) :
    q ∈ (s.enqueueAll now rs).queue ↔ q ∈ s.queue ∨ q ∈ rs ∧ s.accepts q.tile now = true := by
  induction rs generalizing s with
  | nil => simp [enqueueAll]
  | cons r rest ih =>
      have hrest : (s.enqueue now r).OnScreen rest := by
        intro p hp
        rw [visible_enqueue]
        exact h p (List.mem_cons_of_mem r hp)
      change q ∈ ((s.enqueue now r).enqueueAll now rest).queue ↔ _
      rw [ih hrest, List.mem_cons]
      by_cases haccepted : s.accepts r.tile now = true
      · have hqueue : q ∈ (s.enqueue now r).queue ↔ q = r ∨ q ∈ s.queue := by
          rw [enqueue, if_pos haccepted, Std.ExtTreeSet.mem_insert, Std.compare_eq_iff_eq, eq_comm]
        rw [hqueue, accepts_enqueue_iff haccepted]
        constructor
        · rintro ((rfl | hbefore) | ⟨hlater, -, hq⟩)
          · exact .inr ⟨.inl rfl, haccepted⟩
          · exact .inl hbefore
          · exact .inr ⟨.inr hlater, hq⟩
        · rintro (hbefore | ⟨rfl | hlater, hq⟩)
          · exact .inl (.inr hbefore)
          · exact .inl (.inl rfl)
          -- a later request of the same tile is the same request
          · by_cases htile : r.tile = q.tile
            · have hsame : r = q :=
                h.eq_of_tile List.mem_cons_self (List.mem_cons_of_mem r hlater) htile
              exact .inl (.inl hsame.symm)
            · exact .inr ⟨hlater, htile, hq⟩
      · have hsame : s.enqueue now r = s := by rw [enqueue, if_neg haccepted]
        rw [hsame]
        constructor
        · rintro (hbefore | ⟨hlater, hq⟩)
          · exact .inl hbefore
          · exact .inr ⟨.inr hlater, hq⟩
        · rintro (hbefore | ⟨rfl | hlater, hq⟩)
          · exact .inl hbefore
          · exact absurd hq haccepted
          · exact .inr ⟨hlater, hq⟩

/-- The size of a set less that of a part of it counts what lies outside of the part. -/
private theorem size_sub_size {part whole : Std.ExtTreeSet Request} (h : ∀ r ∈ part, r ∈ whole) :
    whole.size - part.size = whole.toList.countP fun r => !part.contains r := by
  have hkept : whole.filter part.contains = part := by
    apply Std.ExtTreeSet.ext_mem
    intro r
    simp only [Std.ExtTreeSet.mem_filter, Std.ExtTreeSet.get_eq, Std.ExtTreeSet.contains_iff_mem,
      exists_prop]
    exact ⟨And.right, fun hr => ⟨h r hr, hr⟩⟩
  have hinside : whole.toList.countP part.contains = part.size := by
    rw [List.countP_eq_length_filter, ← Std.ExtTreeSet.toList_filter, hkept,
      Std.ExtTreeSet.length_toList]
  have hsplit := List.length_eq_countP_add_countP part.contains (l := whole.toList)
  rw [Std.ExtTreeSet.length_toList, hinside] at hsplit
  simp only [Bool.not_eq_true, Bool.decide_eq_false] at hsplit
  rw [hsplit, Nat.add_sub_cancel_left]

/-- By as many requests the queue grows as there are new ones in it. -/
theorem size_queue_enqueueAll {rs : List Request} (h : s.OnScreen rs) (now : Instant) :
    (s.enqueueAll now rs).queue.size - s.queue.size =
      (s.enqueueAll now rs).queue.toList.countP fun r => !s.queue.contains r :=
  size_sub_size fun r hr => (mem_queue_enqueueAll_iff h r).mpr (.inl hr)

end MapTiles.Loading
