import MapTiles.Proofs.Scheduler

/-!
The order of delayed tasks. They wait sorted by the time at which they are due, and those that are
due at the same time in the order in which they were added. The first one therefore comes before
all others.
-/

namespace MapTiles

variable {τ φ : Type}

/-- Whether a delayed task comes before another: it is due earlier, or at the same time and was added
earlier. -/
def Delayed.Before (d e : Delayed τ) : Prop :=
  d.due < e.due ∨ d.due = e.due ∧ d.order < e.order

namespace Scheduler

/-- A task that was added later goes behind those that are due no later. -/
theorem pairwise_insertDelayed {d : Delayed τ} {delayed : List (Delayed τ)}
    (hsorted : delayed.Pairwise Delayed.Before) (hlast : ∀ e ∈ delayed, e.order < d.order) :
    (insertDelayed d delayed).Pairwise Delayed.Before := by
  induction delayed with
  | nil => exact List.pairwise_singleton _ _
  | cons e rest ih =>
      obtain ⟨hfirst, hrest⟩ := List.pairwise_cons.mp hsorted
      unfold insertDelayed
      split
      case isTrue hearlier =>
        refine List.pairwise_cons.mpr ⟨fun x hx => .inl ?_, hsorted⟩
        rcases List.mem_cons.mp hx with rfl | hlater
        · exact hearlier
        · rcases hfirst x hlater with hdue | ⟨hdue, -⟩
          · exact Nat.lt_trans hearlier hdue
          · exact hdue ▸ hearlier
      case isFalse hlater =>
        refine List.pairwise_cons.mpr ⟨fun x hx => ?_, ih hrest fun x hx =>
          hlast x (List.mem_cons_of_mem e hx)⟩
        rcases (mem_insertDelayed_iff d x rest).mp hx with rfl | hold
        · rcases Nat.lt_or_eq_of_le (Nat.le_of_not_lt hlater) with hdue | hdue
          · exact .inl hdue
          · exact .inr ⟨hdue, hlast e List.mem_cons_self⟩
        · exact hfirst x hold

/-- Whether the delayed tasks of a scheduler wait in order, each with a number of its own. -/
structure Ordered (s : Scheduler τ φ) : Prop where
  sorted : s.delayed.Pairwise Delayed.Before
  numbered : ∀ d ∈ s.delayed, d.order < s.added

namespace Ordered

variable {s : Scheduler τ φ}

theorem start : (Scheduler.start : Scheduler τ φ).Ordered :=
  ⟨.nil, fun _ h => nomatch h⟩

theorem addTask (h : s.Ordered) (delay : Duration) (task : τ) : (s.addTask delay task).Ordered := by
  unfold Scheduler.addTask
  split
  · exact ⟨h.sorted, h.numbered⟩
  · refine ⟨pairwise_insertDelayed h.sorted h.numbered, fun d hd => ?_⟩
    rcases (mem_insertDelayed_iff _ d s.delayed).mp hd with rfl | hold
    · exact Nat.lt_succ_self s.added
    · exact Nat.lt_succ_of_lt (h.numbered d hold)

/-- The task that is taken comes before all others. -/
theorem before (h : s.Ordered) {d : Delayed τ} {rest : List (Delayed τ)}
    (hdelayed : s.delayed = d :: rest) : ∀ e ∈ rest, d.Before e :=
  (List.pairwise_cons.mp (hdelayed ▸ h.sorted)).1

end Ordered

end Scheduler

end MapTiles
