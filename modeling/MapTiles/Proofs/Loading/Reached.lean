import MapTiles.Proofs.Loading.Waits
import Mathlib.Data.List.Induction

/-!
The states to which operations lead from the start. All of them keep the rules of the bookkeeping.
At a time that is not before any instant that the operations were told, every tile in the queue may
be tried, in whatever order the instants came.
-/

namespace MapTiles.Loading

variable {P : Type}

/-- The instant that an operation is told. -/
def Operation.instant? : Operation P → Option Instant
  | .updateVisible _ now => some now
  | .complete _ _ now => some now
  | .enqueueDue now => some now
  | .nextDispatch => none
  | .clearQueue => none
  | .reset => none

/-- Whether an operation is told no instant after a time. -/
def Operation.NotAfter (now : Instant) (operation : Operation P) : Prop :=
  ∀ told ∈ operation.instant?, told ≤ now

/-- The bookkeeping after operations. -/
def reached (maxLoads : Nat) (backoff : BackoffPolicy) (operations : List (Operation P)) :
    Loading P :=
  operations.foldl apply (start maxLoads backoff)

variable {maxLoads : Nat} {backoff : BackoffPolicy} {operations : List (Operation P)}
  {now : Instant}

theorem reached_append (operation : Operation P) :
    reached maxLoads backoff (operations ++ [operation]) =
      (reached maxLoads backoff operations).apply operation := by
  rw [reached, List.foldl_append]
  rfl

theorem consistent_reached (maxLoads : Nat) (backoff : BackoffPolicy)
    (operations : List (Operation P)) : (reached maxLoads backoff operations).Consistent := by
  induction operations using List.reverseRecOn with
  | nil => exact consistent_start maxLoads backoff
  | append_singleton operations operation ih =>
      rw [reached_append]
      exact ih.apply operation

/-- An operation that is told no later instant queues no tile that may not be tried yet. -/
theorem Ripe.apply {s : Loading P} (h : s.Ripe now) (hconsistent : s.Consistent)
    {operation : Operation P} (htold : operation.NotAfter now) : (s.apply operation).Ripe now := by
  cases operation with
  | updateVisible tiles told => exact h.updateVisible (htold told rfl) tiles
  | nextDispatch =>
      simp only [Loading.apply]
      cases hnext : s.nextDispatch with
      | none => exact h
      | some started =>
          obtain ⟨r, next⟩ := started
          obtain ⟨-, -, rfl⟩ := (nextDispatch_eq_some_iff s next r).mp hnext
          exact h.of_subset (fun t ht => (TileMap.mem_erase_iff.mp ht).2) rfl
  | complete t outcome told => exact h.complete hconsistent t outcome told
  | enqueueDue told => exact h.enqueueDue (htold told rfl)
  | clearQueue => exact .clearQueue s now
  | reset => exact .reset s now

theorem ripe_reached (htold : ∀ operation ∈ operations, operation.NotAfter now) :
    (reached maxLoads backoff operations).Ripe now := by
  induction operations using List.reverseRecOn with
  | nil => exact fun t ht => by simp [reached, start] at ht
  | append_singleton operations operation ih =>
      rw [reached_append]
      have hbefore := ih fun earlier hearlier => htold earlier (List.mem_append_left _ hearlier)
      exact hbefore.apply (consistent_reached ..)
        (htold operation (List.mem_append_right _ (List.mem_singleton_self operation)))

end MapTiles.Loading
