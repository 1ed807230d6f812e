import MapTiles.Mailbox

/-!
Where a message ends up among those that wait: behind all of them, unless one of them gives way
to it. So of the messages that replace each other at most one waits. A mailbox is owed one delivery
as long as something waits in it.
-/

namespace MapTiles.Mailbox

variable {μ : Type}

theorem givesWay_iff (waiting message : Envelope μ) :
    givesWay waiting message = true ↔ waiting.duplication = .replaceNewest ∧
      message.duplication = .replaceNewest ∧ waiting.identifier = message.identifier := by
  simp [givesWay, and_assoc]

/-- Either nothing gives way, or the first message that does is replaced where it stands. -/
theorem place_cases (message : Envelope μ) (queue : List (Envelope μ)) :
    ((∀ waiting ∈ queue, givesWay waiting message = false) ∧
      place message queue = queue ++ [message]) ∨
    ∃ front waiting back, queue = front ++ waiting :: back ∧
      givesWay waiting message = true ∧ place message queue = front ++ message :: back := by
  induction queue with
  | nil => exact .inl ⟨fun _ h => (nomatch h), rfl⟩
  | cons first rest ih =>
      cases hfirst : givesWay first message with
      | true => exact .inr ⟨[], first, rest, rfl, hfirst, by simp [place, hfirst]⟩
      | false =>
          rcases ih with ⟨hnone, hplace⟩ | ⟨front, waiting, back, hrest, hgives, hplace⟩
          · left
            refine ⟨?_, by simp [place, hfirst, hplace]⟩
            intro waiting hwaiting
            rcases List.mem_cons.mp hwaiting with rfl | hmember
            · exact hfirst
            · exact hnone waiting hmember
          · right
            exact ⟨first :: front, waiting, back, by simp [hrest], hgives,
              by simp [place, hfirst, hplace]⟩

theorem place_of_append {message : Envelope μ} {queue : List (Envelope μ)}
    (h : message.duplication = .append) : place message queue = queue ++ [message] := by
  rcases place_cases message queue with ⟨-, hplace⟩ | ⟨_, waiting, _, -, hgives, -⟩
  · exact hplace
  · have hreplaces := ((givesWay_iff waiting message).mp hgives).2.1
    rw [h] at hreplaces
    cases hreplaces

theorem mem_place {message waiting : Envelope μ} {queue : List (Envelope μ)}
    (h : waiting ∈ place message queue) : waiting = message ∨ waiting ∈ queue := by
  rcases place_cases message queue with ⟨-, hplace⟩ | ⟨front, replaced, back, rfl, -, hplace⟩
  · rw [hplace] at h
    simpa [or_comm] using h
  · rw [hplace] at h
    simp only [List.mem_append, List.mem_cons] at h ⊢
    rcases h with hfront | rfl | hback
    · exact .inr (.inl hfront)
    · exact .inl rfl
    · exact .inr (.inr (.inr hback))

theorem place_ne_nil (message : Envelope μ) (queue : List (Envelope μ)) :
    place message queue ≠ [] := by
  rcases place_cases message queue with ⟨-, hplace⟩ | ⟨_, _, _, -, -, hplace⟩ <;> simp [hplace]

/-- The number of deliveries that are owed for the messages that wait. -/
def owed (queue : List (Envelope μ)) : Nat :=
  if queue.isEmpty then 0 else 1

@[simp] theorem owed_nil : owed ([] : List (Envelope μ)) = 0 := rfl

@[simp] theorem owed_cons (message : Envelope μ) (rest : List (Envelope μ)) :
    owed (message :: rest) = 1 := rfl

@[simp] theorem owed_place (message : Envelope μ) (queue : List (Envelope μ)) :
    owed (place message queue) = 1 := by
  simp [owed, place_ne_nil]

/-- Whether no message that waits would give way to another one that does. -/
def Distinct (queue : List (Envelope μ)) : Prop :=
  queue.Pairwise fun a b => givesWay a b = false

theorem Distinct.place {queue : List (Envelope μ)} (h : Distinct queue) (message : Envelope μ) :
    Distinct (place message queue) := by
  unfold Distinct at h ⊢
  rcases place_cases message queue with ⟨hnone, hplace⟩ | ⟨front, old, back, rfl, hgives, hplace⟩
  · rw [hplace]
    refine List.pairwise_append.mpr ⟨h, List.pairwise_singleton _ _, fun e he other hother => ?_⟩
    rw [List.mem_singleton.mp hother]
    exact hnone e he
  -- the message goes by the same name as the one that it replaces
  · obtain ⟨hold, hnew, hname⟩ := (givesWay_iff old message).mp hgives
    have hto : ∀ e, givesWay e message = givesWay e old := by simp [givesWay, hold, hnew, hname]
    have hfrom : ∀ e, givesWay message e = givesWay old e := by simp [givesWay, hold, hnew, hname]
    rw [hplace]
    simpa only [List.pairwise_append, List.pairwise_cons, List.mem_cons, forall_eq_or_imp, hto,
      hfrom] using h

theorem Distinct.length_le_one {queue : List (Envelope μ)} (h : Distinct queue)
    (identifier : String) :
    (queue.filter fun e => e.duplication = .replaceNewest ∧ e.identifier = identifier).length ≤
      1 := by
  have hfewer := h.filter fun e => e.duplication = .replaceNewest ∧ e.identifier = identifier
  have hmatches : ∀ e ∈ queue.filter
      (fun e => e.duplication = .replaceNewest ∧ e.identifier = identifier),
      e.duplication = .replaceNewest ∧ e.identifier = identifier :=
    fun e he => of_decide_eq_true (List.mem_filter.mp he).2
  generalize queue.filter _ = found at hfewer hmatches
  rcases found with _ | ⟨a, _ | ⟨b, rest⟩⟩
  · exact Nat.zero_le 1
  · exact Nat.le_refl 1
  · obtain ⟨hkindA, hnameA⟩ := hmatches a (by simp)
    obtain ⟨hkindB, hnameB⟩ := hmatches b (by simp)
    have hgives : givesWay a b = true :=
      (givesWay_iff a b).mpr ⟨hkindA, hkindB, hnameA.trans hnameB.symm⟩
    rw [List.rel_of_pairwise_cons hfewer (by simp)] at hgives
    cases hgives

end MapTiles.Mailbox
