import MapTiles.Proofs.Mailbox
import Mathlib.Data.List.Induction
import Mathlib.Tactic.Tauto

/-!
What becomes of the messages that are pushed into a mailbox. Every push is numbered. A message is
written into a place of the queue, which it creates unless a message that waits in one gives way to
it. When a place is taken, the message written into it last is the one that is run.
-/

namespace MapTiles.Mailbox

variable {μ : Type}

structure Numbered (μ : Type) where
  number : Nat
  envelope : Envelope μ

/-- A place in a queue, with the message that was written into it last and those that gave way,
the latest first. -/
structure Place (μ : Type) where
  newest : Numbered μ
  replaced : List (Numbered μ)

namespace Place

/-- All messages written into a place, the latest first. -/
def writes (p : Place μ) : List (Numbered μ) :=
  p.newest :: p.replaced

/-- The number of the push that created a place. -/
def created (p : Place μ) : Nat :=
  (p.writes.getLast (List.cons_ne_nil _ _)).number

end Place

/-- What happens to a mailbox. -/
inductive Event (μ : Type) where
  | pushed (message : Envelope μ)
  | taken
  | closed

def Event.message? : Event μ → Option (Envelope μ)
  | .pushed message => some message
  | _ => none

/-- The places of a mailbox in the order in which they were created: those that were taken, those
that wait, and those that were given up with the mailbox. -/
structure History (μ : Type) where
  pushes : Nat
  taken : List (Place μ)
  waiting : List (Place μ)
  dropped : List (Place μ)

namespace History

def start : History μ :=
  ⟨0, [], [], []⟩

/-- Writes a message into the first waiting place whose message gives way, or into a new one. -/
def push (h : History μ) (message : Envelope μ) : History μ :=
  let entry : Numbered μ := ⟨h.pushes, message⟩
  let gives (p : Place μ) := givesWay p.newest.envelope message
  { h with
    pushes := h.pushes + 1
    waiting :=
      match h.waiting.findIdx? gives with
      | none => h.waiting ++ [⟨entry, []⟩]
      | some n => h.waiting.modify n fun p => ⟨entry, p.writes⟩ }

def take (h : History μ) : History μ :=
  { h with taken := h.taken ++ h.waiting.take 1, waiting := h.waiting.drop 1 }

def close (h : History μ) : History μ :=
  { h with waiting := [], dropped := h.dropped ++ h.waiting }

def after (h : History μ) : Event μ → History μ
  | .pushed message => h.push message
  | .taken => h.take
  | .closed => h.close

/-- The messages that wait according to a history, oldest place first. -/
def queue (h : History μ) : List (Envelope μ) :=
  h.waiting.map fun p => p.newest.envelope

/-- The messages that were run according to a history, oldest place first. -/
def ran (h : History μ) : List (Envelope μ) :=
  h.taken.map fun p => p.newest.envelope

/-- All messages written anywhere. -/
def writes (h : History μ) : List (Numbered μ) :=
  (h.taken ++ h.waiting ++ h.dropped).flatMap Place.writes

end History

/-- A message that gives way makes room where it stands. -/
theorem place_of_split {message old : Envelope μ} {front back : List (Envelope μ)}
    (hfront : ∀ e ∈ front, givesWay e message = false) (hgives : givesWay old message = true) :
    place message (front ++ old :: back) = front ++ message :: back := by
  induction front with
  | nil => simp [place, hgives]
  | cons first rest ih =>
      have hrest := ih fun e he => hfront e (List.mem_cons_of_mem first he)
      simp [place, hfront first List.mem_cons_self, hrest]

theorem place_of_none {message : Envelope μ} {queue : List (Envelope μ)}
    (hnone : ∀ e ∈ queue, givesWay e message = false) :
    place message queue = queue ++ [message] := by
  rcases place_cases message queue with ⟨-, hplace⟩ | ⟨front, old, back, rfl, hgives, -⟩
  · exact hplace
  · rw [hnone old (by simp)] at hgives
    cases hgives

/-- A push creates a place behind all that wait, or writes over a message that gives way. -/
theorem History.waiting_push_cases (h : History μ) (message : Envelope μ) :
    ((∀ p ∈ h.waiting, givesWay p.newest.envelope message = false) ∧
      (h.push message).waiting = h.waiting ++ [⟨⟨h.pushes, message⟩, []⟩]) ∨
    ∃ front p back, h.waiting = front ++ p :: back ∧
      (∀ q ∈ front, givesWay q.newest.envelope message = false) ∧
      givesWay p.newest.envelope message = true ∧
      (h.push message).waiting = front ++ ⟨⟨h.pushes, message⟩, p.writes⟩ :: back := by
  unfold push
  dsimp only
  split
  case h_1 hnone => exact .inl ⟨by simpa using hnone, rfl⟩
  case h_2 n hsome =>
    obtain ⟨hn, hgives, hfirst⟩ := List.findIdx?_eq_some_iff_getElem.mp hsome
    right
    have hsplit : h.waiting = h.waiting.take n ++ h.waiting[n] :: h.waiting.drop (n + 1) := by
      rw [List.getElem_cons_drop, List.take_append_drop]
    refine ⟨h.waiting.take n, h.waiting[n], h.waiting.drop (n + 1), hsplit, ?_, hgives, ?_⟩
    · intro q hq
      obtain ⟨i, hi, rfl⟩ := List.getElem_of_mem hq
      rw [List.length_take] at hi
      rw [List.getElem_take]
      simpa using hfirst i (by omega)
    · rw [List.modify_eq_take_cons_drop hn]

/-- The messages that wait are those that pushing one by one leaves. -/
theorem History.queue_push (h : History μ) (message : Envelope μ) :
    (h.push message).queue = place message h.queue := by
  unfold queue
  rcases h.waiting_push_cases message with
    ⟨hnone, hpush⟩ | ⟨front, p, back, hsplit, hfront, hgives, hpush⟩
  · rw [hpush, place_of_none (by simpa using hnone), List.map_append]
    rfl
  · rw [hpush, hsplit, List.map_append, List.map_append, List.map_cons, List.map_cons,
      place_of_split (by simpa using hfront) hgives]

theorem History.writes_push (h : History μ) (message : Envelope μ) :
    (h.push message).writes.Perm (⟨h.pushes, message⟩ :: h.writes) := by
  have hwrites : (h.push message).writes =
      (h.taken ++ (h.push message).waiting ++ h.dropped).flatMap Place.writes := rfl
  rw [hwrites]
  unfold writes
  rcases h.waiting_push_cases message with ⟨-, hpush⟩ | ⟨front, p, back, hsplit, -, -, hpush⟩
  · simp only [hpush, List.flatMap_append, List.append_assoc, List.singleton_append]
    rw [← List.append_assoc, ← List.append_assoc]
    exact List.perm_middle
  · simp only [hpush, hsplit, List.flatMap_append, List.flatMap_cons, List.append_assoc]
    rw [← List.append_assoc, ← List.append_assoc (List.flatMap _ h.taken)]
    exact List.perm_middle

/-- The pushes of a mailbox with their numbers. -/
def numbered (events : List (Event μ)) : List (Numbered μ) :=
  (events.filterMap Event.message?).mapIdx fun n message => ⟨n, message⟩

theorem numbered_pushed (events : List (Event μ)) (message : Envelope μ) :
    numbered (events ++ [.pushed message]) =
      numbered events ++ [⟨(events.filterMap Event.message?).length, message⟩] := by
  simp [numbered, Event.message?, List.mapIdx_append]

theorem numbered_other (events : List (Event μ)) {event : Event μ} (h : event.message? = none) :
    numbered (events ++ [event]) = numbered events := by
  simp [numbered, h]

/-- What holds of every history: each push is written into one place, places are created one after
the other, and what is written into a place comes after what was there. -/
structure History.Faithful (events : List (Event μ)) (h : History μ) : Prop where
  pushes_eq : h.pushes = (events.filterMap Event.message?).length
  writes_perm : h.writes.Perm (numbered events)
  created_lt : (h.taken ++ h.waiting).Pairwise fun p q => p.created < q.created
  newest_gt : ∀ p ∈ h.taken ++ h.waiting ++ h.dropped,
    p.writes.Pairwise fun a b => b.number < a.number

namespace History.Faithful

variable {events : List (Event μ)} {h : History μ}

theorem start : (History.start : History μ).Faithful [] :=
  ⟨rfl, .refl _, .nil, fun _ hp => nomatch hp⟩

/-- No push so far has the number of the next one. -/
theorem number_lt (hf : h.Faithful events) {entry : Numbered μ} (hentry : entry ∈ h.writes) :
    entry.number < h.pushes := by
  have hnumbered := hf.writes_perm.mem_iff.mp hentry
  obtain ⟨n, hn, rfl⟩ := List.mem_mapIdx.mp hnumbered
  rw [hf.pushes_eq]
  exact hn

theorem created_lt_pushes (hf : h.Faithful events) {p : Place μ}
    (hp : p ∈ h.taken ++ h.waiting) : p.created < h.pushes :=
  hf.number_lt (List.mem_flatMap.mpr ⟨p, List.mem_append_left _ hp, List.getLast_mem _⟩)

theorem push (hf : h.Faithful events) (message : Envelope μ) :
    (h.push message).Faithful (events ++ [.pushed message]) := by
  have hpushes : (h.push message).pushes =
      ((events ++ [Event.pushed message]).filterMap Event.message?).length := by
    simp [History.push, hf.pushes_eq, Event.message?]
  have hwrites : (h.push message).writes.Perm (numbered (events ++ [.pushed message])) := by
    rw [numbered_pushed, ← hf.pushes_eq]
    exact (h.writes_push message).trans
      ((hf.writes_perm.cons _).trans (List.perm_append_singleton _ _).symm)
  have htaken : (h.push message).taken = h.taken := rfl
  have hdropped : (h.push message).dropped = h.dropped := rfl
  rcases h.waiting_push_cases message with ⟨-, hpush⟩ | ⟨front, p, back, hsplit, -, -, hpush⟩
  -- a new place is created after all others
  · refine ⟨hpushes, hwrites, ?_, ?_⟩
    · rw [htaken, hpush, ← List.append_assoc]
      refine List.pairwise_append.mpr ⟨hf.created_lt, List.pairwise_singleton _ _, ?_⟩
      intro q hq new hnew
      rw [List.mem_singleton.mp hnew]
      exact hf.created_lt_pushes hq
    · rw [htaken, hdropped, hpush]
      intro q hq
      simp only [List.mem_append, List.mem_singleton] at hq
      rcases hq with (hold | hold | rfl) | hold
      · exact hf.newest_gt q (by simp [hold])
      · exact hf.newest_gt q (by simp [hold])
      · exact List.pairwise_singleton _ _
      · exact hf.newest_gt q (by simp [hold])
  -- a place that is written over was created when it was
  · have hp : p ∈ h.taken ++ h.waiting ++ h.dropped := by simp [hsplit]
    have hcreated : Place.created ⟨⟨h.pushes, message⟩, p.writes⟩ = p.created := by
      simp [Place.created, Place.writes]
    refine ⟨hpushes, hwrites, ?_, ?_⟩
    · have hbefore := hf.created_lt
      rw [hsplit] at hbefore
      rw [htaken, hpush]
      simp only [← List.pairwise_map (f := Place.created), List.map_append,
      List.map_cons] at hbefore ⊢
      rwa [hcreated]
    · rw [htaken, hdropped, hpush]
      intro q hq
      have hold : ∀ q ∈ h.taken ++ (front ++ p :: back) ++ h.dropped,
          q.writes.Pairwise fun a b => b.number < a.number := hsplit ▸ hf.newest_gt
      simp only [List.mem_append, List.mem_cons] at hq hold
      by_cases hnew : q = ⟨⟨h.pushes, message⟩, p.writes⟩
      · rw [hnew]
        refine List.pairwise_cons.mpr ⟨?_, hf.newest_gt p hp⟩
        intro entry hentry
        exact hf.number_lt (List.mem_flatMap.mpr ⟨p, hp, hentry⟩)
      · apply hold q
        tauto

theorem take (hf : h.Faithful events) : h.take.Faithful (events ++ [.taken]) := by
  have hall : h.take.taken ++ h.take.waiting = h.taken ++ h.waiting := by
    simp only [History.take, List.append_assoc, List.take_append_drop]
  refine ⟨?_, ?_, ?_, ?_⟩
  · simpa [History.take, List.filterMap_cons, Event.message?] using hf.pushes_eq
  · rw [numbered_other events rfl, History.writes, hall]
    exact hf.writes_perm
  · rw [hall]
    exact hf.created_lt
  · rw [hall]
    exact hf.newest_gt

theorem close (hf : h.Faithful events) : h.close.Faithful (events ++ [.closed]) := by
  refine ⟨?_, ?_, ?_, ?_⟩
  · simpa [History.close, List.filterMap_cons, Event.message?] using hf.pushes_eq
  · rw [numbered_other events rfl]
    refine .trans (.flatMap_right _ ?_) hf.writes_perm
    simp only [History.close, List.append_nil, List.append_assoc]
    exact List.perm_append_comm.append_left _
  · have hfewer := (List.pairwise_append.mp hf.created_lt).1
    simpa [History.close] using hfewer
  · intro p hp
    apply hf.newest_gt p
    simp only [History.close, List.append_nil, List.mem_append] at hp ⊢
    tauto

theorem after (hf : h.Faithful events) (event : Event μ) :
    (h.after event).Faithful (events ++ [event]) := by
  cases event with
  | pushed message => exact hf.push message
  | taken => exact hf.take
  | closed => exact hf.close

/-- The history of any events is faithful to them. -/
theorem foldl (events : List (Event μ)) :
    (events.foldl History.after History.start).Faithful events := by
  induction events using List.reverseRecOn with
  | nil => exact start
  | append_singleton events event ih =>
      rw [List.foldl_append]
      exact ih.after event

/-- No message is run twice. -/
theorem nodup_newest (hf : h.Faithful events) :
    (h.taken.map fun p => p.newest.number).Nodup := by
  have hnumbers : (h.writes.map Numbered.number).Nodup := by
    refine (hf.writes_perm.map Numbered.number).nodup_iff.mpr ?_
    rw [numbered, List.mapIdx_eq_zipIdx_map, List.map_map]
    exact (List.zipIdx_map_snd 0 _).symm ▸ List.nodup_range'
  have hnewest : (h.taken.map Place.newest).Sublist (h.taken.flatMap Place.writes) := by
    induction h.taken with
    | nil => exact .slnil
    | cons p rest ih => exact (ih.trans (List.sublist_append_right p.replaced _)).cons_cons p.newest
  have hwritten : (h.taken.flatMap Place.writes).Sublist h.writes := by
    simp only [writes, List.append_assoc, List.flatMap_append]
    exact List.sublist_append_left _ _
  have hsub := (hnewest.trans hwritten).map Numbered.number
  rw [List.map_map] at hsub
  exact hnumbers.sublist hsub

end History.Faithful

end MapTiles.Mailbox
