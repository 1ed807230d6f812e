import MapTiles.Mailbox.Office
import MapTiles.Proofs.Mailbox.History
import MapTiles.Proofs.Scheduler

/-!
Several mailboxes served by one scheduler, whatever is pushed into them from outside and by running
messages, and in whatever order the outstanding deliveries are picked. Each mailbox has as many
deliveries outstanding as it is owed, and runs its places in order.

While a message runs, the delivery of what it left behind is not outstanding yet. This debt is paid
when the message is done.
-/

namespace MapTiles.Office

open Mailbox (History)

/-- What can happen: an errand from outside, or a delivery, chosen by its place among those that are
outstanding. -/
inductive Act where
  | errand (e : Errand)
  | run (n : Nat)

def World.act (w : World) : Act → World
  | .errand e => e.run w
  | .run n =>
    match w.scheduler.readyAt? n with
    | none => w
    | some (box, rest) => behaviour.run box { w with scheduler := rest }

def World.run (w : World) (acts : List Act) : World :=
  acts.foldl World.act w

/-- The world in which a message runs that was taken from its mailbox. -/
def World.take (w : World) (n : Nat) (message : Envelope Memo) (rest : Mailbox Memo) : World :=
  (World.setBox w n (some rest)).modify fun x => { x with log := x.log ++ [message.content.value] }

/-- The message that an act runs, with its mailbox and the world in which it runs. -/
def World.taking? (w : World) : Act → Option (Nat × Envelope Memo × World)
  | .errand _ => none
  | .run n => do
    let (box, rest) ← w.scheduler.readyAt? n
    let (message, left) ← (World.box? w box).bind Mailbox.pop?
    return (box, message, World.take { w with scheduler := rest } box message left)

/-- What an errand does, and to which mailbox. A push into a mailbox that was given up does
nothing. -/
def Errand.events (w : World) : Errand → List (Nat × Mailbox.Event Memo)
  | .push box identifier duplication value follow =>
    if (World.box? w box).isSome then
      [(box, .pushed ⟨identifier, duplication, ⟨value, follow⟩⟩)]
    else []
  | .close box => [(box, .closed)]

/-- What errands do one after the other. -/
def eventsAll : World → List Errand → List (Nat × Mailbox.Event Memo)
  | _, [] => []
  | w, e :: rest => e.events w ++ eventsAll (e.run w) rest

/-- What an act does, and to which mailboxes. -/
def World.events (w : World) (a : Act) : List (Nat × Mailbox.Event Memo) :=
  match a, World.taking? w a with
  | .errand e, _ => e.events w
  | .run _, none => []
  | .run _, some (box, message, mid) => (box, .taken) :: eventsAll mid message.content.follow

/-- What the acts of a run do, and to which mailboxes. -/
def World.happened : World → List Act → List (Nat × Mailbox.Event Memo)
  | _, [] => []
  | w, a :: rest => World.events w a ++ happened (World.act w a) rest

/-- The messages that are run, each with its mailbox. -/
def World.delivered : World → List Act → List (Nat × Envelope Memo)
  | _, [] => []
  | w, a :: rest =>
    ((World.taking? w a).map fun taken => (taken.1, taken.2.1)).toList ++
      delivered (World.act w a) rest

/-- What belongs to a mailbox. -/
def belonging {α : Type} (n : Nat) (entries : List (Nat × α)) : List α :=
  entries.filterMap fun entry => if entry.1 = n then some entry.2 else none

/-- The history of a mailbox over a run. -/
def World.history (w : World) (acts : List Act) (n : Nat) : History Memo :=
  (belonging n (World.happened w acts)).foldl History.after History.start

@[simp] theorem belonging_append {α : Type} (n : Nat) (a b : List (Nat × α)) :
    belonging n (a ++ b) = belonging n a ++ belonging n b :=
  List.filterMap_append

theorem belonging_cons {α : Type} (n m : Nat) (value : α) (rest : List (Nat × α)) :
    belonging n ((m, value) :: rest) =
      if m = n then value :: belonging n rest else belonging n rest := by
  unfold belonging
  rw [List.filterMap_cons]
  by_cases h : m = n <;> simp [h]

section Boxes

variable {w : World} {n : Nat} {box : Mailbox Memo}

theorem box?_setBox (h : World.box? w n = some box) (new : Option (Mailbox Memo)) (m : Nat) :
    World.box? (World.setBox w n new) m = if n = m then new else World.box? w m := by
  have hn : n < w.state.boxes.length := by
    apply Decidable.byContradiction
    intro hout
    simp [World.box?, List.getElem?_eq_none (Nat.le_of_not_lt hout)] at h
  unfold World.box? World.setBox System.modify
  rw [List.getElem?_set, if_pos hn]
  split <;> rfl

theorem box?_close (w : World) (n m : Nat) {kept : Mailbox Memo}
    (h : World.box? (World.setBox w n none) m = some kept) :
    n ≠ m ∧ World.box? w m = some kept := by
  unfold World.box? World.setBox System.modify at h
  rw [List.getElem?_set] at h
  split at h
  case isTrue => split at h <;> cases h
  case isFalse hother => exact ⟨hother, h⟩

/-- A push into a mailbox that is there puts the message into its queue, and adds a delivery unless
one is owed already. -/
theorem push_of_some (h : World.box? w n = some box) (message : Envelope Memo) :
    World.push w n message =
      let placed := World.setBox w n (some ⟨Mailbox.place message box.queue⟩)
      if box.queue.isEmpty then placed.addTask 0 n else placed := by
  simp [World.push, h, Mailbox.push]

theorem push_of_none (h : World.box? w n = none) (message : Envelope Memo) :
    World.push w n message = w := by
  simp [World.push, h]

theorem box?_push (h : World.box? w n = some box) (message : Envelope Memo) (m : Nat) :
    World.box? (World.push w n message) m =
      if n = m then some ⟨Mailbox.place message box.queue⟩ else World.box? w m := by
  rw [push_of_some h, ← box?_setBox h]
  dsimp only
  split <;> rfl

theorem count_push (h : World.box? w n = some box) (message : Envelope Memo) (m : Nat) :
    (World.push w n message).scheduler.ready.count m +
        (if n = m then Mailbox.owed box.queue else 0) =
      w.scheduler.ready.count m + if n = m then 1 else 0 := by
  rw [push_of_some h]
  dsimp only
  cases hqueue : box.queue with
  | nil =>
      simp [System.addTask, Scheduler.addTask, World.setBox, System.modify, List.count_singleton]
  | cons first rest => simp [World.setBox, System.modify]

end Boxes

/-- What holds of all mailboxes that were not given up: their outstanding deliveries and the debt
are what they are owed, no message waits that would have given way to another, and what waits is
what their history says. -/
structure World.Kept (debt : Nat → Nat) (histories : Nat → History Memo) (w : World) : Prop where
  owed : ∀ n box, World.box? w n = some box →
    w.scheduler.ready.count n + debt n = Mailbox.owed box.queue
  distinct : ∀ n box, World.box? w n = some box → Mailbox.Distinct box.queue
  queue_eq : ∀ n box, World.box? w n = some box → box.queue = (histories n).queue
  delayed : w.scheduler.delayed = []

/-- The histories after some events. -/
def recorded (histories : Nat → History Memo) (events : List (Nat × Mailbox.Event Memo)) :
    Nat → History Memo :=
  fun n => (belonging n events).foldl History.after (histories n)

@[simp] theorem recorded_nil (histories : Nat → History Memo) : recorded histories [] = histories :=
  rfl

theorem recorded_append (histories : Nat → History Memo) (a b : List (Nat × Mailbox.Event Memo)) :
    recorded histories (a ++ b) = recorded (recorded histories a) b := by
  funext n
  simp [recorded]

namespace World.Kept

variable {debt : Nat → Nat} {histories : Nat → History Memo} {w : World}

theorem push (h : World.Kept debt histories w) {n : Nat} {box : Mailbox Memo}
    (hbox : World.box? w n = some box) (message : Envelope Memo) :
    World.Kept debt (recorded histories [(n, .pushed message)]) (World.push w n message) where
  owed m other hother := by
    rw [box?_push hbox] at hother
    have hcount := count_push hbox message m
    split at hother
    case isTrue hsame =>
      subst hsame
      cases hother
      have hbefore := h.owed n box hbox
      simp only [if_pos] at hcount
      rw [Mailbox.owed_place]
      omega
    case isFalse hne =>
      simp only [if_neg hne, Nat.add_zero] at hcount
      rw [hcount]
      exact h.owed m other hother
  distinct m other hother := by
    rw [box?_push hbox] at hother
    split at hother
    case isTrue =>
      cases hother
      exact (h.distinct n box hbox).place message
    case isFalse => exact h.distinct m other hother
  queue_eq m other hother := by
    rw [box?_push hbox] at hother
    unfold recorded
    rw [belonging_cons]
    split at hother
    case isTrue hsame =>
      subst hsame
      cases hother
      rw [if_pos rfl, h.queue_eq n box hbox]
      exact ((histories n).queue_push message).symm
    case isFalse hne =>
      rw [if_neg hne]
      exact h.queue_eq m other hother
  delayed := by
    rw [push_of_some hbox]
    dsimp only
    split <;> exact h.delayed

/-- Every errand keeps the rules of all mailboxes. -/
theorem errand (h : World.Kept debt histories w) (e : Errand) :
    World.Kept debt (recorded histories (e.events w)) (e.run w) := by
  cases e with
  | push n identifier duplication value follow =>
      simp only [Errand.run, Errand.events]
      cases hbox : World.box? w n with
      | none =>
          rw [push_of_none hbox]
          exact h
      | some box => exact h.push hbox _
  | close n =>
      refine ⟨?_, ?_, ?_, h.delayed⟩
      · intro m box hbox
        exact h.owed m box (box?_close w n m hbox).2
      · intro m box hbox
        exact h.distinct m box (box?_close w n m hbox).2
      · intro m box hbox
        obtain ⟨hother, hkept⟩ := box?_close w n m hbox
        simp only [recorded, Errand.events, belonging_cons, if_neg hother]
        exact h.queue_eq m box hkept

theorem errands (h : World.Kept debt histories w) (errands : List Errand) :
    World.Kept debt (recorded histories (eventsAll w errands)) (errands.foldl Errand.run w) := by
  induction errands generalizing histories w with
  | nil => exact h
  | cons e rest ih =>
      rw [eventsAll, recorded_append]
      exact ih (h.errand e)

end World.Kept

/-- Errands take nothing from a mailbox. -/
theorem ran_errands (histories : Nat → History Memo) (w : World) (errands : List Errand) (n : Nat) :
    (recorded histories (eventsAll w errands) n).ran = (histories n).ran := by
  induction errands generalizing histories w with
  | nil => rfl
  | cons e rest ih =>
      rw [eventsAll, recorded_append, ih]
      cases e with
      | push m identifier duplication value follow =>
          simp only [Errand.events]
          split
          · simp only [recorded, belonging_cons]
            split <;> rfl
          · rfl
      | close m =>
          simp only [recorded, Errand.events, belonging_cons]
          split <;> rfl

theorem log_errands (w : World) (errands : List Errand) :
    (errands.foldl Errand.run w).state.log = w.state.log := by
  induction errands generalizing w with
  | nil => rfl
  | cons e rest ih =>
      rw [List.foldl_cons, ih]
      cases e with
      | push n identifier duplication value follow =>
          simp only [Errand.run]
          cases hbox : World.box? w n with
          | none => rw [push_of_none hbox]
          | some box =>
              rw [push_of_some hbox]
              dsimp only
              split <;> rfl
      | close n => rfl

/-- The message that an act runs, with its mailbox. -/
def World.delivery? (w : World) (a : Act) : Option (Nat × Envelope Memo) :=
  (World.taking? w a).map fun taken => (taken.1, taken.2.1)

private theorem count_taken {ready : List Nat} {n box : Nat} (h : ready[n]? = some box) (m : Nat) :
    (ready.eraseIdx n).count m + (if box = m then 1 else 0) = ready.count m := by
  obtain ⟨hn, rfl⟩ := List.getElem?_eq_some_iff.mp h
  rw [← (List.getElem_cons_eraseIdx_perm hn).count_eq m, List.count_cons]
  simp

/-- The work that is left when a delivery is picked. -/
def World.picked (w : World) (k : Nat) : World :=
  { w with scheduler := { w.scheduler with ready := w.scheduler.ready.eraseIdx k } }

namespace World.Kept

variable {histories : Nat → History Memo} {w : World} {k n : Nat}

/-- A delivery that finds nothing was that of a mailbox that was given up. -/
theorem idle (h : World.Kept (fun _ => 0) histories w) (htask : w.scheduler.ready[k]? = some n)
    (hnone : (World.box? w n).bind Mailbox.pop? = none) :
    World.Kept (fun _ => 0) histories (World.picked w k) := by
  refine ⟨fun m box hbox => ?_, h.distinct, h.queue_eq, h.delayed⟩
  have hcount := count_taken htask m
  have howed := h.owed m box hbox
  change (w.scheduler.ready.eraseIdx k).count m + 0 = Mailbox.owed box.queue
  by_cases hsame : n = m
  · subst hsame
    cases hqueue : box.queue with
    | nil =>
        rw [hqueue, Mailbox.owed_nil] at howed
        rw [if_pos rfl] at hcount
        omega
    | cons message left =>
        change World.box? w n = some box at hbox
        simp [hbox, Mailbox.pop?, hqueue] at hnone
  · rw [if_neg hsame] at hcount
    omega

/-- Taking a message leaves a debt if more were waiting. -/
theorem take (h : World.Kept (fun _ => 0) histories w) (htask : w.scheduler.ready[k]? = some n)
    {message : Envelope Memo} {left : List (Envelope Memo)}
    (hbox : World.box? w n = some ⟨message :: left⟩) :
    World.Kept (fun m => if n = m then Mailbox.owed left else 0)
        (recorded histories [(n, .taken)]) (World.take (World.picked w k) n message ⟨left⟩) ∧
      ∀ m, (recorded histories [(n, .taken)] m).ran =
        (histories m).ran ++ belonging m [(n, message)] := by
  have hboxes : ∀ m, World.box? (World.take (World.picked w k) n message ⟨left⟩) m =
      if n = m then some ⟨left⟩ else World.box? w m :=
    box?_setBox (w := World.picked w k) hbox (some ⟨left⟩)
  have hqueue := h.queue_eq n _ hbox
  obtain ⟨p, back, hwaiting, hmessage, hleft⟩ := List.map_eq_cons_iff.mp hqueue.symm
  refine ⟨⟨fun m box hm => ?_, fun m box hm => ?_, fun m box hm => ?_, h.delayed⟩, fun m => ?_⟩
  · have hcount := count_taken htask m
    rw [hboxes] at hm
    change (w.scheduler.ready.eraseIdx k).count m + _ = _
    split at hm
    case isTrue hsame =>
      subst hsame
      cases hm
      have howed := h.owed n _ hbox
      simp only [Mailbox.owed_cons, if_pos] at howed hcount ⊢
      omega
    case isFalse hother =>
      have howed := h.owed m box hm
      simp only [if_neg hother] at hcount ⊢
      omega
  · rw [hboxes] at hm
    split at hm
    case isTrue =>
      cases hm
      exact (List.pairwise_cons.mp (h.distinct n _ hbox)).2
    case isFalse => exact h.distinct m box hm
  · rw [hboxes] at hm
    simp only [recorded, belonging_cons]
    split at hm
    case isTrue hsame =>
      subst hsame
      cases hm
      simp [History.after, History.take, History.queue, hwaiting, hleft, belonging]
    case isFalse hother =>
      rw [if_neg hother]
      exact h.queue_eq m box hm
  · simp only [recorded, belonging_cons]
    split
    case isTrue hsame =>
      subst hsame
      simp [History.after, History.take, History.ran, hwaiting, hmessage, belonging]
    case isFalse => simp [belonging]

/-- The debt is paid by the delivery that follows. -/
theorem pay {left : List (Envelope Memo)}
    (h : World.Kept (fun m => if n = m then Mailbox.owed left else 0) histories w) :
    World.Kept (fun _ => 0) histories (if left.isEmpty then w else w.addTask 0 n) := by
  cases left with
  | nil => simpa using h
  | cons message rest =>
      refine ⟨fun m box hbox => ?_, h.distinct, h.queue_eq, h.delayed⟩
      have howed := h.owed m box hbox
      change (w.scheduler.ready ++ [n]).count m + 0 = _
      rw [List.count_append, List.count_singleton, ← howed, Mailbox.owed_cons]
      simp

/-- What holds of all mailboxes holds after every act, and what it runs goes down in the history
and in the log. -/
theorem act (h : World.Kept (fun _ => 0) histories w) (a : Act) :
    World.Kept (fun _ => 0) (recorded histories (World.events w a)) (World.act w a) ∧
      (World.act w a).state.log =
        w.state.log ++ (World.delivery? w a).toList.map (fun d => d.2.content.value) ∧
      ∀ n, (recorded histories (World.events w a) n).ran =
        (histories n).ran ++ belonging n (World.delivery? w a).toList := by
  cases a with
  | errand e =>
      refine ⟨h.errand e, ?_, fun n => ?_⟩
      · simpa [World.act, World.delivery?, World.taking?] using log_errands w [e]
      · simpa [World.events, eventsAll, World.delivery?, World.taking?, belonging] using
          ran_errands histories w [e] n
  | run k =>
      cases hready : w.scheduler.readyAt? k with
      | none =>
          simpa [World.act, World.events, World.delivery?, World.taking?, hready, belonging] using h
      | some chosen =>
          obtain ⟨n, rest⟩ := chosen
          obtain ⟨found, htask, hchosen⟩ := Option.map_eq_some_iff.mp hready
          cases hchosen
          have hact : World.act w (.run k) = World.deliver (World.picked w k) n := by
            simp [World.act, hready, behaviour, World.picked]
          have hbox : World.box? (World.picked w k) n = World.box? w n := rfl
          cases holdest : (World.box? w n).bind Mailbox.pop? with
          | none =>
              have htaking : World.taking? w (.run k) = none := by
                simp [World.taking?, hready, hbox ▸ holdest]
              simp only [hact, World.deliver, hbox, holdest, World.events, World.delivery?, htaking]
              refine ⟨h.idle htask holdest, ?_, ?_⟩
              · simp [World.picked]
              · simp [belonging]
          | some oldest =>
              obtain ⟨message, left⟩ := oldest
              obtain ⟨⟨queue⟩, hsome, hpop⟩ := Option.bind_eq_some_iff.mp holdest
              cases queue with
              | nil => cases hpop
              | cons first back =>
                  cases hpop
                  obtain ⟨hkept, hran⟩ := h.take htask hsome
                  let mid := World.take (World.picked w k) n message ⟨back⟩
                  let errands := message.content.follow
                  have htaking : World.taking? w (.run k) = some (n, message, mid) := by
                    simp [World.taking?, hready, hbox ▸ holdest]
                    rfl
                  have hdone : World.deliver (World.picked w k) n =
                      if back.isEmpty then errands.foldl Errand.run mid
                      else (errands.foldl Errand.run mid).addTask 0 n := by
                    simp only [World.deliver, hbox, holdest]
                    rfl
                  have hevents : World.events w (.run k) =
                      [(n, .taken)] ++ eventsAll mid errands := by
                    simp only [World.events, htaking]
                    rfl
                  rw [hact, hdone, hevents, recorded_append]
                  simp only [World.delivery?, htaking, Option.map_some, Option.toList_some]
                  refine ⟨(hkept.errands errands).pay, ?_, fun m => ?_⟩
                  · have hlog := log_errands mid errands
                    split <;> exact hlog
                  · rw [ran_errands, hran]

/-- What holds of all mailboxes after a run, from any start. -/
theorem run (h : World.Kept (fun _ => 0) histories w) (acts : List Act) :
    World.Kept (fun _ => 0) (recorded histories (World.happened w acts)) (World.run w acts) ∧
      (World.run w acts).state.log =
        w.state.log ++ (World.delivered w acts).map (fun d => d.2.content.value) ∧
      ∀ n, (recorded histories (World.happened w acts) n).ran =
        (histories n).ran ++ belonging n (World.delivered w acts) := by
  induction acts generalizing histories w with
  | nil =>
      refine ⟨h, ?_, ?_⟩
      · simp [World.run, World.delivered]
      · simp [World.happened, World.delivered, belonging]
  | cons a rest ih =>
      obtain ⟨hkept, hlog, hran⟩ := h.act a
      obtain ⟨hlast, hlogRest, hranRest⟩ := ih hkept
      simp only [World.happened, World.delivered, recorded_append, List.map_append,
        belonging_append]
      refine ⟨hlast, ?_, fun n => ?_⟩
      · change (World.run (World.act w a) rest).state.log = _
        rw [hlogRest, hlog, List.append_assoc]
        rfl
      · rw [hranRest, hran, List.append_assoc]
        rfl

/-- At first nothing waits and nothing is owed. -/
theorem start (boxes : Nat) :
    World.Kept (fun _ => 0) (fun _ => History.start) (World.start boxes) := by
  have hempty : ∀ n box, World.box? (World.start boxes) n = some box → box = Mailbox.empty := by
    intro n box hbox
    unfold World.box? World.start at hbox
    rw [List.getElem?_replicate] at hbox
    split at hbox <;> cases hbox
    rfl
  refine ⟨fun n box hbox => ?_, fun n box hbox => ?_, fun n box hbox => ?_, rfl⟩
  all_goals rw [hempty n box hbox]
  · rfl
  · exact List.Pairwise.nil
  · rfl

end World.Kept

/-- Whatever is pushed, from outside or by running messages, and in whatever order deliveries are
picked: a mailbox that was not given up has one delivery outstanding as long as something waits in
it, and none otherwise, so that nothing is left to wait once no delivery is outstanding; no two
messages that replace each other wait in it; and the messages that it ran and those that wait are
the last ones written into its places, in the order in which the places were created. Each push is
written into one place. -/
theorem messages_run_in_order (boxes : Nat) (acts : List Act) :
    let first := World.start boxes
    let w := World.run first acts
    w.scheduler.delayed = [] ∧
      w.state.log = (World.delivered first acts).map (fun d => d.2.content.value) ∧
      ∀ n, let h := World.history first acts n
        let events := belonging n (World.happened first acts)
        belonging n (World.delivered first acts) = h.taken.map (fun p => p.newest.envelope) ∧
        (h.taken.map fun p => p.newest.number).Nodup ∧
        (h.taken ++ h.waiting).Pairwise (fun p q => p.created < q.created) ∧
        (∀ p ∈ h.taken ++ h.waiting ++ h.dropped,
          p.writes.Pairwise fun a b => b.number < a.number) ∧
        ((h.taken ++ h.waiting ++ h.dropped).flatMap Mailbox.Place.writes).Perm
          (Mailbox.numbered events) ∧
        ∀ box, World.box? w n = some box →
          box.queue = h.waiting.map (fun p => p.newest.envelope) ∧
          w.scheduler.ready.count n = (if box.queue = [] then 0 else 1) ∧
          (w.scheduler.ready = [] → box.queue = []) ∧
          ∀ identifier, (box.queue.filter fun e =>
            e.duplication = .replaceNewest ∧ e.identifier = identifier).length ≤ 1 := by
  intro first w
  obtain ⟨hkept, hlog, hran⟩ := (World.Kept.start boxes).run acts
  refine ⟨hkept.delayed, hlog.trans (List.nil_append _), ?_⟩
  intro n h events
  have hfaithful := History.Faithful.foldl events
  refine ⟨((hran n).trans (List.nil_append _)).symm, hfaithful.nodup_newest, hfaithful.created_lt,
    hfaithful.newest_gt, hfaithful.writes_perm, ?_⟩
  intro box hbox
  have hcount : w.scheduler.ready.count n = if box.queue = [] then 0 else 1 := by
    simpa [Mailbox.owed] using hkept.owed n box hbox
  refine ⟨hkept.queue_eq n box hbox, hcount, fun hidle => ?_,
    (hkept.distinct n box hbox).length_le_one⟩
  by_contra hwaits
  rw [hidle, if_neg hwaits] at hcount
  cases hcount

end MapTiles.Office
