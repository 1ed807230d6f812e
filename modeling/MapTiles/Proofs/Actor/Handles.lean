import MapTiles.Actor
import MapTiles.Proofs.Scheduler

/-!
Everything that can happen to an actor, in any order: whoever has a handle sends messages, asks, or
makes another handle, handles go, the owner goes and the object with it, and deliveries run. They
need not take their turns in the order of the scheduler.

A message that itself sends messages is its delivery followed by those calls. They find the mailbox
as the delivery leaves it, and the next delivery is owed once, whether for what was left or for what
they push.
-/

namespace MapTiles

variable {T R : Type}

/-- The object after a message was executed. -/
def Delivery.after (object : T) : Delivery T R → T
  | .tell act => act object
  | .ask _ act => (act object).2

/-- The slot in which the answer to a message arrives. -/
def Delivery.slot? : Delivery T R → Option Nat
  | .tell _ => none
  | .ask slot _ => some slot

/-- What becomes of the slots when a message finds an object. -/
def Delivery.answers (object : T) (slots : List (Slot R)) : Delivery T R → List (Slot R)
  | .tell _ => slots
  | .ask slot act => slots.modify slot (Slot.fill (act object).1)

namespace Actor

/-- The object after messages were executed one after the other. -/
def executeAll (object : T) (done : List (Delivery T R)) : T :=
  done.foldl Delivery.after object

/-- The slots of those messages that are questions. -/
def slotsOf (messages : List (Delivery T R)) : List Nat :=
  messages.filterMap Delivery.slot?

/-- The messages that wait, oldest first. -/
def waiting (a : Actor T R) : List (Delivery T R) :=
  a.mailbox.queue.map Envelope.content

def closeAll (numbers : List Nat) (slots : List (Slot R)) : List (Slot R) :=
  numbers.foldl (fun slots n => slots.modify n Slot.close) slots

/-- An actor whose mailbox is gone. What waited in it is dropped, and the slots of the questions are
closed. A delivery that is still owed finds nothing. -/
def lost (a : Actor T R) : Actor T R :=
  { a with mailbox := Mailbox.empty, slots := closeAll (slotsOf a.waiting) a.slots }

/-- What one can call an actor with: the handle that owns its object, or one that does not. -/
inductive Handle where
  | owner
  | weak

/-- An actor at work with the number of handles that do not own its object. -/
structure Held (T R : Type) where
  world : World T R
  weak : Nat

def Held.start (object : T) : Held T R :=
  ⟨World.start object, 0⟩

/-- Whether there is such a handle. The object is there as long as its owner is. -/
def Held.has (h : Held T R) : Handle → Bool
  | .owner => h.world.state.object.isSome
  | .weak => decide (0 < h.weak)

/-- What can happen. Deliveries are chosen by their place among those that wait. -/
inductive Act (T R : Type) where
  | tell (handle : Handle) (identifier : String) (duplication : Duplication) (act : T → T)
  | ask (handle : Handle) (identifier : String) (act : T → R × T)
  | share (handle : Handle)
  | drop
  | release
  | lose
  | run (n : Nat)

/-- What is found by the delivery that an act runs. -/
def World.chosen? (w : World T R) : Act T R → Option (World T R)
  | .run n => (w.scheduler.readyAt? n).map fun (_, rest) => { w with scheduler := rest }
  | _ => none

/-- What an act does. It does nothing without the handle that it needs. A mailbox can only go when
there is no handle left, but it may also stay then. -/
def Held.act (h : Held T R) (a : Act T R) : Held T R :=
  match a with
  | .tell handle identifier duplication act =>
    if h.has handle then { h with world := World.tell h.world identifier duplication act } else h
  | .ask handle identifier act =>
    if h.has handle then { h with world := World.ask h.world identifier act } else h
  | .share handle => if h.has handle then { h with weak := h.weak + 1 } else h
  | .drop => { h with weak := h.weak - 1 }
  | .release => { h with world := World.release h.world }
  | .lose => if h.has .owner || h.has .weak then h else { h with world := h.world.modify lost }
  | .run _ =>
    match World.chosen? h.world a with
    | none => h
    | some w => { h with world := behaviour.run () w }

/-- What acts do one after the other. -/
def Held.run (h : Held T R) (acts : List (Act T R)) : Held T R :=
  acts.foldl Held.act h

/-- Every act with what it finds. -/
def Held.trace : Held T R → List (Act T R) → List (Held T R × Act T R)
  | _, [] => []
  | h, a :: rest => (h, a) :: Held.trace (h.act a) rest

/-- The message that a delivery executes. Without the object it executes none. -/
def World.executes? (w : World T R) : Option (Delivery T R) :=
  if w.state.object.isSome then w.state.waiting.head? else none

/-- The message that an act executes. -/
def Held.executes? (h : Held T R) (a : Act T R) : Option (Delivery T R) :=
  (World.chosen? h.world a).bind World.executes?

/-- The question that an act asks. -/
def Held.asks? (h : Held T R) : Act T R → Option (T → R × T)
  | .ask handle _ act => if h.has handle then some act else none
  | _ => none

/-- The messages that were executed, in order. -/
def Held.executed (h : Held T R) (acts : List (Act T R)) : List (Delivery T R) :=
  (h.trace acts).filterMap fun (h, a) => h.executes? a

/-- The questions that were asked, in the order of their slots. -/
def Held.asked (h : Held T R) (acts : List (Act T R)) : List (T → R × T) :=
  (h.trace acts).filterMap fun (h, a) => h.asks? a

/-- What an act comes to. -/
inductive Held.Step (h : Held T R) (a : Act T R) : Prop
  | rests (hworld : (h.act a).world = h.world) (hexecutes : h.executes? a = none)
      (hasks : h.asks? a = none)
  | tells (identifier : String) (duplication : Duplication) (act : T → T)
      (hworld : (h.act a).world = World.tell h.world identifier duplication act)
      (hexecutes : h.executes? a = none) (hasks : h.asks? a = none)
  | asks (identifier : String) (act : T → R × T)
      (hworld : (h.act a).world = World.ask h.world identifier act)
      (hexecutes : h.executes? a = none) (hasks : h.asks? a = some act)
  | releases (hworld : (h.act a).world = World.release h.world)
      (hexecutes : h.executes? a = none) (hasks : h.asks? a = none)
  | loses (hgone : h.world.state.object = none) (hworld : (h.act a).world = h.world.modify lost)
      (hexecutes : h.executes? a = none) (hasks : h.asks? a = none)
  | delivers (rest : Scheduler Unit Empty) (hdelayed : rest.delayed = h.world.scheduler.delayed)
      (hworld : (h.act a).world = World.deliver { h.world with scheduler := rest })
      (hexecutes : h.executes? a = World.executes? h.world) (hasks : h.asks? a = none)

theorem step_act (h : Held T R) (a : Act T R) : h.Step a := by
  cases a with
  | tell handle identifier duplication act =>
      cases hhas : h.has handle with
      | true => exact .tells identifier duplication act (by simp [Held.act, hhas]) rfl rfl
      | false => exact .rests (by simp [Held.act, hhas]) rfl rfl
  | ask handle identifier act =>
      cases hhas : h.has handle with
      | true =>
          exact .asks identifier act (by simp [Held.act, hhas]) rfl (by simp [Held.asks?, hhas])
      | false => exact .rests (by simp [Held.act, hhas]) rfl (by simp [Held.asks?, hhas])
  | share handle =>
      refine .rests ?_ rfl rfl
      simp only [Held.act]
      split <;> rfl
  | drop => exact .rests rfl rfl rfl
  | release => exact .releases rfl rfl rfl
  | lose =>
      cases howner : h.has .owner with
      | true => exact .rests (by simp [Held.act, howner]) rfl rfl
      | false =>
          cases hweak : h.has .weak with
          | true => exact .rests (by simp [Held.act, hweak]) rfl rfl
          | false =>
              have hgone : h.world.state.object = none := by simpa [Held.has] using howner
              exact .loses hgone (by simp [Held.act, howner, hweak]) rfl rfl
  | run n =>
      cases hready : h.world.scheduler.ready[n]? with
      | none =>
          have hnone : World.chosen? h.world (.run n) = none := by
            simp [World.chosen?, Scheduler.readyAt?, hready]
          exact .rests (by simp [Held.act, hnone]) (by simp [Held.executes?, hnone]) rfl
      | some task =>
          let rest := { h.world.scheduler with ready := h.world.scheduler.ready.eraseIdx n }
          have hsome : World.chosen? h.world (.run n) =
              some { h.world with scheduler := rest } := by
            simp [World.chosen?, Scheduler.readyAt?, hready, rest]
          exact .delivers rest rfl (by simp [Held.act, hsome, behaviour])
            (by simp [Held.executes?, hsome, World.executes?]) rfl

theorem run_append (h : Held T R) (front back : List (Act T R)) :
    h.run (front ++ back) = (h.run front).run back :=
  List.foldl_append

theorem trace_append (h : Held T R) (front back : List (Act T R)) :
    h.trace (front ++ back) = h.trace front ++ (h.run front).trace back := by
  induction front generalizing h with
  | nil => rfl
  | cons a rest ih =>
      simp only [List.cons_append, Held.trace, ih]
      rfl

theorem executed_append (h : Held T R) (front back : List (Act T R)) :
    h.executed (front ++ back) = h.executed front ++ (h.run front).executed back := by
  simp only [Held.executed, trace_append, List.filterMap_append]

theorem asked_append (h : Held T R) (front back : List (Act T R)) :
    h.asked (front ++ back) = h.asked front ++ (h.run front).asked back := by
  simp only [Held.asked, trace_append, List.filterMap_append]

theorem executed_single (h : Held T R) (a : Act T R) :
    h.executed [a] = (h.executes? a).toList := by
  simp only [Held.executed, Held.trace, List.filterMap_cons, List.filterMap_nil]
  cases h.executes? a <;> rfl

theorem asked_single (h : Held T R) (a : Act T R) : h.asked [a] = (h.asks? a).toList := by
  simp only [Held.asked, Held.trace, List.filterMap_cons, List.filterMap_nil]
  cases h.asks? a <;> rfl

@[simp] theorem slotsOf_append (a b : List (Delivery T R)) :
    slotsOf (a ++ b) = slotsOf a ++ slotsOf b :=
  List.filterMap_append

@[simp] theorem slotsOf_tell (act : T → T) (rest : List (Delivery T R)) :
    slotsOf (.tell act :: rest) = slotsOf rest := rfl

@[simp] theorem slotsOf_ask (n : Nat) (act : T → R × T) (rest : List (Delivery T R)) :
    slotsOf (.ask n act :: rest) = n :: slotsOf rest := rfl

@[simp] theorem slotsOf_nil : slotsOf ([] : List (Delivery T R)) = [] := rfl

theorem mem_slotsOf {messages : List (Delivery T R)} {n : Nat} :
    n ∈ slotsOf messages ↔ ∃ act, Delivery.ask n act ∈ messages := by
  rw [slotsOf, List.mem_filterMap]
  constructor
  · rintro ⟨message, hmessage, hslot⟩
    cases message with
    | tell act => cases hslot
    | ask slot act =>
        cases hslot
        exact ⟨act, hmessage⟩
  · rintro ⟨act, hmessage⟩
    exact ⟨_, hmessage, rfl⟩

theorem executeAll_append (object : T) (a b : List (Delivery T R)) :
    executeAll object (a ++ b) = executeAll (executeAll object a) b :=
  List.foldl_append

theorem length_closeAll (numbers : List Nat) (slots : List (Slot R)) :
    (closeAll numbers slots).length = slots.length := by
  induction numbers generalizing slots with
  | nil => rfl
  | cons n rest ih => exact (ih _).trans (List.length_modify ..)

/-- Only slots that wait are changed, and only those that are meant. -/
theorem getElem?_closeAll (numbers : List Nat) (slots : List (Slot R)) (n : Nat) :
    (closeAll numbers slots)[n]? =
      slots[n]?.map fun slot => if n ∈ numbers then slot.close else slot := by
  induction numbers generalizing slots with
  | nil => simp [closeAll]
  | cons m rest ih =>
      have hclosed : ∀ slot : Slot R, slot.close.close = slot.close := by
        intro slot
        cases slot <;> rfl
      refine (ih _).trans ?_
      rw [List.getElem?_modify]
      by_cases hm : m = n
      · subst hm
        cases slots[m]? <;> simp [hclosed]
      · cases slots[n]? <;> simp [hm, Ne.symm hm]

end Actor

end MapTiles
