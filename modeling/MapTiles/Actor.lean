import MapTiles.Mailbox
import MapTiles.Scheduler
import MapTiles.Slot

/-!
Actors: an object that is only changed by the messages in its mailbox. A message either changes
the object or also asks for an answer, which arrives in a slot. The object may be given up while
messages wait; those then change nothing, and the slots of their questions are closed.
-/

namespace MapTiles

/-- A message to an object of type `T` with answers of type `R`. -/
inductive Delivery (T R : Type) where
  | tell (act : T → T)
  | ask (slot : Nat) (act : T → R × T)

/-- An object, or nothing after it was given up, its mailbox, and the slots of all questions. -/
structure Actor (T R : Type) where
  object : Option T
  mailbox : Mailbox (Delivery T R)
  slots : List (Slot R)

namespace Actor

/-- A scheduler that serves one actor. Its tasks are deliveries. -/
abbrev World (T R : Type) : Type :=
  System Unit Empty (Actor T R)

variable {T R : Type}

def World.start (object : T) : World T R :=
  ⟨Scheduler.start, ⟨some object, Mailbox.empty, []⟩⟩

/-- Pushes a message and adds the delivery owed for it. -/
def World.push (w : World T R) (message : Envelope (Delivery T R)) : World T R :=
  let (mailbox, owed) := w.state.mailbox.push message
  let pushed := w.modify fun x => { x with mailbox := mailbox }
  if owed then pushed.addTask 0 () else pushed

/-- Sends a message that changes the object. It is not sent if the object is gone. -/
def World.tell (w : World T R) (identifier : String) (duplication : Duplication)
    (act : T → T) : World T R :=
  match w.state.object with
  | none => w
  | some _ => World.push w ⟨identifier, duplication, .tell act⟩

/-- Sends a question and opens the next slot for its answer. -/
def World.ask (w : World T R) (identifier : String) (act : T → R × T) : World T R :=
  let slot := w.state.slots.length
  let opened := w.modify fun x => { x with slots := x.slots ++ [.waiting] }
  World.push opened ⟨identifier, .append, .ask slot act⟩

/-- Changes the object at once, past the mailbox. -/
def World.inspect (w : World T R) (act : T → T) : World T R :=
  w.modify fun x => { x with object := x.object.map act }

def World.release (w : World T R) : World T R :=
  w.modify fun x => { x with object := none }

def World.onSlot (w : World T R) (n : Nat) (f : Slot R → Slot R) : World T R :=
  w.modify fun x => { x with slots := x.slots.modify n f }

def World.apply (w : World T R) : Delivery T R → World T R
  | .tell act => w.modify fun x => { x with object := x.object.map act }
  | .ask slot act =>
    match w.state.object with
    | none => World.onSlot w slot Slot.close
    | some object =>
      let (value, next) := act object
      World.onSlot (w.modify fun x => { x with object := some next }) slot (Slot.fill value)

/-- Delivers the oldest message. If more were waiting, the next delivery follows. -/
def World.deliver (w : World T R) : World T R :=
  match w.state.mailbox.pop? with
  | none => w
  | some (message, rest) =>
    let done := World.apply (w.modify fun x => { x with mailbox := rest }) message.content
    if rest.queue.isEmpty then done else done.addTask 0 ()

def behaviour : Behaviour Unit Empty (Actor T R) where
  run _ w := World.deliver w
  poll f _ := nomatch f

/-- Lets a world work. A message needs at most two rounds, its delivery and one that finds
nothing. -/
def World.drive (w : World T R) (way : Drive) : Option Bool × World T R :=
  let rounds := w.scheduler.ready.length + 2 * w.state.mailbox.queue.length + 1
  (behaviour.drive? rounds way w).getD (none, w)

/-- The owner of the object as a diagnostic text. -/
def diagnostic (a : Actor T R) : Option String :=
  a.object.map fun _ => Text.record "Actor" [("mailbox", a.mailbox.diagnostic)] false

/-- A handle that does not own the object as a diagnostic text. -/
def weakDiagnostic (a : Actor T R) : String :=
  Text.record "WeakActor" [("alive", if a.object.isSome then "true" else "false")] false

end Actor

end MapTiles
