import MapTiles.Mailbox
import MapTiles.Scheduler

/-!
Several mailboxes served by one scheduler. A message carries a value for the log and errands to
run after it: to push further messages, into the same mailbox or another, or to give a mailbox up.
A mailbox that was given up takes no messages and drops those that wait.
-/

namespace MapTiles.Office

/-- Something that a message does when it is delivered. -/
inductive Errand where
  | push (box : Nat) (identifier : String) (duplication : Duplication) (value : Int)
    (follow : List Errand)
  | close (box : Nat)

/-- What a message carries. -/
structure Memo where
  value : Int
  follow : List Errand

/-- The mailboxes, with nothing in the place of one that was given up, and the log. -/
structure Rooms where
  boxes : List (Option (Mailbox Memo))
  log : List Int

/-- A scheduler whose tasks are deliveries, each named by its mailbox. -/
abbrev World : Type :=
  System Nat Empty Rooms

def World.start (boxes : Nat) : World :=
  ⟨Scheduler.start, ⟨List.replicate boxes (some Mailbox.empty), []⟩⟩

/-- The mailbox of a number, unless it was given up. -/
def World.box? (w : World) (n : Nat) : Option (Mailbox Memo) :=
  (w.state.boxes[n]?).join

def World.setBox (w : World) (n : Nat) (box : Option (Mailbox Memo)) : World :=
  w.modify fun x => { x with boxes := x.boxes.set n box }

/-- Pushes a message, if the mailbox is there, and adds the delivery owed for it. -/
def World.push (w : World) (n : Nat) (message : Envelope Memo) : World :=
  match World.box? w n with
  | none => w
  | some box =>
    let (box, owed) := box.push message
    let pushed := World.setBox w n (some box)
    if owed then pushed.addTask 0 n else pushed

def Errand.run (w : World) : Errand → World
  | .push box identifier duplication value follow =>
    World.push w box ⟨identifier, duplication, ⟨value, follow⟩⟩
  | .close box => World.setBox w box none

/-- Delivers the oldest message of a mailbox. If more were waiting, the next delivery follows even
when the message gave the mailbox up. -/
def World.deliver (w : World) (n : Nat) : World :=
  match (World.box? w n).bind Mailbox.pop? with
  | none => w
  | some (message, rest) =>
    let taken := (World.setBox w n (some rest)).modify fun x =>
      { x with log := x.log ++ [message.content.value] }
    let done := message.content.follow.foldl Errand.run taken
    if rest.queue.isEmpty then done else done.addTask 0 n

def behaviour : Behaviour Nat Empty Rooms where
  run n w := World.deliver w n
  poll f _ := nomatch f

mutual

/-- The number of messages that an errand can bring about. -/
def Errand.size : Errand → Nat
  | .push _ _ _ _ follow => sizeAll follow + 1
  | .close _ => 0

/-- The number of messages that some errands can bring about. -/
def sizeAll : List Errand → Nat
  | [] => 0
  | e :: rest => e.size + sizeAll rest

end

/-- The number of messages that wait or can still come about. -/
def Rooms.size (x : Rooms) : Nat :=
  (x.boxes.map fun box =>
    match box with
    | none => 0
    | some box => (box.queue.map fun m => sizeAll m.content.follow + 1).foldr Nat.add 0).foldr
      Nat.add 0

/-- Lets a world work. A message needs at most three rounds: its delivery, one that finds nothing,
and one that was owed for a message that was replaced. -/
def World.drive (w : World) (way : Drive) : Option Bool × World :=
  let rounds := w.scheduler.ready.length + 3 * w.state.size + 1
  (behaviour.drive? rounds way w).getD (none, w)

end MapTiles.Office
