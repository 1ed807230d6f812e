import MapTiles.Mailbox
import MapTiles.Scheduler
import MapTiles.Slot
import MapTiles.Source

/-!
A tile source at work: its mailbox, the scheduler that delivers the messages and holds the timers,
the loads that run, and a loader that says when each of them ends. The source can be given up;
messages that wait then change nothing, questions are closed, and what loads and timers still
bring is dropped.
-/

namespace MapTiles.Source

/-- Something that starts loads. A load ends at once if its outcome is known, and otherwise when
somebody says so. `κ` is what the loader remembers from one load to the next. -/
structure Loader (κ P : Type) where
  start : Tile → String → κ → Option (Outcome P) × κ
  /-- Whether it takes note of loads that are no longer wanted. -/
  heeds : Bool

namespace Loader

variable {P : Type}

/-- A loader whose loads end when they are told to. -/
def manual : Loader Unit P where
  start _ _ memory := (none, memory)
  heeds := true

/-- A loader whose loads end at once, each with the next outcome of its key, and with
`outcome key` when there is none left. -/
def scripted (outcome : String → Outcome P) : Loader (List (String × List (Outcome P))) P where
  start _ key script :=
    match script.find? fun entry => entry.1 = key with
    | some (_, next :: _) =>
      (some next, script.map fun entry => if entry.1 = key then (key, entry.2.drop 1) else entry)
    | _ => (some (outcome key), script)
  heeds := false

end Loader

/-- A load that runs. Once it has an outcome it ends the next time it is asked. -/
structure Load (P : Type) where
  number : Nat
  tile : Tile
  key : String
  outcome : Option (Outcome P)

/-- A task of the scheduler: the delivery of a message, or a timer of the source. -/
inductive Task where
  | deliver
  | wake
deriving DecidableEq

/-- What can be seen from outside a source. -/
inductive Event where
  | requested (tile : Tile) (key : String)
  | cancelled (tile : Tile) (key : String)
  | notified (time : Instant)

/-- A source, or nothing after it was given up, and what stands around it. -/
structure Host (κ P : Type) where
  source : Option (Source P)
  mailbox : Mailbox (Message P)
  slots : List (Slot Answer)
  memory : κ
  /-- The number of loads there have been. -/
  loads : Nat
  events : List Event

/-- A scheduler that serves one source. -/
abbrev World (κ P : Type) : Type :=
  System Task (Load P) (Host κ P)

variable {κ P : Type}

def World.start (source : Source P) (memory : κ) : World κ P :=
  ⟨Scheduler.start, ⟨some source, Mailbox.empty, [], memory, 0, []⟩⟩

/-- The envelope of a message. A view that waits gives way to the next one. -/
def Message.envelope : Message P → Envelope (Message P)
  | .show view => ⟨"show", .replaceNewest, .show view⟩
  | other => ⟨"other", .append, other⟩

/-- Pushes a message and adds the delivery owed for it. -/
def World.push (w : World κ P) (message : Message P) : World κ P :=
  let (mailbox, owed) := w.state.mailbox.push message.envelope
  let pushed := w.modify fun x => { x with mailbox := mailbox }
  if owed then pushed.addTask 0 .deliver else pushed

/-- Sends a message. It is not sent if the source is gone. -/
def World.send (w : World κ P) (message : Message P) : World κ P :=
  if w.state.source.isSome then World.push w message else w

/-- Sends a question and opens the next slot for its answer. -/
def World.ask (w : World κ P) (question : Question) : World κ P :=
  let slot := w.state.slots.length
  let opened := w.modify fun x => { x with slots := x.slots ++ [.waiting] }
  World.push opened (.ask slot question)

def World.release (w : World κ P) : World κ P :=
  w.modify fun x => { x with source := none }

def World.onSlot (w : World κ P) (n : Nat) (f : Slot Answer → Slot Answer) : World κ P :=
  w.modify fun x => { x with slots := x.slots.modify n f }

def World.note (w : World κ P) (event : Event) : World κ P :=
  w.modify fun x => { x with events := x.events ++ [event] }

def World.load (loader : Loader κ P) (w : World κ P) (tile : Tile) (key : String) : World κ P :=
  let number := w.state.loads
  let (outcome, memory) := loader.start tile key w.state.memory
  let counted := w.modify fun x => { x with loads := number + 1, memory := memory }
  (World.note counted (.requested tile key)).spawn ⟨number, tile, key, outcome⟩

def World.perform (loader : Loader κ P) (w : World κ P) : Effect → World κ P
  | .load tile key => World.load loader w tile key
  | .cancel tile key => if loader.heeds then World.note w (.cancelled tile key) else w
  | .wake delay => w.addTask delay .wake
  | .queueFlush => World.push w .flush
  | .notify => World.note w (.notified w.scheduler.now)
  | .answer slot value => World.onSlot w slot (Slot.fill value)

/-- What a message does. Without a source it only closes the slot of a question. -/
def World.apply (loader : Loader κ P) (w : World κ P) (message : Message P) : World κ P :=
  match w.state.source with
  | some source =>
    let now := w.scheduler.now
    let turn := source.handle now message
    let handled := w.modify fun x => { x with source := some turn.source }
    turn.effects.foldl (World.perform loader)
      (handled.reckon (source.told now message turn.source))
  | none =>
    match message with
    | .ask slot _ => World.onSlot w slot Slot.close
    | _ => w

/-- Delivers the oldest message. If more were waiting, the next delivery follows. -/
def World.deliver (loader : Loader κ P) (w : World κ P) : World κ P :=
  match w.state.mailbox.pop? with
  | none => w
  | some (message, rest) =>
    let done := World.apply loader (w.modify fun x => { x with mailbox := rest }) message.content
    if rest.queue.isEmpty then done else done.addTask 0 .deliver

/-- The loads that have no outcome, oldest first. -/
def World.pending (w : World κ P) : List (Load P) :=
  w.scheduler.futures.filter fun load => load.outcome.isNone

/-- Ends a load that has no outcome. -/
def World.finish (w : World κ P) (number : Nat) (outcome : Outcome P) : World κ P :=
  let futures := w.scheduler.futures.map fun load =>
    if load.number = number && load.outcome.isNone then { load with outcome := some outcome }
    else load
  { w with scheduler := { w.scheduler with futures := futures } }

def behaviour (loader : Loader κ P) : Behaviour Task (Load P) (Host κ P) where
  run task w :=
    match task with
    | .deliver => World.deliver loader w
    | .wake => World.send w .retry
  poll load w :=
    match load.outcome with
    | none => (some load, w)
    | some outcome => (none, World.send w (.loaded load.tile outcome))

/-- Lets a world work, at most `rounds` rounds at a time. -/
def World.drive? (loader : Loader κ P) (rounds : Nat) (w : World κ P) (way : Drive) :
    Option (Option Bool × World κ P) :=
  (behaviour loader).drive? rounds way w

/-- Lets a world work with a clock that can tell times up to `latest`. -/
def World.driveWithin? (latest : Instant) (loader : Loader κ P) (rounds : Nat) (w : World κ P)
    (way : Drive) : Option (Option Bool × World κ P) :=
  (behaviour loader).driveWithin? latest rounds way w

/-- The published tiles, unless the source is gone. -/
def World.published? (w : World κ P) : Option (List (Resident P)) :=
  w.state.source.map Source.published

end MapTiles.Source
