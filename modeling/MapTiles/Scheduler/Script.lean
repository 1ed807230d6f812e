import MapTiles.Scheduler
import MapTiles.Text.Diagnostic

/-!
Scripted work for a scheduler. A script is made of tasks, of futures that wait for signals on
channels, and of the sending and dropping of signals; a task or a complete future goes on with a
script of its own. Every future waits for signals of its own: for each channel that it names it
leaves a sender there, and the oldest sender of a channel is used first.
-/

namespace MapTiles.Script

/-- One item of a script. -/
inductive Action where
  | task (name : String) (delay : Duration) (follow : List Action)
  | perform (name : String) (follow : List Action)
  | spawn (name : String) (channels : List String) (follow : List Action)
  | send (channel : String)
  | drop (channel : String)

/-- A task: it writes its name to the log and goes on. -/
structure Job where
  name : String
  follow : List Action

/-- A future: the channels that it waits for, in order, each with its signal there. -/
structure Waiting where
  name : String
  waits : List (String × Nat)
  follow : List Action

/-- What has become of a signal. A dropped one ends its future, and the future that ended no
longer hears the rest of its own. -/
inductive Signal where
  | pending
  | sent
  | dropped
  | unheard
deriving DecidableEq

/-- The signals there have been, the senders that are left, oldest first, and the log. -/
structure Exchange where
  signals : List Signal
  senders : List (String × Nat)
  log : List (String × Instant)

/-- A scheduler that runs scripts. -/
abbrev World : Type :=
  System Job Waiting Exchange

def World.start : World :=
  ⟨Scheduler.start, ⟨[], [], []⟩⟩

def World.note (w : World) (line : String) : World :=
  w.modify fun x => { x with log := x.log ++ [(line, w.scheduler.now)] }

/-- Leaves a sender on each channel and adds the future that waits for them. -/
def World.spawn (w : World) (name : String) (channels : List String) (follow : List Action) :
    World :=
  let waits := channels.zipIdx w.state.signals.length
  let opened := w.modify fun x =>
    { x with
      signals := x.signals ++ channels.map fun _ => Signal.pending
      senders := x.senders ++ waits }
  System.spawn opened ⟨name, waits, follow⟩

/-- Uses the oldest sender of a channel to turn an open signal into `signal`. The flags tell
whether there was a sender and whether its signal was open. -/
def World.useSender (w : World) (channel : String) (signal : Signal) : Bool × Bool × World :=
  match w.state.senders.find? fun sender => sender.1 = channel with
  | none => (false, false, w)
  | some sender =>
    let isOpen := decide (w.state.signals[sender.2]? = some .pending)
    (true, isOpen, w.modify fun x =>
      { x with
        signals := if isOpen then x.signals.set sender.2 signal else x.signals
        senders := x.senders.erase sender })

mutual

def Action.run : Action → World → World
  | .task name delay follow, w => System.addTask w delay ⟨name, follow⟩
  | .perform name follow, w => runAll follow (World.note w name)
  | .spawn name channels follow, w => World.spawn w name channels follow
  | .send channel, w => (World.useSender w channel .sent).2.2
  | .drop channel, w => (World.useSender w channel .dropped).2.2

def runAll : List Action → World → World
  | [], w => w
  | a :: rest, w => runAll rest (a.run w)

end

/-- Whether an item finds what it needs: a sender whose future listens to send on, or any sender to
drop. Other items have no answer. -/
def Action.succeeds? (w : World) : Action → Option Bool
  | .send channel => some (World.useSender w channel .sent).2.1
  | .drop channel => some (World.useSender w channel .dropped).1
  | _ => none

/-- What a future still waits for once the signals that were sent are passed over. -/
def stillOpen (signals : List Signal) (waits : List (String × Nat)) : List (String × Nat) :=
  waits.dropWhile fun wait => signals[wait.2]? = some .sent

/-- Asks a future: it waits at its first open signal, ends at a dropped one, and is complete when
every signal was sent. -/
def poll (f : Waiting) (w : World) : Option Waiting × World :=
  match stillOpen w.state.signals f.waits with
  | [] => (none, runAll f.follow (World.note w f.name))
  | wait :: rest =>
    if w.state.signals[wait.2]? = some .pending then (some f, w)
    else
      let deaf := w.modify fun x =>
        { x with signals := rest.foldl (fun s later => s.set later.2 .unheard) x.signals }
      (none, World.note deaf (f.name ++ " dropped"))

def behaviour : Behaviour Job Waiting Exchange where
  run job w := runAll job.follow (World.note w job.name)
  poll := poll

mutual

/-- The number of tasks and futures that an item can bring about. -/
def Action.size : Action → Nat
  | .task _ _ follow => sizeAll follow + 1
  | .perform _ follow => sizeAll follow
  | .spawn _ _ follow => sizeAll follow + 1
  | .send _ => 0
  | .drop _ => 0

/-- The number of tasks and futures that a script can bring about. -/
def sizeAll : List Action → Nat
  | [] => 0
  | a :: rest => a.size + sizeAll rest

end

/-- The number of tasks and futures that are left or can still come about. Every round of work with
progress lowers it. -/
def World.size (w : World) : Nat :=
  (w.scheduler.ready.map fun job => sizeAll job.follow + 1).foldr Nat.add 0 +
    (w.scheduler.delayed.map fun d => sizeAll d.task.follow + 1).foldr Nat.add 0 +
      (w.scheduler.futures.map fun f => sizeAll f.follow + 1).foldr Nat.add 0

/-- Performs an item, unless a time comes up that no duration can tell. -/
def World.perform? (w : World) (a : Action) : Option World :=
  (a.run w).within? Duration.longest

/-- Lets a world work. It needs no more rounds than it has tasks and futures to come, and one to
find that there are none. There is no result if a time comes up that no duration can tell. -/
def World.drive? (w : World) (way : Drive) : Option (Option Bool × World) :=
  behaviour.driveWithin? Duration.longest (w.size + 1) way w

def describeTask (name : String) (delay : Duration) : String :=
  Text.record "ScheduledTask"
    [("name", Text.quoted name), ("delay", Duration.diagnostic delay)] false

end MapTiles.Script
