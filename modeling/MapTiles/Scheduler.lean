import MapTiles.Duration

/-!
A scheduler with a clock that stands still until it is moved. Tasks without a delay wait in a
queue and run in the order in which they were added. Delayed tasks wait for their due time, the
earliest first and equally early ones in the order in which they were added. Futures are asked
again and again until they are complete.

`Scheduler` holds the waiting work and says what comes next. What tasks and futures do is given
by a `Behaviour` on a `System`, which is a scheduler with the state that its work changes.
-/

namespace MapTiles

/-- A task that waits for its due time. -/
structure Delayed (τ : Type) where
  due : Instant
  order : Nat
  task : τ

/-- The waiting work and the clock. `added` counts the delayed tasks there have been, and `furthest`
is the furthest time that came up in the work. -/
structure Scheduler (τ φ : Type) where
  ready : List τ
  delayed : List (Delayed τ)
  futures : List φ
  now : Instant
  added : Nat
  furthest : Instant

namespace Scheduler

variable {τ φ : Type}

def start : Scheduler τ φ :=
  ⟨[], [], [], 0, 0, 0⟩

/-- Takes note of times that come up. -/
def reckon (s : Scheduler τ φ) (times : List Instant) : Scheduler τ φ :=
  { s with furthest := times.foldl max s.furthest }

/-- Puts a delayed task behind all that are due no later. -/
def insertDelayed (d : Delayed τ) : List (Delayed τ) → List (Delayed τ)
  | [] => [d]
  | e :: rest => if d.due < e.due then d :: e :: rest else e :: insertDelayed d rest

/-- Adds a task that may run after `delay`. -/
def addTask (s : Scheduler τ φ) (delay : Duration) (task : τ) : Scheduler τ φ :=
  if delay = 0 then { s with ready := s.ready ++ [task] }
  else
    { s with
      delayed := insertDelayed ⟨s.now + delay, s.added, task⟩ s.delayed
      added := s.added + 1
      furthest := max s.furthest (s.now + delay) }

def spawn (s : Scheduler τ φ) (future : φ) : Scheduler τ φ :=
  { s with futures := s.futures ++ [future] }

/-- When the next delayed task is due. -/
def nextDue? (s : Scheduler τ φ) : Option Instant :=
  s.delayed.head?.map Delayed.due

/-- Moves the clock on to `t`, never back. -/
def advanceTo (s : Scheduler τ φ) (t : Instant) : Scheduler τ φ :=
  { s with now := max s.now t }

/-- Takes the first ready task. -/
def takeReady? (s : Scheduler τ φ) : Option (τ × Scheduler τ φ) :=
  match s.ready with
  | [] => none
  | task :: rest => some (task, { s with ready := rest })

/-- Takes the next delayed task and moves the clock on to its due time, unless it is due after the
limit. -/
def takeDelayed? (s : Scheduler τ φ) (limit : Option Instant) : Option (τ × Scheduler τ φ) :=
  match s.delayed with
  | [] => none
  | d :: rest =>
    if limit.any fun l => decide (l < d.due) then none
    else some (d.task, { s with delayed := rest }.advanceTo d.due)

end Scheduler

/-- A scheduler with the state that its work changes. -/
structure System (τ φ σ : Type) where
  scheduler : Scheduler τ φ
  state : σ

namespace System

variable {τ φ σ : Type}

def addTask (s : System τ φ σ) (delay : Duration) (task : τ) : System τ φ σ :=
  { s with scheduler := s.scheduler.addTask delay task }

def spawn (s : System τ φ σ) (future : φ) : System τ φ σ :=
  { s with scheduler := s.scheduler.spawn future }

def modify (s : System τ φ σ) (f : σ → σ) : System τ φ σ :=
  { s with state := f s.state }

def reckon (s : System τ φ σ) (times : List Instant) : System τ φ σ :=
  { s with scheduler := s.scheduler.reckon times }

/-- A system in which no time later than `latest` came up. The clock cannot tell such a time, and
work that needs it breaks off, so there is no system after it. -/
def within? (latest : Instant) (s : System τ φ σ) : Option (System τ φ σ) :=
  if s.scheduler.furthest ≤ latest then some s else none

end System

/-- What tasks and futures do when it is their turn. A future that is not complete stays, perhaps
changed. -/
structure Behaviour (τ φ σ : Type) where
  run : τ → System τ φ σ → System τ φ σ
  poll : φ → System τ φ σ → Option φ × System τ φ σ

namespace Behaviour

variable {τ φ σ : Type} (b : Behaviour τ φ σ)

def runReady? (s : System τ φ σ) : Option (System τ φ σ) :=
  s.scheduler.takeReady?.map fun (task, rest) => b.run task { s with scheduler := rest }

/-- Runs the next delayed task, if there is one up to the limit. -/
def runDelayed? (limit : Option Instant) (s : System τ φ σ) : Option (System τ φ σ) :=
  (s.scheduler.takeDelayed? limit).map fun (task, rest) => b.run task { s with scheduler := rest }

/-- Asks each of the futures once: those that stay, whether one was complete, and the system after
it. -/
def pollEach : List φ → System τ φ σ → List φ × Bool × System τ φ σ
  | [], s => ([], false, s)
  | f :: rest, s =>
    let (kept, s) := b.poll f s
    let (pending, completed, s) := pollEach rest s
    match kept with
    | some f => (f :: pending, completed, s)
    | none => (pending, true, s)

/-- Asks every future once. Futures added meanwhile come after those that stay. -/
def pollFutures (s : System τ φ σ) : Bool × System τ φ σ :=
  let waiting := s.scheduler.futures
  let (pending, completed, after) :=
    b.pollEach waiting { s with scheduler := { s.scheduler with futures := [] } }
  (completed, { after with
    scheduler := { after.scheduler with futures := pending ++ after.scheduler.futures } })

/-- One round of work: a ready task, or else all futures, or else, if none of them was complete, a
delayed task up to the limit. The flag tells whether there was any progress. -/
def round (limit : Option Instant) (s : System τ φ σ) : Bool × System τ φ σ :=
  match b.runReady? s with
  | some next => (true, next)
  | none =>
    let (completed, asked) := b.pollFutures s
    if completed then (true, asked)
    else
      match b.runDelayed? limit asked with
      | some next => (true, next)
      | none => (false, asked)

/-- Rounds of work until there is no progress, at most `rounds` of them. -/
def drain? (limit : Option Instant) : Nat → System τ φ σ → Option (System τ φ σ)
  | 0, _ => none
  | rounds + 1, s =>
    match b.round limit s with
    | (true, next) => drain? limit rounds next
    | (false, last) => some last

/-- Moves the clock on to `t` and does all work that is due by then. -/
def drainUntil? (t : Instant) (rounds : Nat) (s : System τ φ σ) : Option (System τ φ σ) :=
  b.drain? (some t) rounds { s with scheduler := s.scheduler.advanceTo t }

end Behaviour

/-- The ways to let a system work: until nothing is left, as far as it can without moving the
clock, up to a time, for a while, or up to the next delayed task. -/
inductive Drive where
  | drain
  | settle
  | untilTime (t : Instant)
  | advance (d : Duration)
  | step
deriving DecidableEq

/-- The time that comes up when the clock is moved on for a while. -/
def Drive.target? (now : Instant) : Drive → Option Instant
  | .advance d => some (now + d)
  | .drain | .settle | .untilTime _ | .step => none

namespace Behaviour

variable {τ φ σ : Type} (b : Behaviour τ φ σ)

/-- Does all work that can be done now, then moves the clock on to the next delayed task and does
the work due then. The flag tells whether there was such a task. -/
def step? (rounds : Nat) (s : System τ φ σ) : Option (Bool × System τ φ σ) :=
  (b.drain? (some s.scheduler.now) rounds s).bind fun settled =>
    match settled.scheduler.nextDue? with
    | none => some (false, settled)
    | some due => (b.drainUntil? due rounds settled).map fun last => (true, last)

/-- Lets a system work, at most `rounds` rounds at a time. A step also tells whether there was a
delayed task. -/
def drive? (rounds : Nat) (way : Drive) (s : System τ φ σ) :
    Option (Option Bool × System τ φ σ) :=
  let silent (last : Option (System τ φ σ)) := last.map fun s => (none, s)
  match way with
  | .drain => silent (b.drain? none rounds s)
  | .settle => silent (b.drainUntil? s.scheduler.now rounds s)
  | .untilTime t => silent (b.drainUntil? t rounds s)
  | .advance d => silent (b.drainUntil? (s.scheduler.now + d) rounds s)
  | .step => (b.step? rounds s).map fun (moved, s) => (some moved, s)

/-- Lets a system work. There is no result if a time later than `latest` comes up, nor if the clock is
moved on to a time that no duration can tell. -/
def driveWithin? (latest : Instant) (rounds : Nat) (way : Drive) (s : System τ φ σ) :
    Option (Option Bool × System τ φ σ) :=
  if (way.target? s.scheduler.now).any fun t => decide (Duration.longest < t) then none
  else
    (b.drive? rounds way s).bind fun (moved, last) =>
      (last.within? latest).map fun last => (moved, last)

end Behaviour

end MapTiles
