import MapTiles.HostedScheduler

/-!
A runtime of a single thread under a clock that jumps to the next awakening as soon as no job can go
on. Its owner adds work and lets time pass. A job is asked for the first time when the owner waits
next. The timers of the runtime are a parameter, and so the owner's own one may also run for less
than it was set for.
-/

namespace MapTiles

/-- The jobs, the numbers of those that can go on, and of those that sleep in the order in which
they fell asleep. -/
structure PausedClock (timer : Duration → Duration) where
  scheduler : HostedScheduler (.timed timer)
  ready : List Nat
  sleeping : List Nat

namespace PausedClock

variable {timer : Duration → Duration}

def start (timer : Duration → Duration) : PausedClock timer :=
  ⟨HostedScheduler.start _, [], []⟩

/-- Adds a job, unless the jobs were shut down. -/
def add (c : PausedClock timer) (job : Job (.timed timer)) : PausedClock timer :=
  { c with
    scheduler := c.scheduler.add job
    ready := c.ready ++ if c.scheduler.isStopped then [] else [c.scheduler.jobs.length] }

def shutdown (c : PausedClock timer) : PausedClock timer :=
  { c with scheduler := c.scheduler.shutdown }

/-- When a job awakes, if it sleeps. -/
def awakening? (c : PausedClock timer) (n : Nat) : Option Instant :=
  match c.scheduler.jobs[n]? with
  | some (some (.delayed _ due)) => some due
  | some (some (.future due _)) => due
  | _ => none

/-- Goes on with a job. -/
def goOn (c : PausedClock timer) (n : Nat) : PausedClock timer :=
  let next : PausedClock timer := { c with scheduler := c.scheduler.ask n }
  if (next.awakening? n).isSome then { next with sleeping := next.sleeping ++ [n] } else next

/-- Goes on with every job that can. -/
def wait (c : PausedClock timer) : PausedClock timer :=
  c.ready.foldl goOn { c with ready := [] }

/-- When the next job awakes. -/
def next? (c : PausedClock timer) : Option Instant :=
  (c.sleeping.filterMap c.awakening?).min?

/-- Moves the clock to `t`. The jobs that awake by then can go on. -/
def moveTo (c : PausedClock timer) (t : Instant) : PausedClock timer :=
  let asleep (n : Nat) : Bool := (c.awakening? n).any fun due => decide (t < due)
  { scheduler := c.scheduler.pass (t - c.scheduler.now)
    ready := c.ready ++ c.sleeping.filter fun n => !asleep n
    sleeping := c.sleeping.filter asleep }

/-- Lets the time until `t` pass: what can go on goes on, and then the clock jumps to the next
awakening, at most `limit` times. Those who awake at `t` itself can go on, but have not done so
yet. -/
def runTo (t : Instant) : Nat → PausedClock timer → PausedClock timer
  | 0, c => c.wait.moveTo t
  | limit + 1, c =>
    let idle := c.wait
    match idle.next? with
    | none => idle.moveTo t
    | some due => if due < t then runTo t limit (idle.moveTo due) else idle.moveTo t

/-- The number of times that a job can still awake, or more. -/
def sleeps : Option (Job (.timed timer)) → Nat
  | none => 0
  | some (.task _ _) => 1
  | some (.delayed _ _) => 1
  | some (.future _ rest) => rest.length + 1

/-- The number of times that jobs can still awake, or more. -/
def awakenings : List (Option (Job (.timed timer))) → Nat
  | [] => 0
  | job :: rest => sleeps job + awakenings rest

/-- Lets time pass until the owner can go on, which then comes before the jobs that awake at the
same time. -/
def elapse (c : PausedClock timer) (d : Duration) : PausedClock timer :=
  c.runTo (c.scheduler.now + timer d) (awakenings c.scheduler.jobs)

/-- Lets time pass, and then lets the jobs go on that can. -/
def advance (c : PausedClock timer) (d : Duration) : PausedClock timer :=
  (c.elapse d).wait

end PausedClock

end MapTiles
