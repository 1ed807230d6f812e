import MapTiles.Runtime

/-!
A scheduler that hands its jobs to a runtime. The runtime asks a job when it likes, and the job goes
on until it sleeps or is over. A task waits for its delay first, which counts from the time at which
it was asked first. Jobs can be shut down. From then on none is added, and those that are there
end when they are asked the next time: in every choice the token comes first, and a task looks at it
once more before it acts.
-/

namespace MapTiles

/-- A part of a future. -/
inductive Stage where
  | act (label : String)
  | sleep (length : Duration)
deriving DecidableEq

/-- How far a future has come: the sleep that it is in, the stages that are left, and what it did
when it was asked. -/
structure Progress (R : Runtime) where
  sleep : Option R.Sleep
  rest : List Stage
  done : List String

/-- A job that is not over: a task that was not asked yet, one that waits for its delay, or a
future. -/
inductive Job (R : Runtime) where
  | task (label : String) (delay : Duration)
  | delayed (label : String) (sleep : R.Sleep)
  | future (sleep : Option R.Sleep) (rest : List Stage)

variable {R : Runtime}

/-- Goes on with the stages of a future until it sleeps or is complete. -/
def Progress.goOn (now : Instant) : List Stage → List String → Bool × Progress R
  | [], done => (true, ⟨none, [], done⟩)
  | .act label :: rest, done => goOn now rest (done ++ [label])
  | .sleep length :: rest, done =>
    let sleep := R.sleep length now
    if R.isOver sleep now then goOn now rest done else (false, ⟨some sleep, rest, done⟩)

/-- Asks a future whether it is complete. -/
def Progress.ask (now : Instant) (p : Progress R) : Bool × Progress R :=
  if p.sleep.all fun sleep => R.isOver sleep now then goOn now p.rest p.done else (false, p)

namespace Job

/-- What a task does after its delay. -/
def finish (token : R.Token) (label : String) : Option (Job R) × List String :=
  (none, if R.isCancelled token then [] else [label])

/-- Asks a task that waits for its delay. -/
def await (token : R.Token) (now : Instant) (label : String) (sleep : R.Sleep) :
    Option (Job R) × List String :=
  match R.select (fun s => (R.isCancelled token, s)) (fun s => (R.isOver s now, s)) sleep with
  | (some .first, _) => (none, [])
  | (some .second, _) => finish token label
  | (none, sleep) => (some (.delayed label sleep), [])

/-- Asks a job. Gives the job unless it is over, and what it did. -/
def ask (token : R.Token) (now : Instant) : Job R → Option (Job R) × List String
  | .task label delay =>
    if delay = 0 then finish token label else await token now label (R.sleep delay now)
  | .delayed label sleep => await token now label sleep
  | .future sleep rest =>
    match R.select (fun p => (R.isCancelled token, p)) (Progress.ask now) ⟨sleep, rest, []⟩ with
    | (some _, p) => (none, p.done)
    | (none, p) => (some (.future p.sleep p.rest), p.done)

end Job

/-- What a job did, and when. -/
structure Deed where
  job : Nat
  label : String
  time : Instant
deriving DecidableEq

/-- The jobs of a scheduler in the order in which they were added, without those that are over, and
what they did. -/
structure HostedScheduler (R : Runtime) where
  token : R.Token
  now : Instant
  jobs : List (Option (Job R))
  log : List Deed

namespace HostedScheduler

def start (R : Runtime) : HostedScheduler R :=
  ⟨R.token, 0, [], []⟩

def isStopped (s : HostedScheduler R) : Bool :=
  R.isCancelled s.token

/-- Adds a job, unless the jobs were shut down. -/
def add (s : HostedScheduler R) (job : Job R) : HostedScheduler R :=
  if s.isStopped then s else { s with jobs := s.jobs ++ [some job] }

def shutdown (s : HostedScheduler R) : HostedScheduler R :=
  if s.isStopped then s else { s with token := R.cancel s.token }

/-- The runtime asks a job, unless it is over. -/
def ask (s : HostedScheduler R) (n : Nat) : HostedScheduler R :=
  match s.jobs[n]? with
  | some (some job) =>
    let (left, done) := job.ask s.token s.now
    { s with
      jobs := s.jobs.set n left
      log := s.log ++ done.map fun label => ⟨n, label, s.now⟩ }
  | _ => s

/-- Lets time pass. -/
def pass (s : HostedScheduler R) (time : Duration) : HostedScheduler R :=
  { s with now := s.now + time }

end HostedScheduler

end MapTiles
