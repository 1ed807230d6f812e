import MapTiles.Backoff
import MapTiles.Grid
import MapTiles.Outcome
import Std.Data.ExtTreeMap
import Std.Data.ExtTreeSet

/-!
The bookkeeping of tile loads: which tiles are on screen, which of them wait in the queue, which
loads are running, which tiles have arrived, which failed and wait for another attempt, and which
are known not to exist.

A tile on screen is queued unless it is already queued, loading, resident, known to be missing or
waiting out a failure. A load whose tile has left the screen keeps its slot until it ends, but is
marked cancelled and its outcome is thrown away. The containers are extensional: two of them with
the same members are equal.
-/

namespace MapTiles

abbrev TileMap (α : Type) : Type :=
  Std.ExtTreeMap Tile α

abbrev TileSet : Type :=
  Std.ExtTreeSet Tile

/-- The priority and the place of a tile on screen. -/
structure Placement where
  priority : Nat
  bounds : Rect Float

/-- A tile that has arrived, with its place in the system of the layer. -/
structure Resident (P : Type) where
  tile : Tile
  bounds : Rect Float
  payload : P

/-- The state of all tile loads. -/
structure Loading (P : Type) where
  maxLoads : Nat
  backoff : BackoffPolicy
  visible : TileMap Placement
  /-- The waiting requests in the order of dispatch. -/
  queue : Std.ExtTreeSet Request
  /-- The priority under which a tile waits. -/
  queued : TileMap Nat
  /-- The running loads, each with the mark of a cancelled one. -/
  inFlight : TileMap Bool
  resident : TileMap (Resident P)
  errors : TileMap ErrorRecord
  missing : TileSet

/-- What a change of the visible set did. -/
structure VisibleUpdate where
  enqueued : Nat
  dequeued : Nat
  evicted : Nat
  cancelled : List Tile
deriving DecidableEq

/-- Whether tiles that had arrived were dropped. -/
def VisibleUpdate.residentChanged (u : VisibleUpdate) : Bool :=
  decide (0 < u.evicted)

/-- How the outcome of a load was taken. -/
inductive Completion where
  | stored
  | discarded
  | missing
  | failed (record : ErrorRecord)
  | unknown
deriving DecidableEq

namespace Loading

variable {P : Type}

/-- No tile known yet. There is at least one slot for loads. -/
def start (maxLoads : Nat) (backoff : BackoffPolicy) : Loading P where
  maxLoads := max maxLoads 1
  backoff := backoff
  visible := ∅
  queue := ∅
  queued := ∅
  inFlight := ∅
  resident := ∅
  errors := ∅
  missing := ∅

def ofConfig (c : Config) : Loading P :=
  start c.maxLoads (BackoffPolicy.ofConfig c)

def isVisible (s : Loading P) (t : Tile) : Bool :=
  s.visible.contains t

/-- Whether a tile may enter the queue now. -/
def accepts (s : Loading P) (t : Tile) (now : Instant) : Bool :=
  !s.queued.contains t && !s.inFlight.contains t && !s.resident.contains t &&
    !s.missing.contains t && s.errors[t]?.all fun record => record.isDue now

/-- Queues a request if its tile may enter the queue. -/
def enqueue (s : Loading P) (now : Instant) (r : Request) : Loading P :=
  if s.accepts r.tile now then
    { s with queue := s.queue.insert r, queued := s.queued.insert r.tile r.priority }
  else s

def enqueueAll (s : Loading P) (now : Instant) (requests : List Request) : Loading P :=
  requests.foldl (fun s r => s.enqueue now r) s

def dequeue (s : Loading P) (r : Request) : Loading P :=
  { s with queue := s.queue.erase r, queued := s.queued.erase r.tile }

/-- The visible set that a list of tiles describes; of a repeated tile the last entry counts. -/
def placements (tiles : List (GridTile Float)) : TileMap Placement :=
  tiles.foldl (fun m t => m.insert t.request.tile ⟨t.request.priority, t.bounds⟩) ∅

/-- The requests that a visible set makes. -/
def requests (visible : TileMap Placement) : List Request :=
  visible.toList.map fun entry => ⟨entry.2.priority, entry.1⟩

/-- The waiting requests that a new visible set no longer makes. -/
def staleRequests (s : Loading P) (visible : TileMap Placement) : List Request :=
  let stale := s.queued.filter fun t priority =>
    decide (visible[t]?.map Placement.priority ≠ some priority)
  stale.toList.map fun entry => ⟨entry.2, entry.1⟩

/-- Replaces the visible set. Tiles that left it are dropped, dequeued or have their load
cancelled; a cancelled load whose tile is back is taken up again; every other tile of the set is
queued if it may be. -/
def updateVisible (s : Loading P) (tiles : List (GridTile Float)) (now : Instant) :
    Loading P × VisibleUpdate :=
  let visible := placements tiles
  let resident := s.resident.filter fun t _ => visible.contains t
  let stale := s.staleRequests visible
  let kept := stale.foldl dequeue s
  let cancelled := s.inFlight.filter fun t marked => !marked && !visible.contains t
  let cleared : Loading P := { kept with
    visible := visible
    inFlight := s.inFlight.map fun t _ => !visible.contains t
    resident := resident }
  let queued := cleared.enqueueAll now (requests visible)
  (queued,
    { enqueued := queued.queue.size - cleared.queue.size
      dequeued := (stale.filter fun r => !visible.contains r.tile).length
      evicted := s.resident.size - resident.size
      cancelled := cancelled.keys })

/-- Starts the most urgent waiting load if a slot is free. -/
def nextDispatch (s : Loading P) : Option (Request × Loading P) :=
  if s.maxLoads ≤ s.inFlight.size then none
  else
    s.queue.min?.map fun r =>
      (r, { s.dequeue r with inFlight := s.inFlight.insert r.tile false })

/-- Starts waiting loads as long as slots are free, at most `limit` of them. -/
def dispatch (s : Loading P) : Nat → List Request × Loading P
  | 0 => ([], s)
  | limit + 1 =>
    match s.nextDispatch with
    | none => ([], s)
    | some (r, next) =>
      let (rest, last) := next.dispatch limit
      (r :: rest, last)

/-- Starts waiting loads as long as slots are free. -/
def dispatchAll (s : Loading P) : List Request × Loading P :=
  s.dispatch s.queue.size

/-- Takes the outcome of a load and frees its slot. -/
def complete (s : Loading P) (t : Tile) (outcome : Outcome P) (now : Instant) :
    Loading P × Completion :=
  match s.inFlight[t]? with
  | none => (s, .unknown)
  | some marked =>
    let freed := { s with inFlight := s.inFlight.erase t }
    if marked then (freed, .discarded)
    else
      match outcome with
      | .loaded payload =>
        match s.visible[t]? with
        | none => (freed, .discarded)
        | some place =>
          ({ freed with
            errors := s.errors.erase t
            resident := s.resident.insert t ⟨t, place.bounds, payload⟩ }, .stored)
      | .missing =>
        ({ freed with errors := s.errors.erase t, missing := s.missing.insert t }, .missing)
      | .failed _ =>
        let record := s.backoff.recordFailure s.errors[t]? now
        ({ freed with errors := s.errors.insert t record }, .failed record)

/-- The requests of visible tiles that failed and may be tried again. -/
def dueRequests (s : Loading P) (now : Instant) : List Request :=
  s.errors.toList.filterMap fun entry =>
    if entry.2.isDue now then
      s.visible[entry.1]?.map fun place => ⟨place.priority, entry.1⟩
    else none

/-- Queues the visible tiles that failed and may be tried again, and counts them. -/
def enqueueDue (s : Loading P) (now : Instant) : Loading P × Nat :=
  let queued := s.enqueueAll now (s.dueRequests now)
  (queued, queued.queue.size - s.queue.size)

/-- The earliest time at which a visible tile that waits out a failure may be tried again. -/
def nextRetry? (s : Loading P) : Option Instant :=
  let waiting := s.errors.toList.filter fun entry =>
    s.visible.contains entry.1 && !s.queued.contains entry.1 && !s.inFlight.contains entry.1
  (waiting.map fun entry => entry.2.retryAt).min?

/-- The times at which the tiles that failed may be tried again. -/
def retryTimes (s : Loading P) : List Instant :=
  s.errors.toList.map fun entry => entry.2.retryAt

/-- Empties the queue and counts what was in it. -/
def clearQueue (s : Loading P) : Loading P × Nat :=
  ({ s with queue := ∅, queued := ∅ }, s.queue.size)

/-- Forgets the tiles that have arrived, the failures and the queue. Running loads and missing
tiles stay. The flag tells whether any tile had arrived. -/
def reset (s : Loading P) : Loading P × Bool :=
  ({ s.clearQueue.1 with resident := ∅, errors := ∅ }, !s.resident.isEmpty)

/-- The tiles that have arrived, in tile order. -/
def residents (s : Loading P) : List (Resident P) :=
  s.resident.values

end Loading

end MapTiles
