import MapTiles.Conversion
import MapTiles.Layer
import MapTiles.Loading
import MapTiles.Loading.Snapshot

/-!
A tile source keeps the tiles of a layer loaded for a view that moves. It changes only by
messages, one at a time. `Source.handle` gives for a message the source after it and the effects
in the order in which they take place: loads that start or are no longer wanted, a timer for the
next attempt at failed tiles, and notifications that the published tiles have changed.

While a source is paused it takes note of views and stores what arrives, but starts nothing and
notifies nobody.
-/

namespace MapTiles

/-- What a source shows and how. The zoom table of the layer is sorted. -/
structure Setup where
  layer : Layer
  buckets : Nat
  convert : Converter
  /-- Whether somebody listens to notifications. -/
  listening : Bool

/-- A view as it was asked for. -/
structure WantedView where
  bounds : Rect Float
  zoom : Float

/-- The state of a tile source with payloads of type `P`. -/
structure Source (P : Type) where
  setup : Setup
  /-- The window of level identifiers. -/
  lowest : Option Int
  highest : Option Int
  loading : Loading P
  /-- The tiles that had arrived when that last changed. -/
  published : List (Resident P)
  paused : Bool
  wanted : Option WantedView
  /-- The last view in the system of the layer. -/
  viewBounds : Option (Rect Float)
  /-- Whether the published tiles have changed since the last notification. -/
  changed : Bool
  /-- Whether a flush waits in the mailbox. -/
  flushQueued : Bool
  /-- When the timer set last goes off. -/
  retryTimer : Option Instant

namespace Source

variable {P : Type}

/-- What can be asked of a source. -/
inductive Question where
  | isVisible (tile : Tile)
  | viewBounds
  | snapshot

inductive Answer where
  | isVisible (visible : Bool)
  | viewBounds (bounds : Option (Rect Float))
  | snapshot (state : Snapshot)

/-- What a source can be told. `loaded` comes from a load that ended, `retry` from a timer, `flush`
from the source itself, and all others from its owner. -/
inductive Message (P : Type) where
  | show (view : WantedView)
  | pause
  | resume
  | reload
  | setLowest (identifier : Option Int)
  | setHighest (identifier : Option Int)
  | ask (slot : Nat) (question : Question)
  | loaded (tile : Tile) (outcome : Outcome P)
  | retry
  | flush

/-- What a message makes a source do. -/
inductive Effect where
  | load (tile : Tile) (key : String)
  | cancel (tile : Tile) (key : String)
  /-- Sends `retry` to the source after a while. -/
  | wake (delay : Duration)
  /-- Puts `flush` behind the messages that wait. -/
  | queueFlush
  | notify
  | answer (slot : Nat) (value : Answer)

/-- A source after a message, and what the message made it do. -/
structure Turn (P : Type) where
  source : Source P
  effects : List Effect

namespace Turn

def idle (s : Source P) : Turn P :=
  ⟨s, []⟩

def andThen (t : Turn P) (next : Source P → Turn P) : Turn P :=
  let after := next t.source
  ⟨after.source, t.effects ++ after.effects⟩

end Turn

/-- A source that has not been told anything. -/
def start (setup : Setup) (loading : Loading P) : Source P where
  setup := setup
  lowest := none
  highest := none
  loading := loading
  published := []
  paused := false
  wanted := none
  viewBounds := none
  changed := false
  flushQueued := false
  retryTimer := none

/-- Builds a source for a layer, unless the settings break a rule. -/
def build (layer : Layer) (config : Config) (convert : Converter) (listening : Bool) :
    Except ConfigError (Source P) := do
  let config ← config.validate
  let setup : Setup := {
    layer := { layer with levels := Level.sort layer.levels }
    buckets := config.buckets
    convert := convert
    listening := listening }
  return start setup (Loading.ofConfig config)

/-- Starts waiting loads as long as slots are free. -/
def dispatch (s : Source P) : Turn P :=
  if s.paused then .idle s
  else
    let (started, loading) := s.loading.dispatchAll
    ⟨{ s with loading := loading },
      started.map fun r => .load r.tile (s.setup.layer.key r.tile)⟩

/-- Sets the timer for the next attempt, unless one goes off by then. -/
def scheduleRetry (now : Instant) (s : Source P) : Turn P :=
  if s.paused then .idle s
  else
    match s.loading.nextRetry? with
    | none => .idle s
    | some due =>
      if s.retryTimer.any fun armed => decide (armed ≤ due) then .idle s
      else ⟨{ s with retryTimer := some due }, [.wake (due - now)]⟩

/-- Notifies the listener if the published tiles have changed. -/
def notifyIfChanged (s : Source P) : Turn P :=
  if s.paused || !s.changed then .idle s
  else ⟨{ s with changed := false }, if s.setup.listening then [.notify] else []⟩

def publish (s : Source P) : Source P :=
  { s with published := s.loading.residents, changed := true }

/-- Owes a notification for published tiles, to be given when the messages that wait are done. -/
def queueFlush (s : Source P) : Turn P :=
  if s.paused || s.flushQueued then .idle s
  else ⟨{ s with flushQueued := true }, [.queueFlush]⟩

/-- The bounds of a view in the system of the layer. -/
def convertedBounds? (s : Source P) (view : WantedView) : Option (Rect Float) :=
  (Converter.rect s.setup.convert s.setup.layer.system view.bounds).toOption

def gridView (s : Source P) (bounds : Rect Float) (zoom : Float) : View Float where
  bounds := bounds
  zoom := zoom
  levels := s.setup.layer.levels
  rule := s.setup.layer.rule
  buckets := s.setup.buckets
  lowest := s.lowest
  highest := s.highest

/-- The tiles of a view; a view that cannot be converted has none. -/
def viewTiles (s : Source P) (view : WantedView) : List (GridTile Float) :=
  match s.convertedBounds? view with
  | none => []
  | some bounds => (s.gridView bounds view.zoom).tiles

/-- Makes the tiles of a view the visible ones. -/
def showView (now : Instant) (view : WantedView) (s : Source P) : Turn P :=
  let (loading, update) := s.loading.updateVisible (s.viewTiles view) now
  let moved := { s with viewBounds := s.convertedBounds? view, loading := loading }
  let next := if update.residentChanged then moved.publish else moved
  let shown : Turn P := ⟨next, update.cancelled.map fun t => .cancel t (s.setup.layer.key t)⟩
  shown.andThen dispatch |>.andThen (scheduleRetry now) |>.andThen notifyIfChanged

/-- Shows the wanted view again, unless there is none or the source is paused. -/
def refresh (now : Instant) (s : Source P) : Turn P :=
  if s.paused then .idle s
  else
    match s.wanted with
    | none => .idle s
    | some view => s.showView now view

/-- Takes the outcome of a load. -/
def takeOutcome (now : Instant) (tile : Tile) (outcome : Outcome P) (s : Source P) : Turn P :=
  let (loading, completion) := s.loading.complete tile outcome now
  let next := { s with loading := loading }
  let stored := if completion = .stored then next.publish.queueFlush else .idle next
  stored.andThen dispatch |>.andThen (scheduleRetry now)

/-- Stops starting loads and empties the queue. -/
def pause (s : Source P) : Source P :=
  if s.paused then s else { s with paused := true, loading := s.loading.clearQueue.1 }

/-- Goes on after a pause. -/
def resume (now : Instant) (s : Source P) : Turn P :=
  if s.paused then
    let active := { s with paused := false }
    if s.wanted.isSome then active.refresh now else active.notifyIfChanged
  else .idle s

/-- Forgets the tiles that have arrived and all failures, and loads the view again. -/
def reload (now : Instant) (s : Source P) : Turn P :=
  let (loading, dropped) := s.loading.reset
  let next := { s with loading := loading }
  (if dropped then next.publish else next).refresh now

/-- Tries the failed tiles again that may be tried. -/
def retry (now : Instant) (s : Source P) : Turn P :=
  let fired := { s with retryTimer := none }
  if s.paused then .idle fired
  else
    let queued := { fired with loading := (s.loading.enqueueDue now).1 }
    queued.dispatch.andThen (scheduleRetry now)

def answer (s : Source P) : Question → Answer
  | .isVisible tile => .isVisible (s.loading.isVisible tile)
  | .viewBounds => .viewBounds s.viewBounds
  | .snapshot => .snapshot s.loading.snapshot

/-- Whether a source asks for the time when it handles a message. -/
def asksTime (s : Source P) : Message P → Bool
  | .show _ | .retry => !s.paused
  | .resume => s.paused && s.wanted.isSome
  | .reload | .setLowest _ | .setHighest _ => !s.paused && s.wanted.isSome
  | .loaded _ _ => true
  | .pause | .ask _ _ | .flush => false

/-- The time that a source asks for when it handles a message. -/
def askedTime? (now : Instant) (s : Source P) (message : Message P) : Option Instant :=
  if s.asksTime message then some now else none

/-- The times that come up when a source handles a message, given the source after it. -/
def told (now : Instant) (s : Source P) (message : Message P) (after : Source P) : List Instant :=
  (s.askedTime? now message).toList ++ after.loading.retryTimes

/-- What a message does to a source at a time. -/
def handle (now : Instant) (s : Source P) : Message P → Turn P
  | .show view => { s with wanted := some view }.refresh now
  | .pause => .idle s.pause
  | .resume => s.resume now
  | .reload => s.reload now
  | .setLowest identifier => { s with lowest := identifier }.refresh now
  | .setHighest identifier => { s with highest := identifier }.refresh now
  | .ask slot question => ⟨s, [.answer slot (s.answer question)]⟩
  | .loaded tile outcome => s.takeOutcome now tile outcome
  | .retry => s.retry now
  | .flush => { s with flushQueued := false }.notifyIfChanged

/-- The name of the layer and the number of published tiles as a diagnostic text. -/
def diagnostic (s : Source P) : String :=
  Text.record "TileSource"
    [("layer", Text.quoted s.setup.layer.name), ("resident", Nat.repr s.published.length)] false

end Source

end MapTiles
