import MapTiles.Config

/-!
The wait before a failed tile is tried again. It starts at the minimum and doubles with every
further failure up to the maximum.
-/

namespace MapTiles

structure BackoffBounds where
  min : Duration
  max : Duration
deriving DecidableEq

/-- The wait after a failure, given the wait after the failure before it. Bounds that are crossed
have none for a repeated failure. -/
def BackoffBounds.nextDelay? (b : BackoffBounds) (previous : Option Duration) : Option Duration :=
  match previous with
  | none => some b.min
  | some delay =>
    if b.min ≤ b.max then some (Nat.min (Nat.max (Duration.double delay) b.min) b.max) else none

/-- Bounds that are not crossed. -/
structure BackoffPolicy extends BackoffBounds where
  min_le_max : min ≤ max

/-- What is known about a tile whose last load failed. -/
structure ErrorRecord where
  lastFailure : Instant
  delay : Duration
  failures : Nat
deriving DecidableEq

namespace ErrorRecord

/-- The number at which failures are no longer counted. -/
def failureLimit : Nat :=
  Nat.pow 2 32 - 1

/-- When the tile may be tried again. This can be a time that the clock cannot tell. -/
def retryAt (r : ErrorRecord) : Instant :=
  r.lastFailure + r.delay

def isDue (r : ErrorRecord) (now : Instant) : Bool :=
  decide (r.retryAt ≤ now)

/-- The record after a failure at `now` with a wait of `delay`. -/
def after (previous : Option ErrorRecord) (delay : Duration) (now : Instant) : ErrorRecord where
  lastFailure := now
  delay := delay
  failures :=
    match previous with
    | none => 1
    | some r => Nat.min (r.failures + 1) failureLimit

end ErrorRecord

namespace BackoffPolicy

/-- The policy for two bounds; a maximum below the minimum is raised to it. -/
def between (min max : Duration) : BackoffPolicy where
  min := min
  max := Nat.max max min
  min_le_max := Nat.le_max_right max min

def ofConfig (c : Config) : BackoffPolicy :=
  between c.minBackoff c.maxBackoff

/-- The wait after a failure, given the wait after the failure before it. -/
def nextDelay (p : BackoffPolicy) (previous : Option Duration) : Duration :=
  match previous with
  | none => p.min
  | some delay => Nat.min (Nat.max (Duration.double delay) p.min) p.max

/-- A policy has a wait for every failure. -/
theorem nextDelay?_eq (p : BackoffPolicy) (previous : Option Duration) :
    p.toBackoffBounds.nextDelay? previous = some (p.nextDelay previous) := by
  cases previous with
  | none => rfl
  | some delay => simp [BackoffBounds.nextDelay?, nextDelay, p.min_le_max]

/-- The record after a failure at `now`. -/
def recordFailure (p : BackoffPolicy) (previous : Option ErrorRecord) (now : Instant) :
    ErrorRecord :=
  ErrorRecord.after previous (p.nextDelay (previous.map ErrorRecord.delay)) now

end BackoffPolicy

end MapTiles
