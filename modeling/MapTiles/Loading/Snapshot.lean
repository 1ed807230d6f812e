import MapTiles.Loading

/-!
A copy of the bookkeeping for inspection, and the rules that it has to meet: no more loads than
slots, no waiting tile that is loading, resident or missing, and no loading tile that is resident.
Membership is looked up by bisection, so the lists have to be sorted.
-/

namespace MapTiles

/-- A copy of the state of all tile loads. The lists are sorted. -/
structure Snapshot where
  maxLoads : Nat
  visible : Nat
  queued : List Request
  inFlight : List Tile
  cancelled : List Tile
  resident : List Tile
  failed : List Tile
  missing : List Tile
deriving DecidableEq

/-- A rule that a snapshot breaks. -/
inductive Violation where
  | overCap (loads cap : Nat)
  | queuedInFlight (tile : Tile)
  | queuedResident (tile : Tile)
  | queuedMissing (tile : Tile)
  | inFlightResident (tile : Tile)
deriving DecidableEq

def Violation.message : Violation → String
  | overCap loads cap => Nat.repr loads ++ " loads in flight, cap is " ++ Nat.repr cap
  | queuedInFlight tile => tile.path ++ " is queued and in flight"
  | queuedResident tile => tile.path ++ " is queued and resident"
  | queuedMissing tile => tile.path ++ " is queued and not found"
  | inFlightResident tile => tile.path ++ " is in flight and resident"

/-- Looks a tile up in a sorted list: as long as two tiles are left, the search goes on in the
upper part if the tile in the middle is not larger, and in the lower part otherwise. -/
def sortedContains (tiles : List Tile) (t : Tile) : Bool :=
  if _long : 1 < tiles.length then
    let half := tiles.length / 2
    let upper := tiles.drop half
    if upper.head?.any fun middle => compare middle t != .gt then sortedContains upper t
    else sortedContains (tiles.take (tiles.length - half)) t
  else tiles.head?.any fun only => compare only t == .eq
termination_by tiles.length
decreasing_by all_goals (simp; omega)

namespace Snapshot

def isQueued (s : Snapshot) (t : Tile) : Bool :=
  s.queued.any fun r => r.tile == t

def isInFlight (s : Snapshot) (t : Tile) : Bool :=
  sortedContains s.inFlight t

def isResident (s : Snapshot) (t : Tile) : Bool :=
  sortedContains s.resident t

/-- The rules that a waiting request breaks. -/
def requestViolations (s : Snapshot) (t : Tile) : List Violation :=
  (if s.isInFlight t then [.queuedInFlight t] else []) ++
    (if s.isResident t then [.queuedResident t] else []) ++
      if sortedContains s.missing t then [.queuedMissing t] else []

/-- Every broken rule. -/
def violations (s : Snapshot) : List Violation :=
  (if s.maxLoads < s.inFlight.length then [.overCap s.inFlight.length s.maxLoads] else []) ++
    s.queued.flatMap (fun r => s.requestViolations r.tile) ++
      (s.inFlight.filter s.isResident).map .inFlightResident

end Snapshot

def Loading.snapshot {P : Type} (s : Loading P) : Snapshot where
  maxLoads := s.maxLoads
  visible := s.visible.size
  queued := s.queue.toList
  inFlight := s.inFlight.keys
  cancelled := (s.inFlight.filter fun _ marked => marked).keys
  resident := s.resident.keys
  failed := s.errors.keys
  missing := s.missing.toList

end MapTiles
