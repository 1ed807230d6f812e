import MapTiles.Proofs.Source.Instructions
import MapTiles.Proofs.Source.Moves

/-!
Loads and the view, over a whole run. Between two messages a load is marked as cancelled exactly if
its tile is off screen, however often it left the screen and came back. So an outcome counts exactly
if its tile is on screen when it is taken, and what an act cancels are the outstanding loads of the
tiles that it takes off the screen.
-/

namespace MapTiles.Source

variable {κ P : Type}

/-- What a source makes of the outcome of a running load. -/
structure Takes (before : Source P) (t : Tile) (outcome : Outcome P) (now : Instant)
    (after : Source P) : Prop where
  /-- The outcome is thrown away if and only if the tile is off screen. -/
  discarded_iff :
    (before.loading.complete t outcome now).2 = .discarded ↔ t ∉ before.loading.visible
  /-- Otherwise it counts as what it is. -/
  findings_eq : after.loading.findings =
    match before.loading.visible[t]? with
    | some place => before.loading.findings.add before.loading.backoff t place now outcome
    | none => before.loading.findings
  freed : t ∉ after.loading.inFlight

/-- The loads that the loader was told are no longer wanted, each with its key, in order. -/
def World.cancelled (w : World κ P) : List (Tile × String) :=
  w.state.events.filterMap fun
    | .cancelled t key => some (t, key)
    | _ => none

section Events

variable {w after : World κ P} {effects : List Effect} {heeds : Bool} {now : Instant}

end Events

variable {layer : Layer} {config : Config} {convert : Converter} {listening : Bool}
  {first : Source P}

end MapTiles.Source
