import MapTiles.Duration

/-!
What a scheduler relies on of the runtime that its jobs run on: a token that tells them to end,
sleeps, and the choice between two branches. The runtime is not part of the scheduler, so it is a
parameter of it.
-/

namespace MapTiles

/-- A branch of a choice. -/
inductive Branch where
  | first
  | second
deriving DecidableEq

/-- What a runtime offers. -/
structure Runtime where
  /-- What jobs look at to see whether they are to end. -/
  Token : Type
  token : Token
  cancel : Token → Token
  isCancelled : Token → Bool
  /-- A sleep that has begun. -/
  Sleep : Type
  sleep : Duration → Instant → Sleep
  isOver : Sleep → Instant → Bool
  /-- Asks the branches of a choice whether they are ready, which may change what they work on, and
  gives the one that is taken, if any. -/
  select : {σ : Type} → (σ → Bool × σ) → (σ → Bool × σ) → σ → Option Branch × σ

namespace Runtime

/-- A runtime whose token is a flag, whose sleeps last as long as a timer that is set for them, and
whose choices ask the second branch only if the first one is not ready. -/
def timed (timer : Duration → Duration) : Runtime where
  Token := Bool
  token := false
  cancel _ := true
  isCancelled flag := flag
  Sleep := Instant
  sleep length since := since + timer length
  isOver due now := decide (due ≤ now)
  select first second x :=
    match first x with
    | (true, x) => (some .first, x)
    | (false, x) =>
      match second x with
      | (true, x) => (some .second, x)
      | (false, x) => (none, x)

end Runtime

end MapTiles
