/-!
Slots for answers that come later. A slot waits, holds an answer until it is taken, or is closed.
-/

namespace MapTiles

/-- Where the answer to a question arrives. -/
inductive Slot (R : Type) where
  | waiting
  | answered (value : R)
  | closed
deriving DecidableEq

namespace Slot

variable {R : Type}

/-- Puts an answer into a slot, unless nobody waits for it. -/
def fill (value : R) : Slot R → Slot R
  | waiting => answered value
  | other => other

/-- Tells a slot that no answer will come, or that none is wanted. -/
def close : Slot R → Slot R
  | waiting => closed
  | other => other

/-- The slot after its answer has been taken. -/
def take : Slot R → Slot R
  | waiting => waiting
  | _ => closed

end Slot

end MapTiles
