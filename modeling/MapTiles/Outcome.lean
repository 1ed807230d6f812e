import MapTiles.Text.Diagnostic

/-!
Outcomes of a tile load: the payload, the certainty that there is no tile, or a failure that
passes. Only the last kind is worth another attempt.
-/

namespace MapTiles

/-- Failures that pass. -/
inductive LoadError where
  | timeout
  | network (reason : String)
  | status (code : Nat)
  | other (reason : String)
deriving DecidableEq

namespace LoadError

def message : LoadError → String
  | timeout => "Request timed out"
  | network reason => "Network error: " ++ reason
  | status code => "HTTP status " ++ Nat.repr code
  | other reason => "Load failed: " ++ reason

def diagnostic : LoadError → String
  | timeout => "Timeout"
  | network reason => "Network(" ++ Text.quoted reason ++ ")"
  | status code => "Status(" ++ Nat.repr code ++ ")"
  | other reason => "Other(" ++ Text.quoted reason ++ ")"

end LoadError

/-- How a load of a tile ends. -/
inductive Outcome (P : Type) where
  | loaded (payload : P)
  | missing
  | failed (error : LoadError)

namespace Outcome

variable {P Q : Type}

/-- Reads the status of an HTTP answer: success carries the payload, a bad request or an unknown
resource means that there is no tile, and every other status may pass. -/
def ofStatus (status : Nat) (payload : P) : Outcome P :=
  if 200 ≤ status ∧ status ≤ 299 then loaded payload
  else if status = 400 ∨ status = 404 then missing
  else failed (.status status)

def isLoaded : Outcome P → Bool
  | loaded _ => true
  | _ => false

def isMissing : Outcome P → Bool
  | missing => true
  | _ => false

def isFailed : Outcome P → Bool
  | failed _ => true
  | _ => false

def map (f : P → Q) : Outcome P → Outcome Q
  | loaded payload => loaded (f payload)
  | missing => missing
  | failed error => failed error

def payload? : Outcome P → Option P
  | loaded payload => some payload
  | _ => none

def error? : Outcome P → Option LoadError
  | failed error => some error
  | _ => none

/-- The outcome as a diagnostic text, which does not show the payload. -/
def diagnostic : Outcome P → String
  | loaded _ => "Loaded(..)"
  | missing => "NotFound"
  | failed error => "Failed(" ++ error.diagnostic ++ ")"

end Outcome

end MapTiles
