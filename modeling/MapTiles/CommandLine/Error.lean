import MapTiles.Config
import MapTiles.Layer

/-!
Why a command fails.
-/

namespace MapTiles

/-- Why a command fails. The last three kinds carry their reason as a text. -/
inductive CommandError where
  | config (cause : ConfigError)
  | layer (cause : LayerError)
  | argument (reason : String)
  | logging (reason : String)
  | runtime (reason : String)
deriving DecidableEq

namespace CommandError

def message : CommandError → String
  | config cause => "Configuration error: " ++ cause.message
  | layer cause => "Layer error: " ++ cause.message
  | argument reason => "Invalid argument: " ++ reason
  | logging reason => "Failed to initialize logging: " ++ reason
  | runtime reason => "Failed to create Tokio runtime: " ++ reason

/-- The wording of the error behind this one, if there is one. -/
def cause? : CommandError → Option String
  | config cause => some cause.message
  | layer cause => some cause.message
  | _ => none

/-- A fault of the settings as the error of a command. -/
def ofConfig {α : Type} (result : Except ConfigError α) : Except CommandError α :=
  result.mapError .config

/-- A fault of a layer as the error of a command. -/
def ofLayer {α : Type} (result : Except LayerError α) : Except CommandError α :=
  result.mapError .layer

end CommandError

end MapTiles
