import MapTiles.Decimal.Numeral
import MapTiles.Duration

/-!
The settings of a tile source and the rules that they have to meet.
-/

namespace MapTiles

inductive Setting where
  | maxLoads
  | minBackoff
  | maxBackoff
  | buckets
deriving DecidableEq, Repr

/-- The key of a setting in a configuration file. -/
def Setting.key : Setting → String
  | maxLoads => "max_concurrent_loads"
  | minBackoff => "min_backoff_ms"
  | maxBackoff => "max_backoff_ms"
  | buckets => "priority_buckets"

/-- What is wrong with the value of a setting. -/
inductive ValueFault where
  | belowOne
  | notPositive
  | belowMinimum (maximum minimum : Nat)
  | unreadable (text : String) (fault : Decimal.NumeralError)
deriving DecidableEq

def ValueFault.message : ValueFault → String
  | belowOne => "must be at least 1"
  | notPositive => "must be greater than 0"
  | belowMinimum maximum minimum =>
    "must not be below min_backoff_ms (" ++ Nat.repr maximum ++ " < " ++ Nat.repr minimum ++ ")"
  | unreadable text fault => "'" ++ text ++ "': " ++ fault.message

/-- Why there is no configuration. -/
inductive ConfigError where
  | unreadable (path reason : String)
  | malformed (reason : String)
  | invalid (setting : Setting) (fault : ValueFault)
deriving DecidableEq

def ConfigError.message : ConfigError → String
  | unreadable path reason => "Failed to read config file " ++ path ++ ": " ++ reason
  | malformed reason => "Failed to parse config: " ++ reason
  | invalid setting fault => "Invalid value for '" ++ setting.key ++ "': " ++ fault.message

/-- The settings of a tile source: how many loads run at once, the shortest and the longest wait
before a retry, and the number of distance buckets of a zoom level. -/
structure Config where
  maxLoads : Nat
  minBackoff : Duration
  maxBackoff : Duration
  buckets : Nat
deriving DecidableEq

namespace Config

/-- The settings that apply unless told otherwise. -/
def standard : Config where
  maxLoads := 8
  minBackoff := Duration.ofMillis 1000
  maxBackoff := Duration.ofMillis 32000
  buckets := 20

/-- The first rule that the settings break. -/
def fault? (c : Config) : Option ConfigError :=
  if c.maxLoads = 0 then some (.invalid .maxLoads .belowOne)
  else if c.buckets = 0 then some (.invalid .buckets .belowOne)
  else if c.minBackoff = 0 then some (.invalid .minBackoff .notPositive)
  else if c.maxBackoff < c.minBackoff then
    some (.invalid .maxBackoff
      (.belowMinimum (Duration.toMillis c.maxBackoff) (Duration.toMillis c.minBackoff)))
  else none

/-- The settings if they meet every rule. -/
def validate (c : Config) : Except ConfigError Config :=
  match c.fault? with
  | none => .ok c
  | some e => .error e

end Config

end MapTiles
