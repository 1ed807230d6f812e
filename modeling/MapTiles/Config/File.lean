import MapTiles.Config
import MapTiles.SectionReader
import MapTiles.Text.Blank

/-!
Settings read from a configuration text. They stand in a section of their own, every one of them
may be left out, and other sections are ignored.
-/

namespace MapTiles.Config

def sectionName : String :=
  "source"

/-- The largest value of a setting. -/
def largest : Setting → Nat
  | .buckets => Nat.pow 2 32 - 1
  | _ => Nat.pow 2 64 - 1

/-- The number given for a setting, if there is one. `value?` gives the text under a key. -/
def number? (value? : String → Option String) (setting : Setting) :
    Except ConfigError (Option Nat) :=
  match value? setting.key with
  | none => .ok none
  | some text =>
    match Decimal.readNat (largest setting) (Text.trim text.toList) with
    | .ok n => .ok (some n)
    | .error fault => .error (.invalid setting (.unreadable text fault))

/-- The standard settings with those of a section put in their place. -/
def ofSection (value? : String → Option String) : Except ConfigError Config := do
  let maxLoads ← number? value? .maxLoads
  let minBackoff ← number? value? .minBackoff
  let maxBackoff ← number? value? .maxBackoff
  let buckets ← number? value? .buckets
  return {
    maxLoads := maxLoads.getD standard.maxLoads
    minBackoff := (minBackoff.map Duration.ofMillis).getD standard.minBackoff
    maxBackoff := (maxBackoff.map Duration.ofMillis).getD standard.maxBackoff
    buckets := buckets.getD standard.buckets }

/-- Reads and checks the settings in a configuration text. -/
def ofText (reader : SectionReader) (text : String) : Except ConfigError Config :=
  match reader.read text with
  | .error reason => .error (.malformed reason)
  | .ok file =>
    match reader.entries? file sectionName with
    | none => standard.validate
    | some s => do (← ofSection (reader.value? s)).validate

/-- What came of reading a file: its bytes, or the reason why it could not be read. -/
inductive FileContent where
  | bytes (content : ByteArray)
  | unreadable (reason : String)

/-- The reason given for a file that is no text. -/
def notUtf8 : String :=
  "stream did not contain valid UTF-8"

/-- The settings in a configuration file. -/
def ofFile (reader : SectionReader) (path : String) (content : FileContent) :
    Except ConfigError Config :=
  match content with
  | .unreadable reason => .error (.unreadable path reason)
  | .bytes content =>
    match String.fromUTF8? content with
    | none => .error (.unreadable path notUtf8)
    | some text => ofText reader text

/-- Where the settings are looked for below the directory of the user's settings. -/
def defaultPath : String :=
  "tilestream/config.ini"

/-- The settings in the file that was named, or else in the file at the default place, or else the
standard ones. Each file is given by its path and what came of reading it. -/
def load (reader : SectionReader) (named atDefault : Option (String × FileContent)) :
    Except ConfigError Config :=
  match named.orElse fun _ => atDefault with
  | some (path, content) => ofFile reader path content
  | none => .ok standard

end MapTiles.Config
