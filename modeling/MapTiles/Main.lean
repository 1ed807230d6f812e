import MapTiles.CommandLine.GridReport
import MapTiles.CommandLine.Simulation
import MapTiles.Config.Disk
import MapTiles.Ini.Reader
import MapTiles.Text.Lines

/-!
The program: it reads the arguments and the files, runs a command and prints what it says.
-/

namespace MapTiles

/-- What is printed when the arguments are not understood. -/
def usageText : String :=
  "usage: grid --bounds <minx,miny,maxx,maxy> --zoom <zoom> [options]\n" ++
    "       simulate [options]"

/-- The file with the user's settings, if there is one. -/
def defaultFile : IO (Option (String × Config.FileContent)) := do
  let directory ←
    match ← IO.getEnv "XDG_CONFIG_HOME" with
    | some directory => pure (some directory)
    | none => pure ((← IO.getEnv "HOME").map fun home => home ++ "/.config")
  match directory with
  | none => return none
  | some directory =>
    let path := directory ++ "/" ++ Config.defaultPath
    match ← Config.FileContent.read path with
    | .unreadable reason =>
      return if reason = FileFault.absent.message then none else some (path, .unreadable reason)
    | content => return some (path, content)

/-- The settings in a file that was named, or in the default place. -/
def readConfig (named : Option String) : IO (Except ConfigError Config) := do
  match named with
  | some path => return Config.load Ini.reader (some (path, ← Config.FileContent.read path)) none
  | none => return Config.load Ini.reader none (← defaultFile)

/-- Prints what a command says and gives the exit code. -/
def finish : Except CommandError (List String) → IO UInt32
  | .ok lines => do
    IO.print (Text.printed lines)
    return 0
  | .error fault => do
    IO.eprintln ("Error: " ++ fault.message)
    return 1

def refuse : IO UInt32 := do
  IO.eprintln usageText
  return 2

end MapTiles

open MapTiles in
/-- Runs the command that the first argument names. -/
def main (arguments : List String) : IO UInt32 := do
  match arguments with
  | "grid" :: rest =>
    match CommandLine.GridQuery.read? rest with
    | some query => finish query.report
    | none => refuse
  | "simulate" :: rest =>
    match CommandLine.Simulation.read? rest with
    | some simulation =>
      let config ← readConfig simulation.config
      let seed ← IO.rand 0 (Nat.pow 2 31 - 2)
      finish (simulation.report id config (mkStdGen seed))
    | none => refuse
  | _ => refuse
