import MapTiles.Config.File

/-!
Configuration files on disk.
-/

namespace MapTiles

/-- Why there is no file to read at a path. -/
inductive FileFault where
  | absent
  | notDirectory
  | isDirectory
  | nameTooLong
  | nullInPath
  | other (text : String)
deriving DecidableEq

namespace FileFault

/-- What a fault is called, with the number that the system gives it. -/
def message : FileFault → String
  | absent => "No such file or directory (os error 2)"
  | notDirectory => "Not a directory (os error 20)"
  | isDirectory => "Is a directory (os error 21)"
  | nameTooLong => "File name too long (os error 36)"
  | nullInPath => "file name contained an unexpected NUL byte"
  | other text => text

/-- The fault that the system reports. Its numbers come with either sign. -/
def ofReport (fault : IO.Error) : FileFault :=
  match fault with
  | .noFileOrDirectory .. => absent
  | .inappropriateType _ code _ =>
    if code = 20 ∨ code = 0 - 20 then notDirectory
    else if code = 21 ∨ code = 0 - 21 then isDirectory
    else other (toString fault)
  | .invalidArgument _ code _ =>
    if code = 36 ∨ code = 0 - 36 then nameTooLong else other (toString fault)
  | _ => other (toString fault)

end FileFault

namespace Config

/-- Reads the file at a path. -/
def FileContent.read (path : String) : IO FileContent := do
  if path.toList.contains '\x00' then return .unreadable FileFault.nullInPath.message
  try
    return .bytes (← IO.FS.readBinFile path)
  catch fault =>
    return .unreadable (FileFault.ofReport fault).message

end Config

end MapTiles
