/-!
Readers of configuration texts with sections of keys and values. What a text holds is found by
the name of a section and then by a key.
-/

namespace MapTiles

/-- A reader of configuration texts. A text that cannot be read gives the reason. -/
structure SectionReader where
  /-- A text that has been read. -/
  File : Type
  /-- The keys of a section with their values. -/
  Entries : Type
  read : String → Except String File
  entries? : File → String → Option Entries
  value? : Entries → String → Option String

end MapTiles
