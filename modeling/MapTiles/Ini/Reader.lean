import MapTiles.Ini
import MapTiles.SectionReader

/-!
The reader of configuration texts that the program uses. Of several sections of one name the
first is found.
-/

namespace MapTiles.Ini

def reader : SectionReader where
  File := List Section
  Entries := Section
  read text :=
    match parse text.toList with
    | .ok sections => .ok sections
    | .error e => .error e.message
  entries? sections name := sections.find? fun s => s.name = some name.toList
  value? s key := (s.value? key).map String.ofList

end MapTiles.Ini
