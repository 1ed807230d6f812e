/-!
Printed text and its lines. A line ends at a newline, and a carriage return right before the
newline belongs to the end of the line. A text that is printed on a line of its own may itself
hold newlines, and then takes up several lines.
-/

namespace MapTiles.Text

/-- What is printed when each of some texts is put on a line of its own. -/
def printed (texts : List String) : String :=
  String.join (texts.map fun text => text ++ "\n")

/-- The lines of a text without their ends. The last line needs no end. -/
def splitLines : List Char → List (List Char)
  | [] => []
  | '\n' :: rest => [] :: splitLines rest
  | '\r' :: '\n' :: rest => [] :: splitLines rest
  | c :: rest =>
    match splitLines rest with
    | [] => [[c]]
    | line :: others => (c :: line) :: others

/-- The lines of a text without their ends. -/
def lines (text : String) : List String :=
  (splitLines text.toList).map String.ofList

end MapTiles.Text
