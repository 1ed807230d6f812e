/-!
Texts of a fixed width. A text that is already as wide stays as it is.
-/

namespace MapTiles.Text

/-- A text with blanks in front of it up to a width. -/
def alignRight (width : Nat) (text : String) : String :=
  String.ofList (List.replicate (width - text.length) ' ') ++ text

/-- A text with blanks behind it up to a width. -/
def alignLeft (width : Nat) (text : String) : String :=
  text ++ String.ofList (List.replicate (width - text.length) ' ')

end MapTiles.Text
