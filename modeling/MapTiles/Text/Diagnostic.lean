import MapTiles.Text.Visible

/-!
Diagnostic texts of values: quoted strings and characters with escapes, and records with named
fields, some of which may be left out.
-/

namespace MapTiles.Text

def hexadecimal (n : Nat) : String :=
  String.ofList (Nat.toDigits 16 n)

/-- A character as it stands between the quotes `quote`. -/
def escaped (quote c : Char) : String :=
  if c = '\x00' then "\\0"
  else if c = '\t' then "\\t"
  else if c = '\r' then "\\r"
  else if c = '\n' then "\\n"
  else if c = '\x5c' ∨ c = quote then "\\" ++ String.singleton c
  else if isVisible c then String.singleton c
  else "\\u\x7b" ++ hexadecimal c.toNat ++ "\x7d"

def quoted (text : String) : String :=
  "\"" ++ String.join (text.toList.map (escaped '\x22')) ++ "\""

def quotedChar (c : Char) : String :=
  "'" ++ escaped '\x27' c ++ "'"

def optional (value : Option String) : String :=
  match value with
  | none => "None"
  | some text => "Some(" ++ text ++ ")"

/-- A record with the fields given by name, all of them if `whole`. -/
def record (name : String) (fields : List (String × String)) (whole : Bool) : String :=
  let shown := fields.map fun field => field.1 ++ ": " ++ field.2
  let parts := if whole then shown else shown ++ [".."]
  name ++ " \x7b " ++ ", ".intercalate parts ++ " \x7d"

end MapTiles.Text
