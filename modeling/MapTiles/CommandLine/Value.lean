import MapTiles.Decimal.Literal
import MapTiles.Geometry
import MapTiles.Text.Blank

/-!
Values on the command line: bounds as four numbers between commas, a range of levels as two
numbers around two points, and a coordinate system by its EPSG code.
-/

namespace MapTiles.CommandLine

structure Bounds where
  minX : Float
  minY : Float
  maxX : Float
  maxY : Float

/-- The bounds as a rectangle with the north-west corner first. -/
def Bounds.toRect (b : Bounds) (system : Int) : Rect Float :=
  Rect.ofCorners system b.minX b.maxY b.maxX b.minY

/-- Why a text is no value of its kind. -/
inductive ValueError where
  | coordinate (text : List Char) (fault : Decimal.LiteralError)
  | coordinateCount (count : Nat)
  | crossedBounds
  | noRange (text : List Char)
  | level (text : List Char) (fault : Decimal.NumeralError)
  | system (text : List Char)
deriving DecidableEq

/-- A text in single quotes as it is. -/
def quote (text : List Char) : String :=
  "'" ++ String.ofList text ++ "'"

def ValueError.message : ValueError → String
  | .coordinate text fault => quote text ++ ": " ++ fault.message
  | .coordinateCount count => "expected 4 comma-separated values, got " ++ Nat.repr count
  | .crossedBounds => "min values must be below max values"
  | .noRange text => "expected <min>..<max>, got " ++ quote text
  | .level text fault => quote text ++ ": " ++ fault.message
  | .system text => "unsupported coordinate system " ++ quote text

/-- The parts of a text between the commas. There is one more of them than there are commas. -/
def fields : List Char → List (List Char)
  | [] => [[]]
  | c :: rest =>
    if c = ',' then [] :: fields rest
    else
      match fields rest with
      | [] => [[c]]
      | field :: others => (c :: field) :: others

/-- A number, with blanks around it. -/
def readCoordinate (text : List Char) : Except ValueError Float :=
  match Decimal.readFloat (Text.trim text) with
  | .ok x => .ok x
  | .error fault => .error (.coordinate (Text.trim text) fault)

/-- Reads `minx,miny,maxx,maxy`. Bounds are refused if a minimum is known not to lie below its
maximum. -/
def Bounds.read (text : List Char) : Except ValueError Bounds := do
  let values ← (fields text).mapM readCoordinate
  match values with
  | [minX, minY, maxX, maxY] =>
    if minX ≥ maxX || minY ≥ maxY then .error .crossedBounds
    else .ok ⟨minX, minY, maxX, maxY⟩
  | _ => .error (.coordinateCount values.length)

/-- The parts of a text before and after the first two points in a row. -/
def splitAtPoints : List Char → Option (List Char × List Char)
  | '.' :: '.' :: rest => some ([], rest)
  | c :: rest => (splitAtPoints rest).map fun parts => (c :: parts.1, parts.2)
  | [] => none

/-- An integer of 32 bits. A fault is reported with `whole`. -/
def readLevel (whole text : List Char) : Except ValueError Int :=
  match Decimal.readInt 32 text with
  | .ok n => .ok n
  | .error fault => .error (.level whole fault)

/-- Reads `min..max` with blanks around the numbers. The second number may have equals signs in
front of it. -/
def readLevels (text : List Char) : Except ValueError (Int × Int) :=
  match splitAtPoints text with
  | none => .error (.noRange text)
  | some (low, high) => do
    let lowest ← readLevel low (Text.trim low)
    let highest ← readLevel high ((Text.trim high).dropWhile (· == '='))
    return (lowest, highest)

/-- A text without the marks `EPSG:` in front of it. -/
def dropMarks : List Char → List Char
  | 'E' :: 'P' :: 'S' :: 'G' :: ':' :: rest => dropMarks rest
  | code => code

/-- Reads the code of a known coordinate system in any case, with or without its mark. -/
def readSystem (text : List Char) : Except ValueError Int :=
  let code := dropMarks ((Text.trim text).map Char.toUpper)
  if code = "4326".toList then .ok degreesSystem
  else if code = "3857".toList then .ok mercatorSystem
  else .error (.system code)

end MapTiles.CommandLine
