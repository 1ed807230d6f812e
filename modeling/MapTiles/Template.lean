import MapTiles.Tile

/-!
Key templates. A template is a text in which each of the three placeholders, for the level
identifier, the column and the row, occurs at least once; its key for a tile has every
placeholder replaced by the tile's number. The placeholders are replaced one kind after the
other, first the level, then the column, then the row.
-/

namespace MapTiles

/-- The parts of a tile that a key can name. -/
inductive Placeholder where
  | level
  | column
  | row
deriving DecidableEq, Repr

namespace Placeholder

/-- Every placeholder, in the order in which they are looked for and replaced. -/
def all : List Placeholder :=
  [level, column, row]

def letter : Placeholder → Char
  | level => 'z'
  | column => 'x'
  | row => 'y'

/-- The placeholder as it stands in a template. -/
def token (p : Placeholder) : List Char :=
  ['\x7b', p.letter, '\x7d']

def value (p : Placeholder) (t : Tile) : List Char :=
  match p with
  | level => (Int.repr t.level).toList
  | column => (Int.repr t.column).toList
  | row => (Int.repr t.row).toList

/-- Whether the placeholder stands somewhere in a text. -/
def occursIn (p : Placeholder) : List Char → Bool
  | [] => false
  | c :: rest => p.token.isPrefixOf (c :: rest) || p.occursIn rest

/-- The text with `value` in place of the placeholder, from left to right. -/
def substitute (p : Placeholder) (value : List Char) : List Char → List Char
  | a :: b :: c :: rest =>
    if [a, b, c] = p.token then value ++ p.substitute value rest
    else a :: p.substitute value (b :: c :: rest)
  | short => short

end Placeholder

/-- A text that holds every placeholder. -/
structure Template where
  text : List Char
  complete : ∀ p : Placeholder, p.occursIn text = true

namespace Template

/-- Reads a template, or names the first placeholder that is missing. -/
def parse (text : String) : Except Placeholder Template :=
  if hlevel : Placeholder.level.occursIn text.toList then
    if hcolumn : Placeholder.column.occursIn text.toList then
      if hrow : Placeholder.row.occursIn text.toList then
        .ok ⟨text.toList, fun p => by cases p <;> assumption⟩
      else .error .row
    else .error .column
  else .error .level

def source (t : Template) : String :=
  String.ofList t.text

def key (t : Template) (tile : Tile) : String :=
  String.ofList (Placeholder.all.foldl (fun text p => p.substitute (p.value tile) text) t.text)

end Template

end MapTiles
