import MapTiles.Decimal.Numeral
import MapTiles.Text.Blank
import MapTiles.Text.Diagnostic

/-!
Configuration texts with sections of keys and values.

A line that starts with a semicolon or a hash is a comment. A name in brackets opens a section,
and a section of the same name later on is another section. A key ends at an equals sign or a
colon and may span lines. A value ends with its line; parts of it may be quoted, and a quoted part
may span lines. Backslash escapes are read everywhere. Blanks around names, keys and values are
dropped.

The text is read one character at a time, and a fault is reported with the line and the column
after the current character.
-/

namespace MapTiles.Ini

/-- Characters at which a piece of text ends; nothing stands for the end of the input. -/
abbrev Stops : Type :=
  List (Option Char)

/-- What is wrong with a text. -/
inductive Fault where
  | inlineComment
  | missingKey
  | unfinished (stops : Stops)
  | expectedNewline (found : Option Char)
  | unknownCode
deriving DecidableEq

/-- An optional character as a diagnostic text. -/
def showChar? (c : Option Char) : String :=
  Text.optional (c.map Text.quotedChar)

def Fault.message : Fault → String
  | inlineComment => "doesn't support inline comment"
  | missingKey => "missing key"
  | unfinished stops =>
    "expecting \"[" ++ ", ".intercalate (stops.map showChar?) ++ "]\" but found EOF."
  | expectedNewline found => "expecting \"\\\\n\" but found \"" ++ showChar? found ++ "\"."
  | unknownCode => "unknown character in \\xHH form"

/-- A place in a text: what is left from the current character on, the number of newlines up to
it, and its column on the line. -/
structure Cursor where
  rest : List Char
  line : Nat
  column : Nat

namespace Cursor

/-- Counts the first character of `rest` as read. -/
def arrive (rest : List Char) (line column : Nat) : Cursor :=
  match rest with
  | [] => ⟨[], line, column⟩
  | c :: _ => if c = '\n' then ⟨rest, line + 1, 0⟩ else ⟨rest, line, column + 1⟩

def start (text : List Char) : Cursor :=
  arrive text 0 0

def current? (c : Cursor) : Option Char :=
  c.rest.head?

def next (c : Cursor) : Cursor :=
  arrive c.rest.tail c.line c.column

/-- The place after the longest run of characters that satisfy `p`. -/
def skipWhile (p : Char → Bool) (c : Cursor) : Cursor :=
  go c.rest c
where
  go : List Char → Cursor → Cursor
    | [], c => c
    | x :: rest, c => if p x then go rest c.next else c

/-- The place after the blanks from here on. A space or a tab that starts a line is not skipped,
because a key may be indented. -/
def skipBlanks (c : Cursor) : Cursor :=
  go c.rest c
where
  go : List Char → Cursor → Cursor
    | [], c => c
    | x :: rest, c =>
      if !Text.isBlank x then c
      else if (x = '\n' ∨ x = '\r') ∧ (rest.head? = some ' ' ∨ rest.head? = some '\t') then c.next
      else go rest c.next

/-- The place after the next newline. -/
def skipLine (c : Cursor) : Cursor :=
  (c.skipWhile (· != '\n')).next

end Cursor

/-- A fault and the place where it was noticed. -/
structure ParseError where
  cursor : Cursor
  fault : Fault

/-- The place and the wording of an error. -/
def ParseError.message (e : ParseError) : String :=
  Nat.repr (e.cursor.line + 1) ++ ":" ++ Nat.repr (e.cursor.column + 1) ++ " " ++ e.fault.message

/-- The character of a hexadecimal code of four characters, if there is one. -/
def decodeCode? (code : List Char) : Option Char :=
  let digits :=
    match code with
    | '+' :: digits => digits
    | digits => digits
  if digits.all fun c => c.isDigit || ('a' ≤ c.toLower && c.toLower ≤ 'f') then
    let value := digits.foldl (fun n c => 16 * n + hexValue c) 0
    if h : value.isValidChar then some (Char.ofNatAux value h) else none
  else none
where
  hexValue (c : Char) : Nat :=
    if c.isDigit then c.toNat - '0'.toNat else c.toLower.toNat - 'a'.toNat + 10

/-- Reads the `n` characters of a code after the current one. A backslash among them has to be
followed by a newline and belongs to the code. -/
def readCode (stops : Stops) : Nat → Cursor → Except ParseError (List Char × Cursor)
  | 0, c => .ok ([], c)
  | n + 1, c =>
    let c := c.next
    match c.current? with
    | none => .error ⟨c, .unfinished stops⟩
    | some x =>
      let after := if x = '\x5c' then c.next else c
      if x = '\x5c' ∧ after.current? ≠ some '\n' then
        .error ⟨after, .expectedNewline after.current?⟩
      else do
        let (code, last) ← readCode stops n after
        return (x :: code, last)

/-- Reads an escape from the character after its backslash: what it stands for and the place after
it. A backslash at the end of the input stands for itself. -/
def readEscape (stops : Stops) (c : Cursor) : Except ParseError (List Char × Cursor) :=
  match c.current? with
  | none => .ok (['\x5c'], c)
  | some '0' => .ok (['\x00'], c.next)
  | some 'a' => .ok (['\x07'], c.next)
  | some 'b' => .ok (['\x08'], c.next)
  | some 't' => .ok (['\t'], c.next)
  | some 'r' => .ok (['\r'], c.next)
  | some 'n' => .ok (['\n'], c.next)
  | some '\n' => .ok ([], c.next)
  | some 'x' => do
    let (code, last) ← readCode stops 4 c
    match decodeCode? code with
    | some x => return ([x], last.next)
    | none => throw ⟨last, .unknownCode⟩
  | some x => .ok ([x], c.next)

/-- The text from here up to one of the stops, with its escapes read. -/
def readUntil (stops : Stops) (c : Cursor) : Except ParseError (List Char × Cursor) :=
  go (c.rest.length + 1) c
where
  -- every round reads a character or ends
  go : Nat → Cursor → Except ParseError (List Char × Cursor)
    | 0, c => .ok ([], c)
    | rounds + 1, c =>
      if stops.contains c.current? then .ok ([], c)
      else
        match c.current? with
        | none => .error ⟨c, .unfinished stops⟩
        | some '\x5c' => do
          let (piece, after) ← readEscape stops c.next
          let (text, last) ← go rounds after
          return (piece ++ text, last)
        | some x => do
          let (text, last) ← go rounds c.next
          return (x :: text, last)

def sectionStops : Stops :=
  [some ']']

def keyStops : Stops :=
  [some '=', some ':']

def valueStops : Stops :=
  [some '\n', some '\r', none]

/-- Reads a section name from its opening bracket. -/
def readSection (c : Cursor) : Except ParseError (List Char × Cursor) := do
  let (name, last) ← readUntil sectionStops c.next
  return (Text.trim name, last.next)

def readKey (c : Cursor) : Except ParseError (List Char × Cursor) := do
  let (key, last) ← readUntil keyStops c
  return (Text.trim key, last)

/-- Reads a value from the delimiter before it: quoted parts, then the rest of the line. Blanks
before the rest of the line are kept if a quoted part stands before them. -/
def readValue (c : Cursor) : Except ParseError (List Char × Cursor) :=
  let first := c.next.skipWhile fun x => Text.isBlank x && x != '\n' && x != '\r'
  go (first.rest.length + 1) true first
where
  go : Nat → Bool → Cursor → Except ParseError (List Char × Cursor)
    | 0, _, c => .ok ([], c)
    | rounds + 1, isFirst, c =>
      let quote := c.current?
      if quote = some '\x22' ∨ quote = some '\x27' then do
        let (part, last) ← readUntil [quote] c.next
        let (text, last) ← go rounds false last.next
        return (part ++ text, last)
      else do
        let (part, last) ← readUntil valueStops c
        return (if isFirst then Text.trim part else Text.trimEnd part, last)

/-- A section; the entries before the first header belong to one without a name. -/
structure Section where
  name : Option (List Char)
  entries : List (List Char × List Char)
deriving DecidableEq

/-- The first value of a key. -/
def Section.value? (s : Section) (key : String) : Option (List Char) :=
  (s.entries.find? fun entry => entry.1 = key.toList).map Prod.snd

/-- What has been read of a text: the section that is open, those closed before it, and a key that
waits for its delimiter. -/
structure Progress where
  closed : List Section
  opened : Section
  key : List Char

namespace Progress

def start : Progress :=
  ⟨[], ⟨none, []⟩, []⟩

/-- Closes the open section and opens another. -/
def openSection (p : Progress) (name : List Char) : Progress :=
  { p with closed := p.closed ++ [p.opened], opened := ⟨some name, []⟩ }

/-- Stores a value under the waiting key. -/
def store (p : Progress) (value : List Char) : Progress :=
  { p with opened := { p.opened with entries := p.opened.entries ++ [(p.key, value)] }, key := [] }

def sections (p : Progress) : List Section :=
  p.closed ++ [p.opened]

end Progress

/-- Reads the item at the current character `x`. The flag tells whether the blanks after it are
still to be skipped. -/
def readItem (p : Progress) (c : Cursor) (x : Char) :
    Except ParseError (Progress × Cursor × Bool) :=
  if x = ';' ∨ x = '#' then
    if c.column > 1 then .error ⟨c, .inlineComment⟩ else .ok (p, c.skipLine, true)
  else if x = '[' then do
    let (name, last) ← readSection c
    return (p.openSection name, last, true)
  else if x = '=' ∨ x = ':' then
    if p.key.isEmpty then .error ⟨c, .missingKey⟩
    else do
      let (value, last) ← readValue c
      return (p.store value, last, true)
  else if x = ' ' ∨ x = '\t' then
    let c := c.skipWhile fun x => x = ' ' || x = '\t'
    if c.current? = some '[' then do
      let (name, last) ← readSection c
      return (p.openSection name, last, true)
    else if c.current? = some '\n' ∨ c.current? = some '\r' then .ok (p, c.next, false)
    else
      -- an indented key that does not end is dropped without an error
      match readKey c with
      | .ok (key, last) => .ok ({ p with key := key }, last, true)
      | .error e => .ok (p, e.cursor, true)
  else if x = '\n' ∨ x = '\r' then .ok (p, c.next, true)
  else do
    let (key, last) ← readKey c
    return ({ p with key := key }, last, true)

/-- Reads a text into its sections. -/
def parse (text : List Char) : Except ParseError (List Section) :=
  go (text.length + 1) Progress.start (Cursor.start text)
where
  -- every item reads at least one character
  go : Nat → Progress → Cursor → Except ParseError (List Section)
    | 0, p, _ => .ok p.sections
    | rounds + 1, p, c =>
      match c.current? with
      | none => .ok p.sections
      | some x => do
        let (p, c, blanks) ← readItem p c x
        go rounds p (if blanks then c.skipBlanks else c)

end MapTiles.Ini
