import MapTiles.Decimal.Literal

/-!
Options of a command. An option is given at most once, as `--name value` or `--name=value`. In
the first form a value that starts with a hyphen is refused unless the option allows it or the
value is the hyphen alone. A lone `--` may end the arguments, and there is nothing but options.
-/

namespace MapTiles.CommandLine

/-- An option that a command knows. -/
structure KnownOption where
  name : String
  /-- Whether a value that stands apart may start with a hyphen. -/
  hyphens : Bool

/-- The values of the options given, by name. -/
abbrev Options : Type :=
  List (String × String)

namespace Options

/-- Whether a value may stand apart from the name of its option. -/
def standsApart (option : KnownOption) (value : String) : Bool :=
  option.hyphens || value == "-" || value.toList.head? != some '-'

/-- The name in an option, and the value if it stands in the same argument. -/
def split? (argument : String) : Option (String × Option String) :=
  match argument.toList with
  | '-' :: '-' :: rest =>
    let name := String.ofList (rest.takeWhile (· != '='))
    match rest.dropWhile (· != '=') with
    | [] => some (name, none)
    | _ :: value => some (name, some (String.ofList value))
  | _ => none

/-- The options in a list of arguments, or nothing if there is a fault. -/
def collect? (known : List KnownOption) : List String → Option Options
  | [] => some []
  | ["--"] => some []
  | argument :: rest => do
    let (name, value) ← split? argument
    let option ← known.find? fun option => option.name = name
    match value, rest with
    | some value, rest => (collect? known rest).map fun others => (name, value) :: others
    | none, value :: rest =>
      if standsApart option value then
        (collect? known rest).map fun others => (name, value) :: others
      else none
    | none, [] => none

/-- The options in a list of arguments if none is given twice. -/
def read? (known : List KnownOption) (arguments : List String) : Option Options :=
  (collect? known arguments).bind fun options =>
    if (options.map Prod.fst).Nodup then some options else none

/-- The value of an option, or `absent` if it is not given. -/
def value? {α : Type} (options : Options) (name : String) (read : String → Option α)
    (absent : Option α) : Option α :=
  match options.lookup name with
  | some text => read text
  | none => absent

end Options

/-- A number of the given bounds. -/
def readBetween (lowest highest : Int) (text : String) : Option Int :=
  match Decimal.readInt 64 text.toList with
  | .ok n => if lowest ≤ n ∧ n ≤ highest then some n else none
  | .error _ => none

/-- A natural number of 32 bits. -/
def readCount (text : String) : Option Nat :=
  (readBetween 0 (Nat.pow 2 32 - 1) text).map Int.toNat

/-- A natural number of 64 bits, which has no sign but a plus. -/
def readLongCount (text : String) : Option Nat :=
  (Decimal.readNat (Nat.pow 2 64 - 1) text.toList).toOption

def readNumber (text : String) : Option Float :=
  (Decimal.readFloat text.toList).toOption

end MapTiles.CommandLine
