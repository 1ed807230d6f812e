/-!
Reading whole numbers in decimal notation. Digits are taken from the left, and the first fault
met decides the error: a character that is no digit, or a value past the limits of its type.
-/

namespace MapTiles.Decimal

/-- Why a text is no whole number of its type. -/
inductive NumeralError where
  | empty
  | invalidDigit
  | tooLarge
  | tooSmall
deriving DecidableEq, Repr

def NumeralError.message : NumeralError → String
  | .empty => "cannot parse integer from empty string"
  | .invalidDigit => "invalid digit found in string"
  | .tooLarge => "number too large to fit in target type"
  | .tooSmall => "number too small to fit in target type"

def digit? (c : Char) : Option Nat :=
  if c.isDigit then some (c.toNat - '0'.toNat) else none

/-- Continues the number `value` by the digits of a text, up to `limit`. -/
def readDigits (limit : Nat) (overflow : NumeralError) : Nat → List Char → Except NumeralError Nat
  | value, [] => .ok value
  | value, c :: rest =>
    match digit? c with
    | none => .error .invalidDigit
    | some d =>
      let next := 10 * value + d
      if next ≤ limit then readDigits limit overflow next rest else .error overflow

/-- A natural number up to `limit`, with an optional plus sign. -/
def readNat (limit : Nat) : List Char → Except NumeralError Nat
  | [] => .error .empty
  | ['+'] => .error .invalidDigit
  | '+' :: digits => readDigits limit .tooLarge 0 digits
  | digits => readDigits limit .tooLarge 0 digits

/-- An integer of `bits` bits with an optional sign. -/
def readInt (bits : Nat) : List Char → Except NumeralError Int
  | [] => .error .empty
  | ['+'] => .error .invalidDigit
  | ['-'] => .error .invalidDigit
  | '+' :: digits => (readDigits (Nat.pow 2 (bits - 1) - 1) .tooLarge 0 digits).map Int.ofNat
  | '-' :: digits => (readDigits (Nat.pow 2 (bits - 1)) .tooSmall 0 digits).map fun n => -(n : Int)
  | digits => (readDigits (Nat.pow 2 (bits - 1) - 1) .tooLarge 0 digits).map Int.ofNat

end MapTiles.Decimal
