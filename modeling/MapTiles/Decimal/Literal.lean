import MapTiles.Decimal.Numeral

/-!
Floating point literals: an optional sign, then digits with an optional point and an optional
exponent, or one of the words for infinity and not-a-number in any case. The value is the float
nearest to the decimal.
-/

namespace MapTiles.Decimal

/-- Why a text is no float literal. -/
inductive LiteralError where
  | empty
  | invalid
deriving DecidableEq, Repr

def LiteralError.message : LiteralError → String
  | .empty => "cannot parse float from empty string"
  | .invalid => "invalid float literal"

/-- What a literal without its sign denotes. -/
inductive Magnitude where
  | notANumber
  | infinite
  | decimal (digits : Nat) (exponent : Int)
deriving DecidableEq, Repr

/-- The number written by a list of digits. -/
def digitsValue (digits : List Char) : Nat :=
  digits.foldl (fun n c => 10 * n + (c.toNat - '0'.toNat)) 0

/-- Whether a text starts with a minus, and the text without its sign. -/
def splitSign : List Char → Bool × List Char
  | '-' :: rest => (true, rest)
  | '+' :: rest => (false, rest)
  | rest => (false, rest)

/-- The digits behind the point that a text may start with, and the rest of the text. -/
def splitFraction : List Char → List Char × List Char
  | '.' :: rest => (rest.takeWhile Char.isDigit, rest.dropWhile Char.isDigit)
  | rest => ([], rest)

/-- The exponent part of a literal: nothing, or a mark, an optional sign and digits. -/
def exponent? : List Char → Option Int
  | [] => some 0
  | mark :: rest =>
    if mark = 'e' ∨ mark = 'E' then
      let (negative, digits) := splitSign rest
      if digits.isEmpty || !digits.all Char.isDigit then none
      else some (if negative then -(digitsValue digits : Int) else digitsValue digits)
    else none

/-- Digits around an optional point, at least one of them, then the exponent. -/
def decimal? (text : List Char) : Option Magnitude :=
  let whole := text.takeWhile Char.isDigit
  let (fraction, tail) := splitFraction (text.dropWhile Char.isDigit)
  if whole.isEmpty && fraction.isEmpty then none
  else
    (exponent? tail).map fun e =>
      .decimal (digitsValue (whole ++ fraction)) (e - fraction.length)

def magnitude? (text : List Char) : Option Magnitude :=
  let word := text.map Char.toLower
  if word = "nan".toList then some .notANumber
  else if word = "inf".toList ∨ word = "infinity".toList then some .infinite
  else decimal? text

/-- The float nearest to `digits * 10 ^ exponent`. Powers far outside the range of floats are
settled without computing them. -/
def nearestDecimal (digits : Nat) (exponent : Int) : Float :=
  if digits = 0 then 0.0
  else if exponent > 400 then 1.0 / 0.0
  else if exponent + (Nat.log2 digits : Int) < -1200 then 0.0
  else
    match exponent with
    | .ofNat e => Float.ofScientific digits false e
    | .negSucc e => Float.ofScientific digits true (e + 1)

def Magnitude.toFloat : Magnitude → Float
  | .notANumber => 0.0 / 0.0
  | .infinite => 1.0 / 0.0
  | .decimal digits exponent => nearestDecimal digits exponent

def readFloat (text : List Char) : Except LiteralError Float :=
  let (negative, rest) := splitSign text
  if text.isEmpty then .error .empty
  else
    match magnitude? rest with
    | none => .error .invalid
    | some m => .ok (if negative then -m.toFloat else m.toFloat)

end MapTiles.Decimal
