import MapTiles.Decimal.Fixed

/-!
The fewest decimal digits that read back as the same float. Among the decimals of one length that
lie in the interval of reals rounding to the float, the one nearest to it is taken, the larger
one if two are equally near.
-/

namespace MapTiles.Decimal

/-- `digits * 10 ^ exponent`. -/
structure Scientific where
  digits : Nat
  exponent : Int
deriving DecidableEq, Inhabited

/-- Whether `10 ^ e ≤ num / den`. -/
def tenPowerLe (e : Int) (num den : Nat) : Bool :=
  match e with
  | .ofNat n => decide (Nat.pow 10 n * den ≤ num)
  | .negSucc n => decide (den ≤ num * Nat.pow 10 (n + 1))

/-- The exponent of the leading decimal digit of `num / den`, both positive. The quotient of the
binary logarithms is off by at most one. -/
def leadingExponent (num den : Nat) : Int :=
  let guess := (((num.log2 : Int) - den.log2) * 30103).fdiv 100000
  if tenPowerLe (guess + 1) num den then guess + 1
  else if tenPowerLe guess num den then guess
  else guess - 1

/-- The reals that round to a float, in a common unit: the float itself, the two ends, and whether
the ends belong to it. -/
structure RoundingInterval where
  value : Nat
  low : Nat
  high : Nat
  closed : Bool
  unit : Nat

/-- The interval around a positive number. Below a power of two the floats lie twice as dense. -/
def RoundingInterval.around (d : Dyadic64) : RoundingInterval :=
  let lower := if d.significand == Nat.pow 2 52 && d.exponent > -1074 then 1 else 2
  let scale := Nat.pow 2 (d.exponent - 2).toNat
  { value := 4 * d.significand * scale
    low := (4 * d.significand - lower) * scale
    high := (4 * d.significand + 2) * scale
    closed := d.significand % 2 == 0
    unit := Nat.pow 2 (2 - d.exponent).toNat }

/-- Whether `num / den` rounds to the float. -/
def RoundingInterval.covers (i : RoundingInterval) (num den : Nat) : Bool :=
  let p := num * i.unit
  if i.closed then decide (i.low * den ≤ p) && decide (p ≤ i.high * den)
  else decide (i.low * den < p) && decide (p < i.high * den)

/-- The best decimal with a last digit worth `10 ^ exponent`, if one of the two neighbours of the
float on that grid rounds to it. -/
def RoundingInterval.onGrid? (i : RoundingInterval) (exponent : Int) : Option Scientific :=
  let up := Nat.pow 10 exponent.toNat
  let down := Nat.pow 10 (-exponent).toNat
  let below := i.value * down / (i.unit * up)
  let lowFits := i.covers (below * up) down
  let highFits := i.covers ((below + 1) * up) down
  if lowFits && highFits then
    let past := 2 * (i.value * down - below * (i.unit * up))
    some ⟨if past < i.unit * up then below else below + 1, exponent⟩
  else if lowFits then some ⟨below, exponent⟩
  else if highFits then some ⟨below + 1, exponent⟩
  else none

/-- The shortest decimal of a positive number. Seventeen digits always suffice. -/
def shortest (d : Dyadic64) : Scientific :=
  let i := RoundingInterval.around d
  let leading := leadingExponent i.value i.unit
  let hit := (List.range 17).findSome? fun (n : Nat) => i.onGrid? (leading - (n : Int))
  hit.getD default

/-- Removes zeros at the end of the digits. -/
def Scientific.stripZeros (s : Scientific) : Scientific :=
  go 20 s
where
  go : Nat → Scientific → Scientific
    | 0, s => s
    | n + 1, s =>
      if s.digits ≠ 0 ∧ s.digits % 10 = 0 then go n ⟨s.digits / 10, s.exponent + 1⟩ else s

/-- The digits in full, with a point where it belongs and at least `places` digits after it; no
point if there are none. -/
def Scientific.positional (s : Scientific) (places : Nat) : String :=
  let whole := s.digits * Nat.pow 10 s.exponent.toNat
  let fraction := (-s.exponent).toNat
  let width := max fraction places
  if width = 0 then Nat.repr whole
  else
    let units := whole * Nat.pow 10 (width - fraction)
    Nat.repr (units / Nat.pow 10 width) ++ "." ++ padded width (units % Nat.pow 10 width)

/-- One digit before the point and a decimal exponent. -/
def Scientific.withExponent (s : Scientific) : String :=
  let text := Nat.repr s.digits
  let exponent := s.exponent + (text.length : Int) - 1
  let rest := (text.drop 1).toString
  let fraction := if rest.isEmpty then "" else "." ++ rest
  (text.take 1).toString ++ fraction ++ "e" ++ Int.repr exponent

/-- How a float is written: the fewest decimal places, and the powers of ten below and from which
an exponent is used, if any. -/
structure Style where
  places : Nat
  exponentOutside : Option (Float × Float)

/-- All digits in full and whole numbers without a point. -/
def Style.plain : Style := ⟨0, none⟩

/-- At least one place, and an exponent for the very small and the very large. -/
def Style.diagnostic : Style := ⟨1, some (1e-4, 1e16)⟩

/-- A float in the fewest digits that read back. -/
def write (style : Style) (x : Float) : String :=
  match Dyadic64.ofFloat? x with
  | none => if x.isNaN then "NaN" else if x < 0.0 then "-inf" else "inf"
  | some d =>
    let sign := if d.negative then "-" else ""
    if d.significand = 0 then sign ++ Scientific.positional ⟨0, 0⟩ style.places
    else
      let digits := (shortest d).stripZeros
      let scientific :=
        match style.exponentOutside with
        | some (low, high) => x.abs < low || high ≤ x.abs
        | none => false
      sign ++ if scientific then digits.withExponent else digits.positional style.places

end MapTiles.Decimal
