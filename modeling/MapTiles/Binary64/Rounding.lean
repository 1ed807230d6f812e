import MapTiles.Binary64

/-!
Rounding between floats and whole or exact numbers: the floor and ceiling of a float, its whole
part as an integer, the float nearest to a quotient of naturals, and the length of the
hypotenuse over two floats, computed exactly and rounded once.
-/

namespace MapTiles.Binary64

/-- Drops the fraction of a float. From `2 ^ 52` on there is none, and NaN stays NaN. -/
def truncate (x : Float) : Float :=
  let size := x.abs
  if size < 4503599627370496.0 then
    let whole := size.toUInt64.toFloat
    if x < 0.0 then -whole else if x == 0.0 then x else whole
  else x

def floor (x : Float) : Float :=
  let whole := truncate x
  if x < whole then whole - 1.0 else whole

def ceil (x : Float) : Float :=
  let whole := truncate x
  if whole < x then whole + 1.0 else whole

/-- The whole part of a float as an integer, zero for a NaN or an infinity. -/
def toInt (x : Float) : Int :=
  match Dyadic64.ofFloat? x with
  | none => 0
  | some d =>
    let size : Nat :=
      match d.exponent with
      | .ofNat e => d.significand * Nat.pow 2 e
      | .negSucc e => d.significand / Nat.pow 2 (e + 1)
    if d.negative then -(size : Int) else size

/-- `num / den` rounded to the nearest natural, a half to the even one. -/
def divideToEven (num den : Nat) : Nat :=
  let quotient := num / den
  let rest := 2 * (num % den)
  if rest > den || (rest == den && quotient % 2 == 1) then quotient + 1 else quotient

/-- `num / den * 2 ^ (-exponent)` rounded to the nearest natural. -/
def scaledQuotient (num den : Nat) (exponent : Int) : Nat :=
  match exponent with
  | .ofNat e => divideToEven num (den * Nat.pow 2 e)
  | .negSucc e => divideToEven (num * Nat.pow 2 (e + 1)) den

/-- The float nearest to `num / den`, a tie to the even significand, infinity if the quotient
is too large. `den` is positive. -/
def nearest (num den : Nat) : Float :=
  if num = 0 then 0.0
  else
    let rough : Int := (num.log2 : Int) - den.log2 - 53
    let first := max rough (-1074)
    -- the quotient of the logarithms may miss the exponent by one
    let exponent := if scaledQuotient num den first ≥ Nat.pow 2 53 then first + 1 else first
    let significand := scaledQuotient num den exponent
    let bits :=
      if significand < Nat.pow 2 52 then significand
      else (exponent + 1075).toNat * Nat.pow 2 52 + (significand - Nat.pow 2 52)
    Float.ofBits (UInt64.ofNat (min bits (2047 * Nat.pow 2 52)))

/-- The square root of `n`, as twice its floor plus one if something is left over. -/
def doubledRoot (n : Nat) : Nat :=
  let root := n.sqrt
  if root * root = n then 2 * root else 2 * root + 1

/-- `sqrt (x ^ 2 + y ^ 2)` rounded once. An infinite side makes it infinite, even beside a NaN. -/
def hypot (x y : Float) : Float :=
  if x.isInf || y.isInf then 1.0 / 0.0
  else
    match Dyadic64.ofFloat? x, Dyadic64.ofFloat? y with
    | some a, some b =>
      let low := min a.exponent b.exponent
      let p := a.significand * Nat.pow 2 (a.exponent - low).toNat
      let q := b.significand * Nat.pow 2 (b.exponent - low).toNat
      let root := doubledRoot ((p * p + q * q) * Nat.pow 2 120)
      -- the root carries sixty extra bits and is doubled
      match low - 61 with
      | .ofNat e => nearest (root * Nat.pow 2 e) 1
      | .negSucc e => nearest root (Nat.pow 2 (e + 1))
    | _, _ => 0.0 / 0.0

end MapTiles.Binary64
