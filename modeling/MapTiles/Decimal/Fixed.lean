import MapTiles.Binary64.Rounding

/-!
Floats written with a fixed number of decimal places. The exact value is rounded, a half goes to
the even neighbour, every digit before the point is written, and the sign of a negative zero is
kept.
-/

namespace MapTiles.Decimal

/-- A natural written with at least `width` digits, zeros in front. -/
def padded (width n : Nat) : String :=
  let digits := Nat.repr n
  String.ofList (List.replicate (width - digits.length) '0') ++ digits

/-- The absolute value of a finite number in units of `10 ^ (-places)`, rounded to even. -/
def scaledTo (places : Nat) (d : Dyadic64) : Nat :=
  match d.exponent with
  | .ofNat e => d.significand * Nat.pow 2 e * Nat.pow 10 places
  | .negSucc e => Binary64.divideToEven (d.significand * Nat.pow 10 places) (Nat.pow 2 (e + 1))

/-- A float with exactly `places` decimal places, of which there is at least one. -/
def fixed (places : Nat) (x : Float) : String :=
  match Dyadic64.ofFloat? x with
  | some d =>
    let units := scaledTo places d
    let sign := if d.negative then "-" else ""
    sign ++ Nat.repr (units / Nat.pow 10 places) ++ "." ++
      padded places (units % Nat.pow 10 places)
  | none => if x.isNaN then "NaN" else if x < 0.0 then "-inf" else "inf"

end MapTiles.Decimal
