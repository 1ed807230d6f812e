import MapTiles.Decimal.Fixed

/-!
Lengths of time in whole nanoseconds. Instants are lengths of time since the clock started.
Doubling stops at the longest duration that a counter of seconds in 64 bits can hold.
-/

namespace MapTiles

/-- A length of time in nanoseconds. -/
abbrev Duration : Type :=
  Nat

/-- A point in time, in nanoseconds since the clock started. -/
abbrev Instant : Type :=
  Nat

namespace Duration

/-- Nanoseconds in a second. -/
def second : Duration :=
  1000000000

/-- Nanoseconds in a millisecond. -/
def millisecond : Duration :=
  1000000

/-- The longest duration. -/
def longest : Duration :=
  (Nat.pow 2 64 - 1) * second + (second - 1)

def ofMillis (n : Nat) : Duration :=
  n * millisecond

def toMillis (d : Duration) : Nat :=
  d / millisecond

/-- Twice a duration, or the longest one. -/
def double (d : Duration) : Duration :=
  min (2 * d) longest

/-- The digits of `fraction / 10 ^ width` after the point, without zeros at the end. -/
def fractionText (width fraction : Nat) : String :=
  let digits := (Decimal.padded width fraction).toList.reverse.dropWhile (· == '0')
  if digits.isEmpty then "" else "." ++ String.ofList digits.reverse

/-- The duration in the largest unit of which it holds at least one. -/
def diagnostic (d : Duration) : String :=
  if second ≤ d then Nat.repr (d / second) ++ fractionText 9 (d % second) ++ "s"
  else if millisecond ≤ d then
    Nat.repr (d / millisecond) ++ fractionText 6 (d % millisecond) ++ "ms"
  else if 1000 ≤ d then Nat.repr (d / 1000) ++ fractionText 3 (d % 1000) ++ "µs"
  else Nat.repr d ++ "ns"

end Duration

/-- The last time that a clock can tell that counts the seconds since it started in 63 bits. -/
def Instant.latest : Instant :=
  (Nat.pow 2 63 - 1) * Duration.second + (Duration.second - 1)

end MapTiles
