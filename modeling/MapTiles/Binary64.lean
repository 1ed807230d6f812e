/-!
Double precision numbers told apart by their bit patterns. `Binary64.compare` is the IEEE total
order: negative numbers by falling magnitude, then positive ones by rising magnitude, with the
two zeros apart and the NaNs at the ends. It is a lawful linear order, so such numbers can key
sets and maps, which floating point equality does not allow.
-/

namespace MapTiles

/-- A double precision number identified by its bits alone. -/
structure Binary64 where
  bits : UInt64
deriving DecidableEq, Hashable, Inhabited

namespace Binary64

def ofFloat (x : Float) : Binary64 :=
  ⟨x.toBits⟩

def toFloat (b : Binary64) : Float :=
  Float.ofBits b.bits

/-- The place of a bit pattern in the total order. Patterns with the sign bit come first, the
largest of them lowest. -/
def rank (b : Binary64) : Int :=
  if b.bits.toNat < Nat.pow 2 63 then b.bits.toNat else Nat.pow 2 63 - 1 - b.bits.toNat

protected def compare (a b : Binary64) : Ordering :=
  Ord.compare a.rank b.rank

instance : Ord Binary64 := ⟨Binary64.compare⟩

theorem rank_injective {a b : Binary64} (h : a.rank = b.rank) : a = b := by
  have ha := a.bits.toNat_lt
  have hb := b.bits.toNat_lt
  have hbits : a.bits.toNat = b.bits.toNat := by
    unfold rank at h
    split at h <;> split at h <;> omega
  cases a
  cases b
  exact congrArg Binary64.mk (UInt64.toNat_inj.mp hbits)

theorem compare_eq (a b : Binary64) : Ord.compare a b = Ord.compare a.rank b.rank :=
  rfl

instance : Std.TransOrd Binary64 where
  eq_swap {a b} := by
    simp only [compare_eq]
    exact Std.OrientedCmp.eq_swap
  isLE_trans {a b c} := by
    simp only [compare_eq]
    exact Std.TransCmp.isLE_trans

instance : Std.LawfulEqOrd Binary64 where
  compare_self {a} := by
    simp only [compare_eq]
    exact Std.ReflCmp.compare_self
  eq_of_compare {a b} h := by
    rw [compare_eq] at h
    exact rank_injective (Std.LawfulEqCmp.eq_of_compare h)

end Binary64

/-- A finite number as `significand * 2 ^ exponent` with a sign. -/
structure Dyadic64 where
  negative : Bool
  significand : Nat
  exponent : Int
deriving DecidableEq

/-- The exact value of a finite float, and nothing for a NaN or an infinity. -/
def Dyadic64.ofFloat? (x : Float) : Option Dyadic64 :=
  let bits := x.toBits.toNat
  let negative := decide (Nat.pow 2 63 ≤ bits)
  let field : Nat := bits / Nat.pow 2 52 % Nat.pow 2 11
  let fraction : Nat := bits % Nat.pow 2 52
  if field = Nat.pow 2 11 - 1 then none
  else if field = 0 then some ⟨negative, fraction, -1074⟩
  else some ⟨negative, fraction + Nat.pow 2 52, (field : Int) - 1075⟩

end MapTiles
