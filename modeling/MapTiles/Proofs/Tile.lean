import MapTiles.Proofs.Loading.Snapshot
import MapTiles.Tile
import Mathlib

/-!
Tiles and requests as keys. Zooms are ordered by their bit patterns as signed numbers, after those
of negative numbers are turned over, so NaNs have a place of their own and the two zeros differ. In
the order of tiles, which ends in that of their zooms, two tiles are equal only if they agree in
every field. Then they also give a hash the same input, and whatever stores them finds a tile if and
only if it was put there.
-/

namespace MapTiles

namespace Binary64

/-- The bits as a signed number, with those below the sign turned over if it is negative. -/
def folded (b : Binary64) : Int64 :=
  let signed := b.bits.toInt64
  signed ^^^ ((signed >>> 63).toUInt64 >>> 1).toInt64

theorem toBitVec_folded (b : Binary64) :
    b.folded.toBitVec = b.bits.toBitVec ^^^ b.bits.toBitVec.sshiftRight 63 >>> 1 :=
  rfl

/-- Behind the sign of a number that is not negative no bit is turned over. -/
theorem fold_of_msb_false {x : BitVec 64} (h : x.msb = false) :
    x ^^^ x.sshiftRight 63 >>> 1 = x := by
  have hlow : 2 * x.toNat < 2 ^ 64 := BitVec.msb_eq_false_iff_two_mul_lt.mp h
  have hshift : x >>> 63 = 0#64 := by
    apply BitVec.eq_of_toNat_eq
    rw [BitVec.toNat_ushiftRight, Nat.shiftRight_eq_div_pow]
    simp only [BitVec.toNat_ofNat]
    omega
  rw [BitVec.sshiftRight_eq_of_msb_false h, hshift, BitVec.zero_ushiftRight, BitVec.xor_zero]

/-- Behind a negative sign every bit is turned over. -/
theorem fold_of_msb_true {x : BitVec 64} (h : x.msb = true) :
    x ^^^ x.sshiftRight 63 >>> 1 = BitVec.cons true (~~~(x.setWidth 63)) := by
  have hhigh : 2 ^ 64 ≤ 2 * x.toNat := BitVec.msb_eq_true_iff_two_mul_ge.mp h
  have hshift : ~~~x >>> 63 = 0#64 := by
    apply BitVec.eq_of_toNat_eq
    rw [BitVec.toNat_ushiftRight, Nat.shiftRight_eq_div_pow, BitVec.toNat_not]
    simp only [BitVec.toNat_ofNat]
    omega
  have hmask : ~~~(0#64) >>> 1 = BitVec.cons false (BitVec.allOnes 63) := by decide
  have hsplit : BitVec.cons true (x.setWidth 63) = x := by
    rw [← h]
    exact BitVec.cons_msb_setWidth x
  rw [BitVec.sshiftRight_eq_of_msb_true h, hshift, hmask]
  nth_rewrite 1 [← hsplit]
  rw [BitVec.cons_xor_cons, BitVec.xor_allOnes, Bool.true_xor, Bool.not_false]

/-- The place in the total order is the folded bit pattern. -/
theorem rank_eq_folded (b : Binary64) : b.rank = b.folded.toInt := by
  change b.rank = b.folded.toBitVec.toInt
  have hbits : b.bits.toNat = b.bits.toBitVec.toNat := rfl
  rw [rank, toBitVec_folded, hbits, BitVec.toInt_eq_toNat_cond]
  generalize b.bits.toBitVec = x
  have hwidth := x.isLt
  cases hsign : x.msb with
  | false =>
      have hlow : 2 * x.toNat < 2 ^ 64 := BitVec.msb_eq_false_iff_two_mul_lt.mp hsign
      rw [fold_of_msb_false hsign, if_pos (by simp only [Nat.pow_eq]; omega), if_pos hlow]
  | true =>
      have hhigh : 2 ^ 64 ≤ 2 * x.toNat := BitVec.msb_eq_true_iff_two_mul_ge.mp hsign
      have hfolded : (BitVec.cons true (~~~(x.setWidth 63))).toNat =
          2 ^ 63 + (2 ^ 63 - 1 - (x.toNat - 2 ^ 63)) := by
        rw [BitVec.toNat_cons', BitVec.toNat_not, BitVec.toNat_setWidth]
        simp only [Bool.toNat_true, Nat.shiftLeft_eq, Nat.one_mul]
        omega
      rw [fold_of_msb_true hsign, hfolded, if_neg (by simp only [Nat.pow_eq]; omega),
        if_neg (by omega)]
      simp only [Nat.pow_eq]
      omega

end Binary64

/-- A comparison by which keys can be sorted: of any two one comes first, and only a key itself
comes neither before nor after it. -/
structure TotalOrder (K : Type) [Ord K] : Prop where
  swap (a b : K) : compare b a = (compare a b).swap
  total (a b : K) : (compare a b).isLE = true ∨ (compare b a).isLE = true
  trans (a b c : K) :
    (compare a b).isLE = true → (compare b c).isLE = true → (compare a c).isLE = true
  antisymm (a b : K) : (compare a b).isLE = true → (compare b a).isLE = true → a = b

/-- What stores keys, sorted or by their hashes, finds those that were put there and no others, and
there is one way to sort them. -/
structure Storable (K : Type) [Ord K] [Std.TransOrd K] [DecidableEq K] [Hashable K] : Prop where
  mem_tree (keys : List K) (k : K) : k ∈ Std.ExtTreeSet.ofList keys ↔ k ∈ keys
  mem_table (keys : List K) (k : K) : k ∈ Std.HashSet.ofList keys ↔ k ∈ keys
  get_tree {V : Type} (m : Std.ExtTreeMap K V) (k l : K) (v : V) :
    (m.insert k v)[l]? = if k = l then some v else m[l]?
  get_table {V : Type} (m : Std.HashMap K V) (k l : K) (v : V) :
    (m.insert k v)[l]? = if k = l then some v else m[l]?
  sorted_unique (keys others : List K) (hkeys : keys.Pairwise fun a b => compare a b = .lt)
    (hothers : others.Pairwise fun a b => compare a b = .lt) (hsame : ∀ k, k ∈ keys ↔ k ∈ others) :
    keys = others

section Keys

variable {K : Type} [Ord K] [Std.TransOrd K] [Std.LawfulEqOrd K]

theorem totalOrder : TotalOrder K where
  swap _ _ := Std.OrientedOrd.eq_swap
  total a b := by
    rw [Std.OrientedOrd.eq_swap (a := b)]
    cases compare a b <;> decide
  trans _ _ _ := Std.TransOrd.isLE_trans
  antisymm _ _ hab hba := Std.LawfulEqOrd.eq_of_compare (Std.OrientedCmp.isLE_antisymm hab hba)

theorem storable [DecidableEq K] [Hashable K] : Storable K where
  mem_tree keys k := by rw [Std.ExtTreeSet.mem_ofList, List.contains_iff_mem]
  mem_table keys k := by rw [Std.HashSet.mem_ofList, List.contains_iff_mem]
  get_tree m k l v := by simp only [Std.ExtTreeMap.getElem?_insert, Std.compare_eq_iff_eq]
  get_table m k l v := by simp only [Std.HashMap.getElem?_insert, beq_iff_eq]
  sorted_unique keys others hkeys hothers hsame := by
    have hnodup {list : List K} (h : list.Pairwise fun a b => compare a b = .lt) : list.Nodup := by
      refine h.imp fun hlt heq => ?_
      rw [heq, Std.ReflOrd.compare_self] at hlt
      cases hlt
    have hperm := (List.perm_ext_iff_of_nodup (hnodup hkeys) (hnodup hothers)).mpr hsame
    refine hperm.eq_of_pairwise (fun a b _ _ hab hba => ?_) hkeys hothers
    rw [Std.OrientedOrd.eq_swap, hba] at hab
    cases hab

end Keys

namespace Tile

theorem compare_eq_iff {t u : Tile} :
    compare t u = .eq ↔
      t.column = u.column ∧ t.row = u.row ∧ t.level = u.level ∧ t.zoom.bits = u.zoom.bits := by
  rw [Std.compare_eq_iff_eq]
  constructor
  · rintro rfl
    exact ⟨rfl, rfl, rfl, rfl⟩
  · rintro ⟨hcolumn, hrow, hlevel, hbits⟩
    have hzoom : t.zoom = u.zoom := by
      cases h : t.zoom
      cases h' : u.zoom
      rw [h, h'] at hbits
      exact congrArg Binary64.mk hbits
    cases t
    cases u
    simp only [Tile.mk.injEq]
    exact ⟨hcolumn, hrow, hlevel, hzoom⟩

/-- Tiles are ordered by their level, column, row and folded zoom, one after the other. -/
theorem compare_eq_then (t u : Tile) :
    compare t u =
      (compare t.level u.level).then ((compare t.column u.column).then
        ((compare t.row u.row).then (compare t.zoom.folded.toInt u.zoom.folded.toInt))) := by
  rw [← Binary64.rank_eq_folded, ← Binary64.rank_eq_folded]
  rfl

/-- The order of tiles is total, whatever their numbers and the bits of their zooms are. Two tiles
are equal in it if and only if all of these agree, and then a hash gets the same input from them.
Requests are ordered by their priority first and then by their tile, which is a total order too. So
sets and maps keep tiles and requests apart, and bisection finds a tile in a sorted list if and only
if it is there. -/
theorem identity_is_lawful :
    TotalOrder Tile ∧
    (∀ t u : Tile, compare t u =
      (compare t.level u.level).then ((compare t.column u.column).then
        ((compare t.row u.row).then (compare t.zoom.folded.toInt u.zoom.folded.toInt)))) ∧
    (∀ t u : Tile, compare t u = .eq ↔
      t.column = u.column ∧ t.row = u.row ∧ t.level = u.level ∧ t.zoom.bits = u.zoom.bits) ∧
    (∀ t u : Tile, compare t u = .eq → t.hashInput = u.hashInput) ∧
    TotalOrder Request ∧
    (∀ r s : Request,
      compare r s = (compare r.priority s.priority).then (compare r.tile s.tile)) ∧
    Storable Tile ∧ Storable Request ∧
    ∀ (tiles : List Tile) (t : Tile), Ascending tiles →
      (sortedContains tiles t = true ↔ t ∈ tiles) := by
  refine ⟨totalOrder, compare_eq_then, fun t u => compare_eq_iff, fun t u h => ?_, totalOrder,
    fun r s => rfl, storable, storable, fun tiles t h => sortedContains_iff h t⟩
  rw [Std.LawfulEqOrd.eq_of_compare h]

theorem identity_is_lawful_at_zeros :
    let negative : Tile := ⟨1, 2, 3, ⟨0x8000000000000000⟩⟩
    let positive : Tile := ⟨1, 2, 3, ⟨0⟩⟩
    let notANumber : Tile := ⟨1, 2, 3, ⟨0x7FF8000000000000⟩⟩
    Ascending [negative, positive, notANumber] ∧
      sortedContains [negative, positive, notANumber] notANumber = true ∧
      ¬ compare negative positive = .eq ∧ compare notANumber notANumber = .eq ∧
      notANumber.hashInput = (3, 1, 2, 0x7FF8000000000000) := by
  intro negative positive notANumber
  obtain ⟨-, -, hequal, hhash, -, -, -, -, hsearch⟩ := identity_is_lawful
  have hself : compare notANumber notANumber = .eq := (hequal _ _).mpr ⟨rfl, rfl, rfl, rfl⟩
  have hascending : Ascending [negative, positive, notANumber] := by decide
  refine ⟨hascending, (hsearch _ _ hascending).mpr (by decide), fun h => ?_, hself, ?_⟩
  · exact absurd ((hequal _ _).mp h).2.2.2 (by decide)
  · exact (hhash notANumber notANumber hself).trans rfl

end Tile

end MapTiles
