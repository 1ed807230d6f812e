import MapTiles.Proofs.Grid

/-!
Views with a window of level identifiers. The window is looked at when the levels to draw have been
chosen: it takes tiles away, and the target stays where it is, even outside the window. Where the
target lies inside, and no coarser level inside follows a drawn level outside, the window is the
same as a table without the levels outside it. Where identifiers rise, no level inside follows.
-/

namespace MapTiles

variable {α : Type} [Scalar α]

namespace View

/-- Whether a level identifier lies in the window. -/
def admits (v : View α) (identifier : Int) : Bool :=
  v.lowest.all (fun low => decide (low ≤ identifier)) &&
    v.highest.all (fun high => decide (identifier ≤ high))

omit [Scalar α] in
theorem allows_iff {v : View α} {l : Level α} :
    v.allows l = true ↔
      (∀ low ∈ v.lowest, low ≤ l.identifier) ∧ ∀ high ∈ v.highest, l.identifier ≤ high := by
  rw [allows, Bool.and_eq_true, Option.all_eq_true, Option.all_eq_true]
  simp only [decide_eq_true_eq]
  rfl

/-- The view without its window. -/
def unwindowed (v : View α) : View α :=
  { v with lowest := none, highest := none }

/-- The view without its window, on a table without the levels outside the window. -/
def restricted (v : View α) : View α :=
  { v with levels := v.levels.filter v.allows, lowest := none, highest := none }

/-- The levels from the target to the coarsest one. -/
def fromTarget (v : View α) (target : Nat) : List (Level α) :=
  (v.levels.take (target + 1)).reverse

/-- Whether no level inside the window comes after a drawn level outside it, from the target to
the coarsest level. -/
def Unbroken (v : View α) (target : Nat) : Prop :=
  ∀ finer l coarser, v.fromTarget target = finer ++ l :: coarser →
    finer.length ≤ v.rule.coarserLevels → v.allows l = false → ∀ c ∈ coarser, v.allows c = false

variable {v : View α} {target : Nat}

/-- What is drawn are the first levels from the target on, each with its number. -/
theorem drawn_eq_reverse (h : v.target? = some target) :
    v.drawn =
      (((v.fromTarget target).take (v.rule.coarserLevels + 1)).zipIdx.map Prod.swap).reverse := by
  have hlt := target_lt h
  apply List.ext_getElem
  · rw [length_drawn h, List.length_reverse, List.length_map, List.length_zipIdx, List.length_take,
      fromTarget, List.length_reverse, List.length_take]
    omega
  · intro i hdrawn hi
    simp only [drawn, h, drawnLevels, fromTarget, List.getElem_mapIdx, List.getElem_take,
      List.getElem_drop, List.getElem_reverse, List.getElem_map, List.getElem_zipIdx,
      List.length_reverse, List.length_map, List.length_zipIdx, List.length_take,
      Prod.swap_prod_mk]
    rw [length_drawn h] at hdrawn
    congr 2 <;> omega

/-- Numbering the first elements of a list commutes with leaving elements out, if nothing is kept
after one of the first that is left out. -/
theorem filter_zipIdx_take {β : Type} (p : β → Bool) {l : List β} {n : Nat}
    (h : ∀ before a after, l = before ++ a :: after → before.length < n → p a = false →
      ∀ b ∈ after, p b = false) (k : Nat) :
    ((l.take n).zipIdx k).filter (fun e => p e.1) = ((l.filter p).take n).zipIdx k := by
  induction l generalizing n k with
  | nil => simp
  | cons a l ih =>
      cases n with
      | zero => simp
      | succ n =>
          rw [List.take_succ_cons, List.zipIdx_cons, List.filter_cons, List.filter_cons]
          cases ha : p a with
          | true =>
              rw [if_pos rfl, if_pos rfl, List.take_succ_cons, List.zipIdx_cons, ih]
              intro before b after hl hbefore
              apply h (a :: before) b after
              · rw [hl, List.cons_append]
              · exact Nat.succ_lt_succ hbefore
          | false =>
              have hnone := h [] a l rfl (Nat.zero_lt_succ n) ha
              have hlater : l.filter p = [] := by
                apply List.filter_eq_nil_iff.mpr
                intro b hb
                simp [hnone b hb]
              rw [if_neg nofun, if_neg nofun, hlater, List.take_nil, List.zipIdx_nil]
              apply List.filter_eq_nil_iff.mpr
              intro e he
              have hmem : e.1 ∈ l := List.mem_of_mem_take (List.fst_mem_of_mem_zipIdx he)
              simp [hnone e.1 hmem]

/-- Without the levels outside the window the target keeps its level. -/
theorem fromTarget_restricted {l : Level α} (h : v.target? = some target)
    (hl : v.levels[target]? = some l) (hinside : v.allows l = true) :
    ∃ kept, v.restricted.target? = some kept ∧
      v.restricted.fromTarget kept = (v.fromTarget target).filter v.allows := by
  obtain ⟨coarser, m, finer, hlevels, rfl, hcoarser, hlast⟩ := Level.targetIndex?_eq_some_iff.mp h
  obtain rfl : m = l := by
    rw [hlevels] at hl
    simpa using hl
  have hfiltered : v.restricted.levels =
      coarser.filter v.allows ++ m :: finer.filter v.allows := by
    rw [restricted, hlevels, List.filter_append, List.filter_cons_of_pos hinside]
  refine ⟨(coarser.filter v.allows).length, ?_, ?_⟩
  · refine Level.targetIndex?_eq_some_iff.mpr
      ⟨coarser.filter v.allows, m, finer.filter v.allows, hfiltered, rfl, ?_, ?_⟩
    · intro c hc
      exact hcoarser c (List.mem_of_mem_filter hc)
    · apply hlast.imp_right
      rintro rfl
      rfl
  · have htake (a b : List (Level α)) : (a ++ m :: b).take (a.length + 1) = a ++ [m] := by
      rw [List.take_length_add_append]
      rfl
    rw [fromTarget, fromTarget, hfiltered, hlevels, htake, htake, List.filter_reverse,
      List.filter_append, List.filter_cons_of_pos hinside, List.filter_nil]

theorem drawn_restricted {l : Level α} (h : v.target? = some target)
    (hl : v.levels[target]? = some l) (hinside : v.allows l = true)
    (hunbroken : v.Unbroken target) :
    v.restricted.drawn = v.drawn.filter fun entry => v.allows entry.2 := by
  obtain ⟨kept, hkept, hlevels⟩ := fromTarget_restricted h hl hinside
  rw [drawn_eq_reverse hkept, drawn_eq_reverse h, hlevels, List.filter_reverse, List.filter_map]
  congr 2
  refine (filter_zipIdx_take v.allows ?_ 0).symm
  intro before a after hsplit hbefore
  exact hunbroken before a after hsplit (Nat.le_of_lt_succ hbefore)

/-- Among the tiles of a drawn level the window keeps all or none. -/
theorem contribution_eq_filter (v : View α) (entry : Nat × Level α) :
    v.contribution entry =
      (v.unwindowed.contribution entry).filter fun t => v.admits t.request.tile.level := by
  have hlevel : ∀ t ∈ v.unwindowed.contribution entry,
      t.request.tile.level = entry.2.identifier := by
    intro t ht
    exact entry.2.request_level ht
  cases hinside : v.allows entry.2 with
  | true =>
      rw [List.filter_eq_self.mpr]
      · rw [contribution, if_pos hinside]
        rfl
      · intro t ht
        rw [hlevel t ht]
        exact hinside
  | false =>
      rw [List.filter_eq_nil_iff.mpr]
      · rw [contribution, if_neg (by simp [hinside])]
      · intro t ht
        rw [hlevel t ht]
        exact ne_true_of_eq_false hinside

/-- A level outside the window contributes nothing, and a level inside as much as without it. -/
theorem flatMap_contribution (v : View α) (entries : List (Nat × Level α)) :
    entries.flatMap v.contribution =
      (entries.filter fun entry => v.allows entry.2).flatMap v.unwindowed.contribution := by
  induction entries with
  | nil => rfl
  | cons entry entries ih =>
      rw [List.flatMap_cons, ih, List.filter_cons, contribution]
      cases v.allows entry.2 with
      | true => rfl
      | false => rfl

omit [Scalar α] in
/-- On a table whose identifiers rise from the coarsest level to the finest, a level coarser than
one below the window is below the window as well. -/
theorem unbroken_of_rising {l : Level α} (hl : v.levels[target]? = some l)
    (hinside : v.allows l = true)
    (hrising : v.levels.Pairwise fun a b => a.identifier ≤ b.identifier) : v.Unbroken target := by
  intro finer outside coarser hsplit _ houtside c hc
  have hfalling : (v.fromTarget target).Pairwise fun a b => b.identifier ≤ a.identifier :=
    List.pairwise_reverse.mpr (hrising.sublist (List.take_sublist _ _))
  have hhead : v.fromTarget target = l :: (v.levels.take target).reverse := by
    rw [fromTarget, List.take_add_one, hl, List.reverse_append]
    rfl
  have hbelow : outside.identifier ≤ l.identifier := by
    have hmem : outside ∈ v.fromTarget target := hsplit ▸ List.mem_append_right _ List.mem_cons_self
    rw [hhead] at hmem hfalling
    obtain rfl | hrest := List.mem_cons.mp hmem
    · exact Int.le_refl _
    · exact List.rel_of_pairwise_cons hfalling hrest
  have habove : c.identifier ≤ outside.identifier := by
    rw [hsplit] at hfalling
    exact List.rel_of_pairwise_cons (List.pairwise_append.mp hfalling).2.1 hc
  -- a level inside the window above one outside would put that one inside as well
  rw [Bool.eq_false_iff] at houtside ⊢
  intro hc
  obtain ⟨hlow, -⟩ := allows_iff.mp hc
  obtain ⟨-, hhigh⟩ := allows_iff.mp hinside
  apply houtside
  apply allows_iff.mpr
  constructor
  · intro low hmem
    exact Int.le_trans (hlow low hmem) habove
  · intro high hmem
    exact Int.le_trans hbelow (hhigh high hmem)

/-- The window takes away the tiles of the levels outside it and leaves the target where it is. This
is the same as taking the levels out of the table if the target stays and nothing is kept after a
drawn level that is taken out. -/
theorem window_takes_away (v : View α) :
    v.target? = v.unwindowed.target? ∧
      v.tiles = v.unwindowed.tiles.filter (fun t => v.admits t.request.tile.level) ∧
      ∀ target l, v.target? = some target → v.levels[target]? = some l → v.allows l = true →
        v.Unbroken target → v.tiles = v.restricted.tiles := by
  refine ⟨rfl, ?_, ?_⟩
  · rw [tiles_eq, tiles_eq]
    change _ = (if v.blank then [] else v.drawn.flatMap v.unwindowed.contribution).filter _
    cases v.blank with
    | true => rfl
    | false =>
        rw [if_neg nofun, if_neg nofun, List.filter_flatMap]
        congr 1
        funext entry
        exact v.contribution_eq_filter entry
  · intro target l htarget hl hinside hunbroken
    rw [tiles_eq, tiles_eq, drawn_restricted htarget hl hinside hunbroken, flatMap_contribution]
    rfl

/-- A table of three levels, each splitting the tiles of the one before into four. -/
def pyramid : List (Level Float) :=
  [⟨Binary64.ofFloat 4, 4, 1, 1, 0, Rect.ofCorners 0 0 0 4 4⟩,
    ⟨Binary64.ofFloat 2, 2, 2, 2, 1, Rect.ofCorners 0 0 0 4 4⟩,
    ⟨Binary64.ofFloat 1, 1, 4, 4, 2, Rect.ofCorners 0 0 0 4 4⟩]

/-- A view with the middle level as its target, drawn with the coarsest one below. -/
def windowed (lowest highest : Option Int) : View Float where
  bounds := Rect.ofCorners 0 0 0 4 4
  zoom := 2.5
  levels := pyramid
  rule := ⟨1, 1⟩
  buckets := 20
  lowest := lowest
  highest := highest

/-- A window that holds the target is like a table without the levels outside it. A window that only
the finest level is in leaves nothing to show, though such a table would show that level. -/
theorem window_takes_away_target :
    (windowed (some 1) none).tiles = (windowed (some 1) none).restricted.tiles ∧
      (windowed (some 2) none).tiles = [] ∧ (windowed (some 2) none).restricted.tiles ≠ [] := by
  have htarget : (windowed (some 1) none).target? = some 1 := by decide +kernel
  have hrising : pyramid.Pairwise fun a b => a.identifier ≤ b.identifier := by decide +kernel
  obtain ⟨-, -, hsame⟩ := window_takes_away (windowed (some 1) none)
  refine ⟨hsame 1 _ htarget rfl rfl (unbroken_of_rising rfl rfl hrising), ?_, ?_⟩
  · apply List.length_eq_zero_iff.mp
    decide +kernel
  · apply List.ne_nil_of_length_pos
    decide +kernel

end View

end MapTiles
