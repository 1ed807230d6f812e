import MapTiles.Loading.Snapshot
import MapTiles.Proofs.Loading.Reached
import Mathlib.Data.List.Perm.Basic

/-!
What a copy of the bookkeeping says, and what its check of the rules finds. A tile is found by
bisection if and only if it is in the list, provided that the list is sorted. So the check reports
each broken rule as often as it is broken, and nothing else. The copies that operations lead to are
sorted, and break no rule.
-/

namespace MapTiles

/-- Whether tiles stand in their order. They may be repeated. -/
def Ascending (tiles : List Tile) : Prop :=
  tiles.Pairwise fun t u => (compare t u).isLE = true

instance (tiles : List Tile) : Decidable (Ascending tiles) :=
  inferInstanceAs (Decidable (tiles.Pairwise _))

namespace Ascending

variable {front back : List Tile} {middle t : Tile}

/-- A tile that is not smaller than the middle of a list is not missed behind it. -/
theorem mem_upper_iff (h : Ascending (front ++ middle :: back))
    (hle : (compare middle t).isLE = true) :
    t ∈ front ++ middle :: back ↔ t ∈ middle :: back := by
  rw [List.mem_append, or_iff_right_iff_imp]
  intro hfront
  have hbefore := (List.pairwise_append.mp h).2.2 t hfront middle List.mem_cons_self
  have hsame := Std.LawfulEqCmp.eq_of_compare (Std.OrientedCmp.isLE_antisymm hbefore hle)
  exact List.mem_cons.mpr (.inl hsame)

/-- A tile that is smaller than the middle of a list stands before it. -/
theorem mem_lower_iff (h : Ascending (front ++ middle :: back)) (hgt : compare middle t = .gt) :
    t ∈ front ++ middle :: back ↔ t ∈ front := by
  have hlt : compare t middle = .lt := Std.OrientedCmp.gt_iff_lt.mp hgt
  have hbehind := (List.pairwise_cons.mp (List.pairwise_append.mp h).2.1).1
  rw [List.mem_append, or_iff_left_iff_imp, List.mem_cons]
  rintro (rfl | hback)
  · cases Std.ReflOrd.compare_self.symm.trans hlt
  · have hself := Std.TransCmp.lt_of_lt_of_isLE hlt (hbehind t hback)
    cases Std.ReflOrd.compare_self.symm.trans hself

end Ascending

/-- Bisection finds the tiles of a sorted list, and no others. -/
theorem sortedContains_iff {tiles : List Tile} (h : Ascending tiles) (t : Tile) :
    sortedContains tiles t = true ↔ t ∈ tiles := by
  fun_induction sortedContains tiles t with
  | case1 tiles hlong half upper hupper ih =>
      obtain ⟨middle, hmiddle, hle⟩ := (Option.any_eq_true _ _).mp hupper
      obtain ⟨back, hback⟩ := List.head?_eq_some_iff.mp hmiddle
      have hsplit : tiles.take half ++ middle :: back = tiles := by
        rw [← hback]
        exact List.take_append_drop half tiles
      rw [ih (h.sublist (List.drop_sublist half tiles)), hback]
      rw [← hsplit] at h ⊢
      exact (h.mem_upper_iff (Ordering.isLE_iff_ne_gt.mpr (by simpa using hle))).symm
  | case2 tiles hlong half upper hupper ih =>
      obtain ⟨middle, back, hback⟩ : ∃ middle back, upper = middle :: back := by
        apply List.exists_cons_of_length_pos
        simp only [upper, half, List.length_drop]
        omega
      have hgt : compare middle t = .gt := by simpa [hback] using hupper
      have hsplit : tiles.take half ++ middle :: back = tiles := by
        rw [← hback]
        exact List.take_append_drop half tiles
      have hlower : tiles.take half ⊆ tiles.take (tiles.length - half) :=
        List.take_subset_take_left tiles (by omega)
      rw [ih (h.sublist (List.take_sublist _ tiles))]
      constructor
      · exact List.mem_of_mem_take
      · intro ht
        rw [← hsplit] at h ht
        exact hlower ((h.mem_lower_iff hgt).mp ht)
  | case3 tiles hshort =>
      match tiles, hshort with
      | [], _ => simp
      | [only], _ =>
          simp only [List.head?_cons, Option.any_some, beq_iff_eq, Std.compare_eq_iff_eq,
            List.mem_singleton]
          exact eq_comm
      | _ :: _ :: _, hshort => exact absurd (by simp) hshort

namespace Snapshot

variable {s : Snapshot}

/-- Whether the lists in which tiles are looked up are sorted. -/
structure Sorted (s : Snapshot) : Prop where
  inFlight : Ascending s.inFlight
  resident : Ascending s.resident
  missing : Ascending s.missing

/-- The rules that a copy breaks: that of the slots, and one for each request or load that should
not be there. -/
def broken (s : Snapshot) : List Violation :=
  (if s.maxLoads < s.inFlight.length then [.overCap s.inFlight.length s.maxLoads] else []) ++
    ((s.queued.filter fun r => r.tile ∈ s.inFlight).map fun r => .queuedInFlight r.tile) ++
    ((s.queued.filter fun r => r.tile ∈ s.resident).map fun r => .queuedResident r.tile) ++
    ((s.queued.filter fun r => r.tile ∈ s.missing).map fun r => .queuedMissing r.tile) ++
    ((s.inFlight.filter fun t => t ∈ s.resident).map .inFlightResident)

/-- Whether a copy meets every rule. -/
structure Valid (s : Snapshot) : Prop where
  inFlight_le : s.inFlight.length ≤ s.maxLoads
  queued_not_inFlight : ∀ r ∈ s.queued, r.tile ∉ s.inFlight
  queued_not_resident : ∀ r ∈ s.queued, r.tile ∉ s.resident
  queued_not_missing : ∀ r ∈ s.queued, r.tile ∉ s.missing
  inFlight_not_resident : ∀ t ∈ s.inFlight, t ∉ s.resident

theorem broken_eq_nil_iff (s : Snapshot) : s.broken = [] ↔ s.Valid := by
  simp only [broken, List.append_eq_nil_iff, List.map_eq_nil_iff, List.filter_eq_nil_iff,
    decide_eq_true_eq, ite_eq_right_iff, List.cons_ne_nil, imp_false, Nat.not_lt]
  constructor
  · rintro ⟨⟨⟨⟨hcap, hflight⟩, hresident⟩, hmissing⟩, harrived⟩
    exact ⟨hcap, hflight, hresident, hmissing, harrived⟩
  · rintro ⟨hcap, hflight, hresident, hmissing, harrived⟩
    exact ⟨⟨⟨⟨hcap, hflight⟩, hresident⟩, hmissing⟩, harrived⟩

private theorem flatMap_ite {α β : Type} (p : α → Prop) [DecidablePred p] (f : α → β)
    (l : List α) : (l.flatMap fun a => if p a then [f a] else []) = (l.filter p).map f := by
  induction l with
  | nil => rfl
  | cons a rest ih =>
      rw [List.flatMap_cons, ih, List.filter_cons]
      by_cases h : p a <;> simp [h]

/-- The check finds what membership tells. -/
theorem requestViolations_eq (h : s.Sorted) (t : Tile) :
    s.requestViolations t =
      (if t ∈ s.inFlight then [.queuedInFlight t] else []) ++
        (if t ∈ s.resident then [.queuedResident t] else []) ++
          if t ∈ s.missing then [.queuedMissing t] else [] := by
  simp only [requestViolations, isInFlight, isResident, sortedContains_iff h.inFlight,
    sortedContains_iff h.resident, sortedContains_iff h.missing]

/-- The check reports each broken rule as often as it is broken. -/
theorem violations_perm (h : s.Sorted) : s.violations.Perm s.broken := by
  have hqueued : (s.queued.flatMap fun r => s.requestViolations r.tile).Perm
      (((s.queued.filter fun r => r.tile ∈ s.inFlight).map fun r => .queuedInFlight r.tile) ++
        ((s.queued.filter fun r => r.tile ∈ s.resident).map fun r => .queuedResident r.tile) ++
        ((s.queued.filter fun r => r.tile ∈ s.missing).map fun r => .queuedMissing r.tile)) := by
    simp only [requestViolations_eq h, ← flatMap_ite]
    refine ((List.flatMap_append_perm s.queued _ _).symm.trans ?_)
    exact (List.flatMap_append_perm s.queued _ _).symm.append_right _
  have hflight : s.inFlight.filter s.isResident = s.inFlight.filter fun t => t ∈ s.resident := by
    apply List.filter_congr
    intro t _
    rw [Bool.eq_iff_iff, isResident, sortedContains_iff h.resident, decide_eq_true_eq]
  rw [violations, broken, hflight]
  refine List.Perm.append_right _ ?_
  simp only [List.append_assoc] at hqueued ⊢
  exact hqueued.append_left _

end Snapshot

/-- Whether a list holds what has a property, each once and in order. -/
def Enumerates {α : Type} [Ord α] (entries : List α) (p : α → Prop) : Prop :=
  entries.Pairwise (fun a b => compare a b = .lt) ∧ ∀ a, a ∈ entries ↔ p a

theorem Enumerates.ascending {tiles : List Tile} {p : Tile → Prop} (h : Enumerates tiles p) :
    Ascending tiles :=
  h.1.imp Ordering.isLE_of_eq_lt

theorem enumerates_keys {α : Type} (m : TileMap α) : Enumerates m.keys (· ∈ m) :=
  ⟨Std.ExtTreeMap.ordered_keys, fun _ => Std.ExtTreeMap.mem_keys⟩

theorem enumerates_toList {α : Type} [Ord α] [Std.TransOrd α] [Std.LawfulEqOrd α]
    (entries : Std.ExtTreeSet α) : Enumerates entries.toList (· ∈ entries) :=
  ⟨Std.ExtTreeSet.ordered_toList, fun _ => Std.ExtTreeSet.mem_toList⟩

/-- Whether a copy holds what the bookkeeping holds, and answers as it does. -/
structure Snapshot.Depicts {P : Type} (copy : Snapshot) (s : Loading P) : Prop where
  maxLoads : copy.maxLoads = s.maxLoads
  visible : copy.visible = s.visible.size
  queued : Enumerates copy.queued (· ∈ s.queue)
  inFlight : Enumerates copy.inFlight (· ∈ s.inFlight)
  cancelled : Enumerates copy.cancelled (s.inFlight[·]? = some true)
  resident : Enumerates copy.resident (· ∈ s.resident)
  failed : Enumerates copy.failed (· ∈ s.errors)
  missing : Enumerates copy.missing (· ∈ s.missing)
  isQueued_iff : ∀ t, copy.isQueued t = true ↔ t ∈ s.queued
  isInFlight_iff : ∀ t, copy.isInFlight t = true ↔ t ∈ s.inFlight
  isResident_iff : ∀ t, copy.isResident t = true ↔ t ∈ s.resident

namespace Loading

variable {P : Type} {s : Loading P}

theorem enumerates_cancelled (s : Loading P) :
    Enumerates s.snapshot.cancelled (s.inFlight[·]? = some true) := by
  refine ⟨Std.ExtTreeMap.ordered_keys, fun t => ?_⟩
  change t ∈ (s.inFlight.filter fun _ marked => marked).keys ↔ _
  rw [Std.ExtTreeMap.mem_keys, Std.ExtTreeMap.mem_iff_isSome_getElem?,
    Std.ExtTreeMap.getElem?_filter']
  change _ ↔ s.inFlight[t]? = some true
  cases s.inFlight[t]? with
  | none => simp
  | some marked => cases marked <;> simp

theorem Consistent.isQueued_snapshot (h : s.Consistent) (t : Tile) :
    s.snapshot.isQueued t = true ↔ t ∈ s.queued := by
  rw [Snapshot.isQueued, List.any_eq_true]
  constructor
  · rintro ⟨r, hr, htile⟩
    obtain rfl := eq_of_beq htile
    exact of_getElem?_eq_some ((h.mem_queue_iff r).mp (Std.ExtTreeSet.mem_toList.mp hr))
  · intro ht
    have hr := (h.mem_queue_iff ⟨s.queued[t], t⟩).mpr (getElem?_pos s.queued t ht)
    exact ⟨_, Std.ExtTreeSet.mem_toList.mpr hr, beq_self_eq_true t⟩

theorem Consistent.depicts_snapshot (h : s.Consistent) : s.snapshot.Depicts s where
  maxLoads := rfl
  visible := rfl
  queued := enumerates_toList s.queue
  inFlight := enumerates_keys s.inFlight
  cancelled := enumerates_cancelled s
  resident := enumerates_keys s.resident
  failed := enumerates_keys s.errors
  missing := enumerates_toList s.missing
  isQueued_iff := h.isQueued_snapshot
  isInFlight_iff t := (sortedContains_iff (enumerates_keys s.inFlight).ascending t).trans
    Std.ExtTreeMap.mem_keys
  isResident_iff t := (sortedContains_iff (enumerates_keys s.resident).ascending t).trans
    Std.ExtTreeMap.mem_keys

theorem sorted_snapshot (s : Loading P) : s.snapshot.Sorted where
  inFlight := (enumerates_keys s.inFlight).ascending
  resident := (enumerates_keys s.resident).ascending
  missing := (enumerates_toList s.missing).ascending

/-- Bookkeeping whose containers agree breaks no rule. -/
theorem Consistent.valid_snapshot (h : s.Consistent) : s.snapshot.Valid := by
  have hqueued : ∀ r ∈ s.snapshot.queued, r.tile ∈ s.queued := by
    intro r hr
    exact of_getElem?_eq_some ((h.mem_queue_iff r).mp (Std.ExtTreeSet.mem_toList.mp hr))
  constructor
  case inFlight_le => exact Nat.le_trans (Nat.le_of_eq Std.ExtTreeMap.length_keys) h.inFlight_le
  case queued_not_inFlight =>
    intro r hr hmember
    exact h.queued_not_inFlight _ (hqueued r hr) (Std.ExtTreeMap.mem_keys.mp hmember)
  case queued_not_resident =>
    intro r hr hmember
    exact h.queued_not_resident _ (hqueued r hr) (Std.ExtTreeMap.mem_keys.mp hmember)
  case queued_not_missing =>
    intro r hr hmember
    exact h.missing_not_queued _ (Std.ExtTreeSet.mem_toList.mp hmember) (hqueued r hr)
  case inFlight_not_resident =>
    intro t ht hmember
    exact h.inFlight_not_resident t (Std.ExtTreeMap.mem_keys.mp ht)
      (Std.ExtTreeMap.mem_keys.mp hmember)

end Loading

/-- For every copy with sorted lists, of any lengths and with or without repetitions, the check
reports each broken rule as often as it is broken, so it is silent if and only if the copy meets
them all. The copy of the bookkeeping that any operations lead to lists what is in each container,
once and in order, answers as the containers do, and gives the check nothing to report. -/
theorem check_is_exact {P : Type} :
    (∀ copy : Snapshot, copy.Sorted →
      copy.violations.Perm copy.broken ∧ (copy.violations = [] ↔ copy.Valid)) ∧
    ∀ (maxLoads : Nat) (backoff : BackoffPolicy) (operations : List (Loading.Operation P)),
      let s := Loading.reached maxLoads backoff operations
      s.snapshot.Depicts s ∧ s.snapshot.violations = [] := by
  have hexact : ∀ copy : Snapshot, copy.Sorted →
      copy.violations.Perm copy.broken ∧ (copy.violations = [] ↔ copy.Valid) := by
    intro copy hsorted
    have hperm := Snapshot.violations_perm hsorted
    refine ⟨hperm, ?_⟩
    rw [← copy.broken_eq_nil_iff]
    exact ⟨fun hnone => (hnone ▸ hperm).nil_eq.symm, fun hnone => (hnone ▸ hperm).eq_nil⟩
  refine ⟨hexact, fun maxLoads backoff operations => ?_⟩
  have hconsistent := Loading.consistent_reached maxLoads backoff operations
  exact ⟨hconsistent.depicts_snapshot,
    (hexact _ (Loading.sorted_snapshot _)).2.mpr hconsistent.valid_snapshot⟩

/-- A copy that breaks every rule: two loads of a tile in one slot, beside another load. -/
def overlapping : Snapshot :=
  let near : Tile := ⟨0, 0, 0, ⟨0⟩⟩
  let far : Tile := ⟨1, 0, 0, ⟨0⟩⟩
  { maxLoads := 1
    visible := 2
    queued := [⟨0, near⟩, ⟨1, far⟩]
    inFlight := [near, near, far]
    cancelled := []
    resident := [far]
    failed := []
    missing := [near] }

theorem check_is_exact_for_overlap :
    overlapping.Sorted ∧
      overlapping.violations.Perm
        [.overCap 3 1, .queuedInFlight ⟨0, 0, 0, ⟨0⟩⟩, .queuedInFlight ⟨1, 0, 0, ⟨0⟩⟩,
          .queuedResident ⟨1, 0, 0, ⟨0⟩⟩, .queuedMissing ⟨0, 0, 0, ⟨0⟩⟩,
          .inFlightResident ⟨1, 0, 0, ⟨0⟩⟩] := by
  have hsorted : overlapping.Sorted := ⟨by decide, by decide, by decide⟩
  exact ⟨hsorted, ((check_is_exact (P := Unit)).1 overlapping hsorted).1⟩

end MapTiles
