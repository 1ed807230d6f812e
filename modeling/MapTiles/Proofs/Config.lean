import MapTiles.Config
import Mathlib.Logic.Basic

/-!
The rules for settings as one statement. Settings without a fault are those that meet every rule,
and only these are let through.
-/

namespace MapTiles.Config

variable {c config : Config}

/-- Whether settings meet every rule. -/
structure Sound (c : Config) : Prop where
  maxLoads_pos : 1 ≤ c.maxLoads
  buckets_pos : 1 ≤ c.buckets
  minBackoff_pos : 0 < c.minBackoff
  minBackoff_le : c.minBackoff ≤ c.maxBackoff

theorem fault?_eq_none_iff : c.fault? = none ↔ c.Sound := by
  constructor
  · intro h
    rw [fault?] at h
    split at h
    · cases h
    · rename_i hloads
      split at h
      · cases h
      · rename_i hbuckets
        split at h
        · cases h
        · rename_i hmin
          split at h
          · cases h
          · rename_i hle
            exact ⟨Nat.pos_of_ne_zero hloads, Nat.pos_of_ne_zero hbuckets, Nat.pos_of_ne_zero hmin,
              Nat.le_of_not_lt hle⟩
  · rintro ⟨hloads, hbuckets, hmin, hle⟩
    rw [fault?, if_neg (Nat.ne_of_gt hloads), if_neg (Nat.ne_of_gt hbuckets),
      if_neg (Nat.ne_of_gt hmin), if_neg (Nat.not_lt_of_le hle)]

theorem validate_eq_ok_iff : c.validate = .ok config ↔ c.Sound ∧ config = c := by
  rw [← fault?_eq_none_iff, validate]
  cases c.fault? with
  | none => exact ⟨fun h => ⟨rfl, (Except.ok.inj h).symm⟩, fun h => congrArg Except.ok h.2.symm⟩
  | some fault => exact ⟨nofun, fun h => nomatch h.1⟩

end MapTiles.Config
