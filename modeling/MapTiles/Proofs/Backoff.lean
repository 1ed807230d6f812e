import MapTiles.Backoff
import Mathlib.Algebra.Group.Nat.Defs

/-!
How the wait for a failed tile grows. It doubles with every failure in a row until it is the longest
that the policy allows. Doubling stops at the longest duration, but no wait gets there before it
gets to that of the policy.
-/

namespace MapTiles

namespace Duration

private theorem lt_carried_iff (d unit count : Nat) (hunit : 0 < unit) :
    d < count * unit ↔ ∃ whole rest, whole < count ∧ rest < unit ∧ d = whole * unit + rest := by
  constructor
  · intro h
    refine ⟨d / unit, d % unit, (Nat.div_lt_iff_lt_mul hunit).mpr h, Nat.mod_lt d hunit, ?_⟩
    rw [Nat.mul_comm, Nat.div_add_mod]
  · rintro ⟨whole, rest, hwhole, hrest, rfl⟩
    calc
      whole * unit + rest < (whole + 1) * unit := by rw [Nat.succ_mul]; omega
      _ ≤ count * unit := Nat.mul_le_mul_right unit hwhole

theorem longest_succ : longest + 1 = 2 ^ 64 * second := by decide

/-- Durations are what seconds in 64 bits and the nanoseconds of a started second can say. -/
theorem le_longest_iff (d : Duration) :
    d ≤ longest ↔ ∃ seconds nanoseconds, seconds < 2 ^ 64 ∧ nanoseconds < second ∧
      d = seconds * second + nanoseconds := by
  rw [← lt_carried_iff d second (2 ^ 64) (by decide), ← longest_succ, Nat.lt_succ_iff]

/-- Doubling carries nanoseconds over to the seconds, and stops once these do not fit. -/
theorem double_eq_carried (seconds nanoseconds : Nat) :
    double (seconds * second + nanoseconds) =
      if 2 * seconds + 2 * nanoseconds / second < 2 ^ 64 then
        (2 * seconds + 2 * nanoseconds / second) * second + 2 * nanoseconds % second
      else longest := by
  have hcarried : 2 * (seconds * second + nanoseconds) =
      (2 * seconds + 2 * nanoseconds / second) * second + 2 * nanoseconds % second := by
    have hparts := Nat.div_add_mod (2 * nanoseconds) second
    grind
  have hrest : 2 * nanoseconds % second < second := Nat.mod_lt _ (by decide)
  rw [double, hcarried]
  split
  case isTrue hfits =>
    exact Nat.min_eq_left ((le_longest_iff _).mpr ⟨_, _, hfits, hrest, rfl⟩)
  case isFalse hfull =>
    have hlarge := Nat.mul_le_mul_right second (Nat.le_of_not_lt hfull)
    apply Nat.min_eq_right
    calc
      longest ≤ longest + 1 := Nat.le_succ longest
      _ = 2 ^ 64 * second := longest_succ
      _ ≤ _ := Nat.le_add_right_of_le hlarge

end Duration

namespace BackoffBounds

/-- The records of failures in a row, the first of which follows `previous`, unless the bounds have
no wait for one of them. -/
def records? (b : BackoffBounds) (previous : Option ErrorRecord) :
    List Instant → Option (List ErrorRecord)
  | [] => some []
  | now :: later => do
    let delay ← b.nextDelay? (previous.map ErrorRecord.delay)
    let record := ErrorRecord.after previous delay now
    let rest ← b.records? (some record) later
    return record :: rest

end BackoffBounds

namespace BackoffPolicy

/-- The wait after a number of failures in a row. -/
def wait (p : BackoffPolicy) (failures : Nat) : Duration :=
  min p.max (p.min * 2 ^ (failures - 1))

theorem min_le_nextDelay (p : BackoffPolicy) (previous : Option Duration) :
    p.min ≤ p.nextDelay previous := by
  cases previous with
  | none => exact Nat.le_refl _
  | some delay => exact Nat.le_min.mpr ⟨Nat.le_max_right _ _, p.min_le_max⟩

theorem nextDelay_le_max (p : BackoffPolicy) (previous : Option Duration) :
    p.nextDelay previous ≤ p.max := by
  cases previous with
  | none => exact p.min_le_max
  | some delay => exact Nat.min_le_right _ _

theorem nextDelay_none (p : BackoffPolicy) : p.nextDelay none = p.wait 1 := by
  have hle := p.min_le_max
  simp only [nextDelay, wait, Nat.sub_self, Nat.pow_zero, Nat.mul_one]
  exact (Nat.min_eq_right hle).symm

private theorem doubled {shortest highest longest delay : Nat} (hle : shortest ≤ highest)
    (hlongest : highest ≤ longest) (hdelay : shortest ≤ delay) :
    min (max (min (2 * min highest delay) longest) shortest) highest = min highest (2 * delay) := by
  omega

/-- Doubling stops at the longest duration, which no wait exceeds. -/
theorem nextDelay_wait (p : BackoffPolicy) (hlongest : p.max ≤ Duration.longest) {failures : Nat}
    (hsome : 0 < failures) : p.nextDelay (some (p.wait failures)) = p.wait (failures + 1) := by
  have hle := p.min_le_max
  have hgrows : p.min ≤ p.min * 2 ^ (failures - 1) :=
    Nat.le_mul_of_pos_right _ (Nat.two_pow_pos _)
  have hdoubles : p.min * 2 ^ failures = 2 * (p.min * 2 ^ (failures - 1)) := by
    obtain ⟨n, rfl⟩ := Nat.exists_eq_succ_of_ne_zero (Nat.ne_of_gt hsome)
    rw [Nat.succ_sub_one, Nat.pow_succ, ← Nat.mul_assoc, Nat.mul_comm]
  simp only [nextDelay, wait, Duration.double, Nat.add_sub_cancel, hdoubles]
  exact doubled hle hlongest hgrows

theorem wait_mono (p : BackoffPolicy) {m n : Nat} (h : m ≤ n) : p.wait m ≤ p.wait n := by
  have hpower : 2 ^ (m - 1) ≤ 2 ^ (n - 1) := Nat.pow_le_pow_right Nat.two_pos (by omega)
  have hgrows := Nat.mul_le_mul_left p.min hpower
  exact Nat.le_min.mpr ⟨Nat.min_le_left _ _, Nat.le_trans (Nat.min_le_right _ _) hgrows⟩

theorem min_le_wait (p : BackoffPolicy) (failures : Nat) : p.min ≤ p.wait failures :=
  Nat.le_min.mpr ⟨p.min_le_max, Nat.le_mul_of_pos_right _ (Nat.two_pow_pos _)⟩

/-- The records of failures in a row, the first of which follows `previous`. -/
def records (p : BackoffPolicy) (previous : Option ErrorRecord) : List Instant → List ErrorRecord
  | [] => []
  | now :: later =>
    let record := p.recordFailure previous now
    record :: p.records (some record) later

/-- A policy has a record for every failure. -/
theorem records?_eq (p : BackoffPolicy) (previous : Option ErrorRecord) (times : List Instant) :
    p.toBackoffBounds.records? previous times = some (p.records previous times) := by
  induction times generalizing previous with
  | nil => rfl
  | cons now later ih =>
      simp only [BackoffBounds.records?, p.nextDelay?_eq, Option.bind_eq_bind, Option.bind_some]
      rw [ih]
      rfl

/-- The record after a number of failures in a row. -/
def recordAfter (p : BackoffPolicy) (failures : Nat) (last : Instant) : ErrorRecord :=
  ⟨last, p.wait failures, min failures ErrorRecord.failureLimit⟩

theorem recordFailure_none (p : BackoffPolicy) (now : Instant) :
    p.recordFailure none now = p.recordAfter 1 now := by
  simp only [recordFailure, recordAfter, Option.map_none, p.nextDelay_none]
  rfl

theorem recordFailure_recordAfter (p : BackoffPolicy) (hlongest : p.max ≤ Duration.longest)
    {failures : Nat} (hsome : 0 < failures) (last now : Instant) :
    p.recordFailure (some (p.recordAfter failures last)) now =
      p.recordAfter (failures + 1) now := by
  have hcount : Nat.min (min failures ErrorRecord.failureLimit + 1) ErrorRecord.failureLimit =
      min (failures + 1) ErrorRecord.failureLimit := by
    have hmin (a b : Nat) : Nat.min a b = min a b := rfl
    rw [hmin]
    omega
  have hdelay := p.nextDelay_wait hlongest hsome
  simp only [recordFailure, recordAfter, ErrorRecord.after, Option.map_some, hdelay, hcount]

/-- Each of the failures that follow others is recorded with its number. -/
theorem records_recordAfter (p : BackoffPolicy) (hlongest : p.max ≤ Duration.longest)
    {failures : Nat} (hsome : 0 < failures) (last : Instant) (times : List Instant) :
    p.records (some (p.recordAfter failures last)) times =
      times.mapIdx fun n now => p.recordAfter (failures + 1 + n) now := by
  induction times generalizing failures last with
  | nil => rfl
  | cons now later ih =>
      simp only [records, p.recordFailure_recordAfter hlongest hsome, List.mapIdx_cons,
        ih (Nat.succ_pos failures)]
      congr 1
      apply congrArg (List.mapIdx · later)
      funext n time
      rw [Nat.add_right_comm _ 1 n, Nat.add_assoc _ n 1]

theorem records_none (p : BackoffPolicy) (hlongest : p.max ≤ Duration.longest)
    (times : List Instant) :
    p.records none times = times.mapIdx fun n now => p.recordAfter (n + 1) now := by
  cases times with
  | nil => rfl
  | cons now later =>
      simp only [records, p.recordFailure_none, p.records_recordAfter hlongest Nat.one_pos,
        List.mapIdx_cons]
      congr 1
      apply congrArg (List.mapIdx · later)
      funext n time
      rw [Nat.add_comm (1 + 1) n]

/-- Whatever the bounds, crossed ones included, and whenever the failures take place, there is a
record for each of them. Its wait is the lower bound doubled once for every failure before it, up
to the larger bound, and it counts the failures so far, up to the limit of the counter. So waits
never get shorter, and stay between the lower bound and the larger one. -/
theorem waits_double (shortest longest : Duration) (hshortest : shortest ≤ Duration.longest)
    (hlongest : longest ≤ Duration.longest) (times : List Instant) :
    let p := between shortest longest
    let records := p.records none times
    p.toBackoffBounds.records? none times = some records ∧
      records = times.mapIdx (fun n now =>
        ⟨now, min (shortest * 2 ^ n) (max shortest longest), min (n + 1) (2 ^ 32 - 1)⟩) ∧
      records.Pairwise (fun r s => r.delay ≤ s.delay) ∧
      ∀ r ∈ records, shortest ≤ r.delay ∧ r.delay ≤ max shortest longest := by
  intro p records
  have hmax : p.max = max shortest longest := Nat.max_comm longest shortest
  have hrepresented : p.max ≤ Duration.longest := hmax ▸ Nat.max_le.mpr ⟨hshortest, hlongest⟩
  have hrecords : records = times.mapIdx fun n now => p.recordAfter (n + 1) now :=
    p.records_none hrepresented times
  refine ⟨p.records?_eq none times, ?_, ?_, ?_⟩
  · rw [hrecords]
    apply congrArg (List.mapIdx · times)
    funext n now
    rw [recordAfter, wait, hmax, Nat.add_sub_cancel, Nat.min_comm]
    rfl
  · rw [hrecords, List.pairwise_iff_getElem]
    intro i j hi hj hij
    simp only [List.getElem_mapIdx]
    exact p.wait_mono (Nat.succ_le_succ (Nat.le_of_lt hij))
  · intro r hr
    rw [hrecords] at hr
    obtain ⟨n, hn, rfl⟩ := List.mem_mapIdx.mp hr
    exact ⟨p.min_le_wait _, hmax ▸ Nat.min_le_left _ _⟩

/-- Twice the lower bound is less than the longest duration, and four times the lower bound more. -/
theorem waits_double_to_longest :
    let shortest : Duration := 2 ^ 62 * Duration.second
    shortest ≤ Duration.longest ∧ Duration.longest ≤ Duration.longest ∧
      (between shortest Duration.longest).records none [7, 3, 9] =
        [⟨7, shortest, 1⟩, ⟨3, 2 * shortest, 2⟩, ⟨9, Duration.longest, 3⟩] := by
  intro shortest
  have hshortest : shortest ≤ Duration.longest := by decide
  obtain ⟨-, hrecords, -, -⟩ :=
    waits_double shortest Duration.longest hshortest Nat.le.refl [7, 3, 9]
  refine ⟨hshortest, Nat.le.refl, hrecords.trans ?_⟩
  decide

end BackoffPolicy

end MapTiles
