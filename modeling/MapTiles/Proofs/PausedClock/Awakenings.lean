import MapTiles.Proofs.PausedClock

/-!
How often the jobs of a clock can still awake. Each jump of the clock to the next awakening leaves
one awakening less to come, so the jumps that are allowed for are enough, and nobody oversleeps.
-/

namespace MapTiles.PausedClock

variable {timer : Duration → Duration} {c : PausedClock timer}

/-- A job that is asked can awake less often than before, unless it is asked for the first time or
sleeps. -/
theorem sleeps_ask (token : (Runtime.timed timer).Token) (now : Instant)
    (job : Job (.timed timer)) : sleeps (job.ask token now).1 < sleeps (some job) ∨
      sleeps (job.ask token now).1 = sleeps (some job) ∧
        ((∃ label delay, job = .task label delay) ∨ job.Sleeps now) := by
  cases job with
  | task label delay =>
      rw [Job.ask]
      split
      case isTrue => exact .inl Nat.one_pos
      case isFalse =>
        rcases Job.await_cases (Runtime.biased_timed timer) token now label _ with
          hended | ⟨hsame, -⟩
        · rw [hended]
          exact .inl Nat.one_pos
        · rw [hsame]
          exact .inr ⟨rfl, .inl ⟨label, delay, rfl⟩⟩
  | delayed label due =>
      rw [Job.ask]
      rcases Job.await_cases (Runtime.biased_timed timer) token now label due with
        hended | ⟨hsame, hlasts⟩
      · rw [hended]
        exact .inl Nat.one_pos
      · rw [hsame]
        exact .inr ⟨rfl, .inr hlasts⟩
  | future sleep rest =>
      rcases Job.future_cases (Runtime.biased_timed timer) token now sleep rest with
        hended | ⟨hsame, hincomplete⟩
      · rw [hended]
        exact .inl (Nat.succ_pos _)
      · rw [hsame]
        rw [Progress.ask] at hincomplete ⊢
        split at hincomplete
        case isTrue hover =>
          rw [if_pos hover]
          exact .inl (Nat.succ_lt_succ (Progress.length_rest_goOn hincomplete))
        case isFalse hlasts =>
          rw [if_neg hlasts]
          exact .inr ⟨rfl, .inr (eq_false_of_ne_true hlasts)⟩

theorem awakenings_set {jobs : List (Option (Job (.timed timer)))} {n : Nat}
    {job : Option (Job (.timed timer))} (hjob : jobs[n]? = some job)
    (left : Option (Job (.timed timer))) :
    awakenings (jobs.set n left) + sleeps job = awakenings jobs + sleeps left := by
  induction jobs generalizing n with
  | nil => nomatch hjob
  | cons first rest ih =>
      cases n with
      | zero =>
          obtain rfl := Option.some.inj hjob
          simp only [List.set_cons_zero, awakenings]
          omega
      | succ n =>
          have := ih hjob
          simp only [List.set_cons_succ, awakenings]
          omega

theorem awakenings_ask_le (s : HostedScheduler (.timed timer)) (n : Nat) :
    awakenings (s.ask n).jobs ≤ awakenings s.jobs := by
  rw [HostedScheduler.ask]
  split
  case h_1 job hjob =>
    have hset := awakenings_set hjob (job.ask s.token s.now).1
    have hask := sleeps_ask s.token s.now job
    simp only
    omega
  case h_2 => exact Nat.le_refl _

/-- A job that has just awoken is asked. -/
theorem awakenings_ask_lt {s : HostedScheduler (.timed timer)} {n : Nat}
    {job : Job (.timed timer)} (hjob : s.jobs[n]? = some (some job))
    (hstarted : ∀ label delay, job ≠ .task label delay) (hawake : ¬job.Sleeps s.now) :
    awakenings (s.ask n).jobs < awakenings s.jobs := by
  rw [HostedScheduler.ask, hjob]
  have hset := awakenings_set hjob (job.ask s.token s.now).1
  have hask := (sleeps_ask s.token s.now job).resolve_right fun hsame => by
    rcases hsame.2 with ⟨label, delay, htask⟩ | hsleeps
    · exact hstarted label delay htask
    · exact hawake hsleeps
  simp only
  omega

theorem awakenings_foldl_goOn_le (ready : List Nat) (c : PausedClock timer) :
    awakenings (ready.foldl goOn c).scheduler.jobs ≤ awakenings c.scheduler.jobs := by
  induction ready generalizing c with
  | nil => exact Nat.le_refl _
  | cons n rest ih =>
      refine Nat.le_trans (ih (c.goOn n)) ?_
      rw [scheduler_goOn]
      exact awakenings_ask_le c.scheduler n

theorem awakenings_foldl_goOn_lt {ready : List Nat} {n : Nat} {job : Job (.timed timer)}
    (hready : n ∈ ready) (hjob : c.scheduler.jobs[n]? = some (some job))
    (hstarted : ∀ label delay, job ≠ .task label delay) (hawake : ¬job.Sleeps c.scheduler.now) :
    awakenings (ready.foldl goOn c).scheduler.jobs < awakenings c.scheduler.jobs := by
  induction ready generalizing c with
  | nil => nomatch hready
  | cons m rest ih =>
      by_cases hm : m = n
      · subst hm
        refine Nat.lt_of_le_of_lt (awakenings_foldl_goOn_le rest (c.goOn m)) ?_
        rw [scheduler_goOn]
        exact awakenings_ask_lt hjob hstarted hawake
      · have hrest := (List.mem_cons.mp hready).resolve_left (Ne.symm hm)
        refine Nat.lt_of_lt_of_le (ih hrest ?_ ?_) ?_
        · rw [scheduler_goOn, HostedScheduler.getElem?_jobs_ask_of_ne hm]
          exact hjob
        · rw [scheduler_goOn, HostedScheduler.now_ask]
          exact hawake
        · rw [scheduler_goOn]
          exact awakenings_ask_le c.scheduler m

theorem exists_of_awakening? {n : Nat} {due : Instant} (hdue : c.awakening? n = some due) :
    ∃ job, c.scheduler.jobs[n]? = some (some job) ∧
      (∀ label delay, job ≠ .task label delay) ∧ ∀ t, job.Sleeps t ↔ t < due := by
  rw [awakening?] at hdue
  cases hjob : c.scheduler.jobs[n]? with
  | none => simp [hjob] at hdue
  | some entry =>
      rw [hjob] at hdue
      cases entry with
      | none => cases hdue
      | some job =>
          cases job with
          | task => cases hdue
          | delayed label sleep =>
              obtain rfl := Option.some.inj hdue
              exact ⟨_, rfl, (fun _ _ h => by cases h), fun _ => isOver_eq_false_iff⟩
          | future sleep rest =>
              obtain rfl : sleep = some due := hdue
              exact ⟨_, rfl, (fun _ _ h => by cases h), fun _ => isOver_eq_false_iff⟩

/-- After a jump to the next awakening there is one awakening less to come. -/
theorem awakenings_jump_lt {due : Instant} (hnext : c.next? = some due) :
    awakenings (c.moveTo due).wait.scheduler.jobs < awakenings c.scheduler.jobs := by
  obtain ⟨n, hsleeping, hdue⟩ := List.mem_filterMap.mp (List.min?_mem hnext)
  obtain ⟨job, hjob, hstarted, hsleeps_iff⟩ := exists_of_awakening? hdue
  have hready : n ∈ (c.moveTo due).ready :=
    List.mem_append_right _ (List.mem_filter.mpr ⟨hsleeping, by simp [hdue]⟩)
  have hlate : due ≤ c.scheduler.now + (due - c.scheduler.now) :=
    Nat.sub_le_iff_le_add'.mp (Nat.le_refl _)
  exact awakenings_foldl_goOn_lt (c := { c.moveTo due with ready := [] }) hready hjob hstarted
    fun hsleeps => Nat.not_lt.mpr hlate ((hsleeps_iff _).mp hsleeps)

theorem runTo_succ {limit : Nat} (henough : awakenings c.wait.scheduler.jobs ≤ limit)
    (t : Instant) : c.runTo t (limit + 1) = c.runTo t limit := by
  induction limit generalizing c with
  | zero =>
      rw [runTo, runTo]
      split
      case h_1 => rfl
      case h_2 due hnext =>
        exact absurd (Nat.lt_of_lt_of_le (awakenings_jump_lt hnext) henough) (Nat.not_lt_zero _)
  | succ limit ih =>
      rw [runTo, runTo]
      split
      case h_1 => rfl
      case h_2 due hnext =>
        have hfewer := Nat.lt_of_lt_of_le (awakenings_jump_lt hnext) henough
        rw [ih (Nat.le_of_lt_succ hfewer)]

/-- To allow for more jumps makes no difference, so nobody oversleeps while time passes. -/
theorem runTo_eq_elapse {limit : Nat} (henough : awakenings c.scheduler.jobs ≤ limit)
    (d : Duration) : c.runTo (c.scheduler.now + timer d) limit = c.elapse d := by
  obtain ⟨extra, rfl⟩ := Nat.exists_eq_add_of_le henough
  induction extra with
  | zero => rfl
  | succ extra ih =>
      have hwait := awakenings_foldl_goOn_le c.ready { c with ready := [] }
      rw [← ih (Nat.le_add_right _ _)]
      exact runTo_succ (Nat.le_trans hwait (Nat.le_add_right _ _)) _

end MapTiles.PausedClock
