import MapTiles.PausedClock
import MapTiles.Proofs.HostedScheduler.Sleeping

/-!
Every course of a paused clock is a run of the scheduler under it, in which jobs are asked and time
passes between what the owner does. A job that is not over can go on or sleeps, so none can go on
when the owner has waited.
-/

namespace MapTiles

namespace PausedClock

variable {timer : Duration → Duration} {c : PausedClock timer}

/-- Whether every job that is not over is about to be asked or sleeps. -/
def Attended (c : PausedClock timer) (ready : List Nat) : Prop :=
  ∀ n job, c.scheduler.jobs[n]? = some (some job) →
    n ∈ ready ∨ n ∈ c.sleeping ∧ job.Sleeps c.scheduler.now

theorem Attended.mono (hc : c.Attended []) (ready : List Nat) : c.Attended ready :=
  fun n job hjob => .inr ((hc n job hjob).resolve_left List.not_mem_nil)

theorem isOver_eq_false_iff {due t : Instant} :
    (Runtime.timed timer).isOver due t = false ↔ t < due :=
  decide_eq_false_iff_not.trans Nat.not_le

/-- A job sleeps until it awakes. -/
theorem awakening?_of_sleeps {n : Nat} {job : Job (.timed timer)} {now : Instant}
    (hjob : c.scheduler.jobs[n]? = some (some job)) (hsleeps : job.Sleeps now) :
    ∃ due : Instant, c.awakening? n = some due ∧ ∀ t, job.Sleeps t ↔ t < due := by
  rw [awakening?, hjob]
  cases job with
  | task => exact hsleeps.elim
  | delayed label due => exact ⟨due, rfl, fun _ => isOver_eq_false_iff⟩
  | future sleep rest =>
      cases sleep with
      | none => nomatch hsleeps
      | some due => exact ⟨due, rfl, fun _ => isOver_eq_false_iff⟩

theorem scheduler_goOn (n : Nat) : (c.goOn n).scheduler = c.scheduler.ask n := by
  simp only [goOn]
  split <;> rfl

theorem mem_sleeping_goOn {n m : Nat} (hm : m ∈ c.sleeping) : m ∈ (c.goOn n).sleeping := by
  simp only [goOn]
  split
  case isTrue => exact List.mem_append_left _ hm
  case isFalse => exact hm

theorem mem_sleeping_goOn_self {n : Nat} {job : Job (.timed timer)}
    (hjob : (c.goOn n).scheduler.jobs[n]? = some (some job))
    (hsleeps : job.Sleeps (c.goOn n).scheduler.now) : n ∈ (c.goOn n).sleeping := by
  rw [scheduler_goOn] at hjob hsleeps
  obtain ⟨due, hdue, -⟩ :=
    awakening?_of_sleeps (c := { c with scheduler := c.scheduler.ask n }) hjob hsleeps
  rw [goOn, if_pos (Option.isSome_of_eq_some hdue)]
  exact List.mem_append_right _ (List.mem_singleton_self n)

/-- A job that goes on is over or falls asleep, and the others stay as they are. -/
theorem Attended.goOn {n : Nat} {rest : List Nat} (hc : c.Attended (n :: rest)) :
    (c.goOn n).Attended rest := by
  intro m job hjob
  by_cases hm : m = n
  · subst hm
    have hsleeps : job.Sleeps (c.goOn m).scheduler.now := by
      rw [scheduler_goOn] at hjob ⊢
      obtain ⟨asked, -, hleft⟩ := HostedScheduler.exists_of_getElem?_jobs_ask hjob
      rw [HostedScheduler.now_ask]
      exact Job.sleeps_of_ask (Runtime.biased_timed timer) hleft
    exact .inr ⟨mem_sleeping_goOn_self hjob hsleeps, hsleeps⟩
  · rw [scheduler_goOn, HostedScheduler.getElem?_jobs_ask_of_ne (Ne.symm hm)] at hjob
    rw [scheduler_goOn, HostedScheduler.now_ask]
    rcases hc m job hjob with hready | ⟨hsleeping, hsleeps⟩
    · exact .inl ((List.mem_cons.mp hready).resolve_left hm)
    · exact .inr ⟨mem_sleeping_goOn hsleeping, hsleeps⟩

theorem becomes_foldl_goOn (ready : List Nat) (c : PausedClock timer) :
    c.scheduler.Becomes (ready.foldl PausedClock.goOn c).scheduler := by
  induction ready generalizing c with
  | nil => exact .refl _
  | cons n rest ih =>
      have hfirst := HostedScheduler.Becomes.ask c.scheduler n
      rw [← scheduler_goOn] at hfirst
      exact hfirst.trans (ih (c.goOn n))

theorem becomes_wait (c : PausedClock timer) : c.scheduler.Becomes c.wait.scheduler :=
  becomes_foldl_goOn c.ready { c with ready := [] }

theorem becomes_runTo (c : PausedClock timer) (t : Instant) (limit : Nat) :
    c.scheduler.Becomes (c.runTo t limit).scheduler := by
  have hmove (due : Instant) : c.scheduler.Becomes (c.wait.moveTo due).scheduler :=
    (becomes_wait c).trans (.pass _ _)
  induction limit generalizing c with
  | zero => exact hmove t
  | succ limit ih =>
      rw [runTo]
      split
      case h_1 => exact hmove t
      case h_2 due _ =>
        split
        case isTrue => exact (hmove due).trans (ih _ fun _ => (becomes_wait _).trans (.pass _ _))
        case isFalse => exact hmove t

theorem attended_foldl_goOn {ready : List Nat} (hc : c.Attended ready) :
    (ready.foldl PausedClock.goOn c).Attended [] := by
  induction ready generalizing c with
  | nil => exact hc
  | cons n rest ih => exact ih hc.goOn

/-- Nobody is left who could go on when the owner has waited. -/
theorem attended_wait (hc : c.Attended c.ready) : c.wait.Attended [] :=
  attended_foldl_goOn (c := { c with ready := [] }) hc

theorem Attended.idle (hrunning : c.scheduler.isStopped = false) (hc : c.Attended []) :
    c.scheduler.Idle := by
  intro n
  rw [HostedScheduler.ask]
  split
  case h_1 job hjob =>
    have hsleeps := ((hc n job hjob).resolve_left List.not_mem_nil).2
    rw [Job.ask_of_sleeps (Runtime.biased_timed timer) hrunning hsleeps]
    obtain ⟨hlength, hget⟩ := List.getElem?_eq_some_iff.mp hjob
    simp only [List.map_nil, List.append_nil, ← hget, List.set_getElem_self]
  case h_2 => rfl

/-- Those who awake can go on, and the others sleep on. -/
theorem Attended.moveTo (hc : c.Attended []) (t : Instant) :
    (c.moveTo t).Attended (c.moveTo t).ready := by
  intro n job hjob
  obtain ⟨hsleeping, hsleeps⟩ := (hc n job hjob).resolve_left List.not_mem_nil
  obtain ⟨due, hdue, hsleeps_iff⟩ := awakening?_of_sleeps (c := c) hjob hsleeps
  have hlater := (hsleeps_iff _).mp hsleeps
  by_cases hearlier : t < due
  · refine .inr ⟨List.mem_filter.mpr ⟨hsleeping, by simp [hdue, hearlier]⟩, ?_⟩
    rw [hsleeps_iff]
    change c.scheduler.now + (t - c.scheduler.now) < due
    rcases Nat.le_total c.scheduler.now t with hforward | hback
    · rw [Nat.add_sub_of_le hforward]
      exact hearlier
    · rw [Nat.sub_eq_zero_of_le hback]
      exact hlater
  · refine .inl (List.mem_append_right _ (List.mem_filter.mpr ⟨hsleeping, ?_⟩))
    simp [hdue, hearlier]

theorem attended_runTo (hc : c.Attended c.ready) (t : Instant) (limit : Nat) :
    (c.runTo t limit).Attended (c.runTo t limit).ready := by
  induction limit generalizing c with
  | zero => exact (attended_wait hc).moveTo t
  | succ limit ih =>
      have hwait := attended_wait hc
      rw [runTo]
      split
      case h_1 => exact hwait.moveTo t
      case h_2 due _ =>
        split
        case isTrue => exact ih (hwait.moveTo due)
        case isFalse => exact hwait.moveTo t

theorem attended_add (hc : c.Attended c.ready) (job : Job (.timed timer)) :
    (c.add job).Attended (c.add job).ready := by
  intro n other hother
  simp only [add, HostedScheduler.add] at hother ⊢
  cases hstopped : c.scheduler.isStopped with
  | true =>
      simp only [hstopped, if_true, List.append_nil] at hother ⊢
      exact hc n other hother
  | false =>
      simp only [hstopped, Bool.false_eq_true, if_false, List.getElem?_append] at hother ⊢
      split at hother
      case isTrue =>
        rcases hc n other hother with hready | hsleeps
        · exact .inl (List.mem_append_left _ hready)
        · exact .inr hsleeps
      case isFalse hnew =>
        rw [List.getElem?_singleton, Option.ite_none_right_eq_some] at hother
        have hlast : n = c.scheduler.jobs.length := by omega
        exact .inl (List.mem_append_right _ (List.mem_singleton.mpr hlast))

theorem attended_shutdown (hc : c.Attended c.ready) : c.shutdown.Attended c.shutdown.ready := by
  rw [shutdown, HostedScheduler.shutdown]
  split <;> exact hc

/-- What the owner of a clock does. -/
inductive Operation where
  | task (label : String) (delay : Duration)
  | future (stages : List Stage)
  | shutdown
  | wait
  | elapse (time : Duration)

def apply (c : PausedClock timer) : Operation → PausedClock timer
  | .task label delay => c.add (.task label delay)
  | .future stages => c.add (.future none stages)
  | .shutdown => c.shutdown
  | .wait => c.wait
  | .elapse time => c.elapse time

/-- The clock after operations. -/
def run (timer : Duration → Duration) (operations : List Operation) : PausedClock timer :=
  operations.foldl apply (start timer)

/-- The step that the owner takes by an operation, unless he waits or lets time pass. -/
def Operation.step? : Operation → Option HostedScheduler.Step
  | .task label delay => some (.task label delay)
  | .future stages => some (.future stages)
  | .shutdown => some .shutdown
  | .wait => none
  | .elapse _ => none

theorem scheduler_apply (c : PausedClock timer) (operation : Operation) :
    match operation.step? with
    | some step => (c.apply operation).scheduler = c.scheduler.apply step ∧ step.isPassive = false
    | none => c.scheduler.Becomes (c.apply operation).scheduler := by
  cases operation with
  | task | future | shutdown => exact ⟨rfl, rfl⟩
  | wait => exact becomes_wait c
  | elapse time => exact becomes_runTo c _ _

/-- The scheduler under a clock runs, and its owner does what the owner of the clock does. -/
theorem exists_run_eq (timer : Duration → Duration) (operations : List Operation) :
    ∃ steps : List HostedScheduler.Step,
      (run timer operations).scheduler = HostedScheduler.run (.timed timer) steps ∧
        steps.filter (fun step => !step.isPassive) = operations.filterMap Operation.step? := by
  induction operations using List.reverseRecOn with
  | nil => exact ⟨[], rfl, rfl⟩
  | append_singleton operations operation ih =>
      obtain ⟨steps, hrun, hsteps⟩ := ih
      have happly := scheduler_apply (run timer operations) operation
      rw [run, List.foldl_append, List.filterMap_append]
      cases hstep : operation.step? with
      | some step =>
          rw [hstep] at happly
          refine ⟨steps ++ [step], ?_, ?_⟩
          · rw [HostedScheduler.run, List.foldl_append]
            exact happly.1.trans (congrArg (fun s => s.apply step) hrun)
          · rw [List.filter_append, hsteps]
            simp [happly.2, hstep]
      | none =>
          rw [hstep] at happly
          obtain ⟨more, hmore, hbecomes⟩ := happly
          refine ⟨steps ++ more, ?_, ?_⟩
          · rw [HostedScheduler.run, List.foldl_append, ← HostedScheduler.run, ← hrun]
            exact hbecomes.symm
          · have hnone : more.filter (fun step => !step.isPassive) = [] :=
              List.filter_eq_nil_iff.mpr fun step hmem => by simp [hmore step hmem]
            rw [List.filter_append, hsteps, hnone]
            simp [hstep]

/-- In every course each job that is not over is about to be asked or sleeps. -/
theorem attended_run (timer : Duration → Duration) (operations : List Operation) :
    (run timer operations).Attended (run timer operations).ready := by
  induction operations using List.reverseRecOn with
  | nil => exact fun n job hjob => nomatch hjob
  | append_singleton operations operation ih =>
      rw [run, List.foldl_append]
      cases operation with
      | task | future => exact attended_add ih _
      | shutdown => exact attended_shutdown ih
      | wait => exact (attended_wait ih).mono _
      | elapse time => exact attended_runTo ih _ _

theorem isStopped_run (timer : Duration → Duration) {operations : List Operation}
    (hgoes : .shutdown ∉ operations) : (run timer operations).scheduler.isStopped = false := by
  induction operations using List.reverseRecOn with
  | nil => rfl
  | append_singleton operations operation ih =>
      rw [List.mem_append, List.mem_singleton, not_or] at hgoes
      have hrunning := ih hgoes.1
      rw [run, List.foldl_append]
      cases operation with
      | task | future =>
          exact (congrArg _ (HostedScheduler.add_of_running hrunning _)).trans hrunning
      | shutdown => exact absurd rfl hgoes.2
      | wait => exact (becomes_wait _).isStopped_eq.trans hrunning
      | elapse time => exact (becomes_runTo _ _ _).isStopped_eq.trans hrunning

/-- No job can go on when the owner has waited, unless the jobs were shut down. -/
theorem idle_run_wait (timer : Duration → Duration) {operations : List Operation}
    (hgoes : .shutdown ∉ operations) : (run timer (operations ++ [.wait])).scheduler.Idle := by
  have hstays : (.shutdown : Operation) ∉ operations ++ [.wait] := by
    rw [List.mem_append, List.mem_singleton, not_or]
    exact ⟨hgoes, nofun⟩
  refine Attended.idle (isStopped_run timer hstays) ?_
  rw [run, List.foldl_append]
  exact attended_wait (attended_run timer operations)

end PausedClock

end MapTiles
