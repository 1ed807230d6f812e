import MapTiles.Proofs.HostedScheduler

/-!
The end of a scheduler by a shutdown, after which its jobs do nothing, and what its tasks do without
one: it only depends on the times at which a task was asked whether it has run, and when.
-/

namespace MapTiles.HostedScheduler

variable {R : Runtime} {s : HostedScheduler R} {n : Nat} {label : String} {delay : Duration}
  {times : List Instant}

/-- When a task runs that is asked at these times: the first time at which its delay, which counts
from the first one, is over. -/
def ripe? (delay : Duration) (times : List Instant) : Option Instant :=
  times.head?.bind fun first => times.find? fun t => first + delay ≤ t

theorem ripe?_append {first : Instant} (hfirst : times.head? = some first) (now : Instant) :
    ripe? delay (times ++ [now]) =
      (ripe? delay times).or (if first + delay ≤ now then some now else none) := by
  obtain ⟨rest, rfl⟩ := List.head?_eq_some_iff.mp hfirst
  change (first :: rest ++ [now]).find? (fun t => first + delay ≤ t) = _
  rw [List.find?_append, List.find?_singleton]
  simp only [decide_eq_true_eq]
  rfl

theorem ripe?_singleton (now : Instant) :
    ripe? delay [now] = if now + delay ≤ now then some now else none := by
  change [now].find? (fun t => now + delay ≤ t) = _
  rw [List.find?_singleton]
  simp only [decide_eq_true_eq]

/-- What a task has become that was asked at these times. -/
def left (R : Runtime) (label : String) (delay : Duration) (times : List Instant) :
    Option (Job R) :=
  match times.head?, ripe? delay times with
  | none, _ => some (.task label delay)
  | some first, none => some (.delayed label (R.sleep delay first))
  | some _, some _ => none

/-- A scheduler with a task that was asked at these times. -/
structure Holds (s : HostedScheduler R) (n : Nat) (label : String) (delay : Duration)
    (times : List Instant) : Prop where
  running : s.isStopped = false
  job_eq : s.jobs[n]? = some (left R label delay times)
  log_eq : s.log.filter (fun deed => deed.job = n) =
    (ripe? delay times).toList.map fun t => ⟨n, label, t⟩

/-- A task that has not run is asked. It runs now if its delay is over. -/
theorem Holds.ask_of_due {first : Instant} {job : Job R} (hrunning : s.isStopped = false)
    (hjob : s.jobs[n]? = some (some job))
    (hlog : s.log.filter (fun deed => deed.job = n) = [])
    (hask : job.ask s.token s.now = if first + delay ≤ s.now then (none, [label])
      else (some (.delayed label (R.sleep delay first)), []))
    (hfirst : times.head? = some first)
    (hripe : ripe? delay times = if first + delay ≤ s.now then some s.now else none) :
    (s.ask n).Holds n label delay times := by
  have hlength := (List.getElem?_eq_some_iff.mp hjob).1
  rw [ask, hjob]
  simp only [hask]
  by_cases hdue : first + delay ≤ s.now
  · rw [if_pos hdue] at hripe
    refine ⟨hrunning, ?_, ?_⟩
    · simp only [left, hfirst, hripe, if_pos hdue, List.getElem?_set_self hlength]
    · simp only [hripe, if_pos hdue, List.filter_append, hlog]
      simp
  · rw [if_neg hdue] at hripe
    refine ⟨hrunning, ?_, ?_⟩
    · simp only [left, hfirst, hripe, if_neg hdue, List.getElem?_set_self hlength]
    · simp only [hripe, if_neg hdue, List.filter_append, hlog]
      simp

theorem Holds.ask_self (h : R.Sound) (hs : s.Holds n label delay times) :
    (s.ask n).Holds n label delay (times ++ [s.now]) := by
  have hjob := hs.job_eq
  have hlog := hs.log_eq
  cases hfirst : times.head? with
  | none =>
      -- it is asked for the first time
      obtain rfl := List.head?_eq_none_iff.mp hfirst
      exact .ask_of_due hs.running hjob hlog (Job.task_of_running h hs.running s.now) rfl
        (ripe?_singleton s.now)
  | some first =>
      have happend : ripe? delay (times ++ [s.now]) = _ := ripe?_append hfirst s.now
      have hhead : (times ++ [s.now]).head? = some first := by
        rw [List.head?_append, hfirst]
        rfl
      cases hripe : ripe? delay times with
      | none =>
          -- it waits for its delay
          rw [left, hfirst, hripe] at hjob
          rw [hripe] at hlog happend
          exact .ask_of_due hs.running hjob hlog
            (Job.await_of_running h hs.running first s.now) hhead happend
      | some t =>
          -- it has run
          rw [left, hfirst, hripe] at hjob
          rw [hripe] at hlog happend
          have hover : s.ask n = s := by rw [ask, hjob]
          rw [hover]
          refine ⟨hs.running, ?_, ?_⟩
          · rw [hjob, left, hhead, happend]
            rfl
          · rw [hlog, happend]
            rfl

theorem Holds.ask_other (hs : s.Holds n label delay times) {m : Nat} (hother : m ≠ n) :
    (s.ask m).Holds n label delay times := by
  refine ⟨(congrArg R.isCancelled (token_ask m)).trans hs.running, ?_, ?_⟩
  · rw [getElem?_jobs_ask_of_ne hother, hs.job_eq]
  · rw [← hs.log_eq, ask]
    split
    case h_1 =>
      rw [List.filter_append, List.append_right_eq_self, List.filter_eq_nil_iff]
      intro deed hdeed
      obtain ⟨label, -, rfl⟩ := List.mem_map.mp hdeed
      exact fun hsame => hother (of_decide_eq_true hsame)
    case h_2 => rfl

theorem Holds.add (hs : s.Holds n label delay times) (job : Job R) :
    (s.add job).Holds n label delay times := by
  rw [add_of_running hs.running]
  refine ⟨hs.running, ?_, hs.log_eq⟩
  rw [← hs.job_eq]
  exact List.getElem?_append_left (List.getElem?_eq_some_iff.mp hs.job_eq).1

theorem Holds.apply (h : R.Sound) (hs : s.Holds n label delay times) {step : Step}
    (hgoes : step ≠ .shutdown) :
    (s.apply step).Holds n label delay (times ++ Step.asked n s.now [step]) := by
  cases step with
  | task | future =>
      rw [Step.asked, Step.asked, List.append_nil]
      exact hs.add _
  | shutdown => exact absurd rfl hgoes
  | ask m =>
      rw [Step.asked, Step.asked]
      split
      case isTrue hsame =>
        subst hsame
        exact hs.ask_self h
      case isFalse hother =>
        rw [List.append_nil]
        exact hs.ask_other hother
  | pass time =>
      rw [Step.asked, Step.asked, List.append_nil]
      exact ⟨hs.running, hs.job_eq, hs.log_eq⟩

theorem Holds.foldl (h : R.Sound) (hs : s.Holds n label delay times) {steps : List Step}
    (hgoes : .shutdown ∉ steps) :
    (steps.foldl HostedScheduler.apply s).Holds n label delay
      (times ++ Step.asked n s.now steps) := by
  induction steps generalizing s times with
  | nil =>
      rw [Step.asked, List.append_nil]
      exact hs
  | cons step rest ih =>
      rw [List.mem_cons, not_or] at hgoes
      have hrest := ih (hs.apply h (Ne.symm hgoes.1)) hgoes.2
      rw [now_apply, List.append_assoc, ← Step.asked_cons] at hrest
      exact hrest

/-- A future is added. -/
def early : List Step :=
  [.future [.act "first", .sleep 5, .act "second"]]

/-- It awakes at the same time as a task, while another task sleeps and a third one was just
added. -/
def tied : List Step :=
  [.ask 0, .task "later" 9, .ask 1, .ask 2, .pass 5, .task "new" 0]

end MapTiles.HostedScheduler
