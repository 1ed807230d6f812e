import MapTiles.HostedScheduler
import Mathlib.Data.List.Induction

/-!
What a scheduler relies on of a runtime, and what becomes of its jobs step by step. The runtime asks
them in any order and any number of times. After a shutdown a job that is asked does nothing,
however far it had come.
-/

namespace MapTiles

variable {R : Runtime}

namespace Runtime

/-- A choice takes the first branch that is ready, and leaves the one behind it alone. -/
def Biased (R : Runtime) : Prop :=
  ∀ {σ : Type} (first second : σ → Bool × σ) (x : σ), R.select first second x =
    if (first x).1 then (some .first, (first x).2)
    else if (second (first x).2).1 then (some .second, (second (first x).2).2)
    else (none, (second (first x).2).2)

/-- What is relied on of a runtime. Its token is not cancelled at first, and it stays cancelled. A
sleep is over when its time has passed and never before. -/
structure Sound (R : Runtime) : Prop where
  biased : R.Biased
  fresh : R.isCancelled R.token = false
  stays_cancelled : ∀ token, R.isCancelled (R.cancel token) = true
  never_early : ∀ {length : Duration} {since now : Instant},
    R.isOver (R.sleep length since) now = true → since + length ≤ now
  in_time : ∀ {length : Duration} {since now : Instant},
    since + length ≤ now → R.isOver (R.sleep length since) now = true

theorem biased_timed (timer : Duration → Duration) : (timed timer).Biased := by
  intro σ first second x
  simp only [timed]
  split <;> split <;> simp_all

theorem Sound.isOver_sleep (h : R.Sound) (length : Duration) (since now : Instant) :
    R.isOver (R.sleep length since) now = decide (since + length ≤ now) :=
  Bool.eq_iff_iff.mpr ⟨fun hover => decide_eq_true (h.never_early hover),
    fun hpast => h.in_time (of_decide_eq_true hpast)⟩

end Runtime

namespace Job

variable {token : R.Token} {label : String} {delay : Duration}

theorem finish_of_running (hrunning : R.isCancelled token = false) :
    (finish token label : Option (Job R) × List String) = (none, [label]) := by
  rw [finish, if_neg (ne_true_of_eq_false hrunning)]

theorem await_of_running (h : R.Sound) (hrunning : R.isCancelled token = false)
    (since now : Instant) : await token now label (R.sleep delay since) =
      if since + delay ≤ now then (none, [label])
      else (some (.delayed label (R.sleep delay since)), []) := by
  simp only [await, h.biased, hrunning, h.isOver_sleep, decide_eq_true_eq]
  by_cases hpast : since + delay ≤ now
  · simp [hpast, finish_of_running hrunning]
  · simp [hpast]

theorem task_of_running (h : R.Sound) (hrunning : R.isCancelled token = false)
    (now : Instant) : (task label delay).ask token now =
      if now + delay ≤ now then (none, [label])
      else (some (.delayed label (R.sleep delay now)), []) := by
  rw [ask, finish_of_running hrunning, await_of_running h hrunning]
  by_cases hdelay : delay = 0
  · subst hdelay
    simp
  · rw [if_neg hdelay]

end Job

namespace HostedScheduler

variable {s : HostedScheduler R}

/-- What a scheduler meets: work that is added, a shutdown, a job that is asked by the runtime, and
time that passes. -/
inductive Step where
  | task (label : String) (delay : Duration)
  | future (stages : List Stage)
  | shutdown
  | ask (n : Nat)
  | pass (time : Duration)
deriving DecidableEq

namespace Step

/-- Whether a job is added. -/
def adds : Step → Bool
  | .task .. => true
  | .future _ => true
  | _ => false

/-- The time that passes. -/
def time : Step → Duration
  | .pass time => time
  | _ => 0

/-- The number of jobs that are added. -/
def added (steps : List Step) : Nat :=
  steps.countP adds

/-- The time that passes in all. -/
def elapsed : List Step → Duration
  | [] => 0
  | step :: rest => step.time + elapsed rest

/-- When a job is asked, if the first step takes place at `t`. -/
def asked (n : Nat) : Instant → List Step → List Instant
  | _, [] => []
  | t, .ask m :: rest => if m = n then t :: asked n t rest else asked n t rest
  | t, .pass time :: rest => asked n (t + time) rest
  | t, .task .. :: rest => asked n t rest
  | t, .future _ :: rest => asked n t rest
  | t, .shutdown :: rest => asked n t rest

theorem elapsed_append (steps more : List Step) :
    elapsed (steps ++ more) = elapsed steps + elapsed more := by
  induction steps with
  | nil => exact (Nat.zero_add _).symm
  | cons step rest ih => rw [List.cons_append, elapsed, elapsed, ih, Nat.add_assoc]

theorem asked_cons (n : Nat) (t : Instant) (step : Step) (rest : List Step) :
    asked n t (step :: rest) = asked n t [step] ++ asked n (t + step.time) rest := by
  cases step with
  | ask m =>
      rw [asked, asked, asked]
      split <;> rfl
  | task | future | shutdown | pass => rfl

end Step

def apply (s : HostedScheduler R) : Step → HostedScheduler R
  | .task label delay => s.add (.task label delay)
  | .future stages => s.add (.future none stages)
  | .shutdown => s.shutdown
  | .ask n => s.ask n
  | .pass time => s.pass time

/-- The scheduler after some steps. -/
def run (R : Runtime) (steps : List Step) : HostedScheduler R :=
  steps.foldl apply (start R)

/-- Whether no job can go on: if one is asked, then nothing changes. -/
def Idle (s : HostedScheduler R) : Prop :=
  ∀ n, s.ask n = s

section Asking

theorem token_ask (n : Nat) : (s.ask n).token = s.token := by
  rw [ask]
  split <;> rfl

theorem now_ask (n : Nat) : (s.ask n).now = s.now := by
  rw [ask]
  split <;> rfl

theorem length_jobs_ask (n : Nat) : (s.ask n).jobs.length = s.jobs.length := by
  rw [ask]
  split
  case h_1 => exact List.length_set
  case h_2 => rfl

theorem getElem?_jobs_ask_of_ne {n m : Nat} (hother : m ≠ n) :
    (s.ask m).jobs[n]? = s.jobs[n]? := by
  rw [ask]
  split
  case h_1 => exact List.getElem?_set_ne hother
  case h_2 => rfl

/-- What is left of a job that was asked. -/
theorem exists_of_getElem?_jobs_ask {n : Nat} {left : Job R}
    (hleft : (s.ask n).jobs[n]? = some (some left)) :
    ∃ job, s.jobs[n]? = some (some job) ∧ (job.ask s.token s.now).1 = some left := by
  rw [ask] at hleft
  split at hleft
  case h_1 job hjob =>
    have hlength := (List.getElem?_eq_some_iff.mp hjob).1
    rw [List.getElem?_set_self hlength] at hleft
    exact ⟨job, hjob, Option.some.inj hleft⟩
  case h_2 hover => exact absurd hleft (hover left)

end Asking

section Stopped

end Stopped

section Running

theorem now_apply (s : HostedScheduler R) (step : Step) :
    (s.apply step).now = s.now + step.time := by
  cases step with
  | task | future =>
      rw [apply, add]
      split <;> rfl
  | shutdown =>
      rw [apply, shutdown]
      split <;> rfl
  | ask n => exact now_ask n
  | pass => rfl

theorem isStopped_apply_of_running (hrunning : s.isStopped = false) {step : Step}
    (hgoes : step ≠ .shutdown) : (s.apply step).isStopped = false := by
  cases step with
  | task | future =>
      rw [apply, add]
      split <;> exact hrunning
  | shutdown => exact absurd rfl hgoes
  | ask n =>
      rw [apply, isStopped, token_ask]
      exact hrunning
  | pass => exact hrunning

theorem add_of_running (hrunning : s.isStopped = false) (job : Job R) :
    s.add job = { s with jobs := s.jobs ++ [some job] } :=
  if_neg (ne_true_of_eq_false hrunning)

theorem length_jobs_apply (hrunning : s.isStopped = false) (step : Step) :
    (s.apply step).jobs.length = s.jobs.length + Step.added [step] := by
  cases step with
  | task | future =>
      rw [apply, add_of_running hrunning]
      exact List.length_append
  | shutdown =>
      rw [apply, shutdown]
      split <;> rfl
  | ask n => exact length_jobs_ask n
  | pass => rfl

/-- What is done is done by a job that is there. -/
def Accountable (s : HostedScheduler R) : Prop :=
  ∀ deed ∈ s.log, deed.job < s.jobs.length

theorem Accountable.ask (hs : s.Accountable) (n : Nat) : (s.ask n).Accountable := by
  intro deed hdeed
  rw [length_jobs_ask]
  rw [HostedScheduler.ask] at hdeed
  split at hdeed
  case h_1 job hjob =>
    rcases List.mem_append.mp hdeed with hold | hnew
    · exact hs deed hold
    · obtain ⟨label, -, rfl⟩ := List.mem_map.mp hnew
      exact (List.getElem?_eq_some_iff.mp hjob).1
  case h_2 => exact hs deed hdeed

/-- A scheduler after steps that do not shut it down. -/
structure Ran (s : HostedScheduler R) (steps : List Step) : Prop where
  running : s.isStopped = false
  length_eq : s.jobs.length = Step.added steps
  now_eq : s.now = Step.elapsed steps
  accountable : s.Accountable

theorem Ran.apply {steps : List Step} (hs : s.Ran steps) {step : Step} (hgoes : step ≠ .shutdown) :
    (s.apply step).Ran (steps ++ [step]) where
  running := isStopped_apply_of_running hs.running hgoes
  length_eq := by
    rw [length_jobs_apply hs.running, hs.length_eq]
    exact List.countP_append.symm
  now_eq := by
    rw [now_apply, hs.now_eq, Step.elapsed_append]
    rfl
  accountable := by
    cases step with
    | task | future =>
        rw [HostedScheduler.apply, add_of_running hs.running]
        intro deed hdeed
        rw [List.length_append]
        exact Nat.lt_add_right _ (hs.accountable deed hdeed)
    | shutdown => exact absurd rfl hgoes
    | ask n => exact hs.accountable.ask n
    | pass => exact hs.accountable

end Running

section Waiting

/-- Whether a step is taken by the runtime and not by the owner of a scheduler. -/
def Step.isPassive : Step → Bool
  | .ask _ => true
  | .pass _ => true
  | _ => false

/-- Whether a scheduler can become another one while its owner waits. -/
def Becomes (s t : HostedScheduler R) : Prop :=
  ∃ steps : List Step, (∀ step ∈ steps, step.isPassive = true) ∧ steps.foldl apply s = t

namespace Becomes

variable {t u : HostedScheduler R}

theorem refl (s : HostedScheduler R) : s.Becomes s :=
  ⟨[], List.forall_mem_nil _, rfl⟩

theorem ask (s : HostedScheduler R) (n : Nat) : s.Becomes (s.ask n) :=
  ⟨[.ask n], List.forall_mem_singleton.mpr rfl, rfl⟩

theorem pass (s : HostedScheduler R) (time : Duration) : s.Becomes (s.pass time) :=
  ⟨[.pass time], List.forall_mem_singleton.mpr rfl, rfl⟩

theorem trans (h : s.Becomes t) (hnext : t.Becomes u) : s.Becomes u := by
  obtain ⟨steps, hsteps, rfl⟩ := h
  obtain ⟨more, hmore, rfl⟩ := hnext
  exact ⟨steps ++ more, List.forall_mem_append.mpr ⟨hsteps, hmore⟩, List.foldl_append⟩

theorem isStopped_eq (h : s.Becomes t) : t.isStopped = s.isStopped := by
  obtain ⟨steps, hsteps, rfl⟩ := h
  induction steps generalizing s with
  | nil => rfl
  | cons step rest ih =>
      obtain ⟨hstep, hrest⟩ := List.forall_mem_cons.mp hsteps
      refine (ih hrest).trans ?_
      cases step with
      | ask n => exact congrArg R.isCancelled (token_ask n)
      | pass => rfl
      | task | future | shutdown => nomatch hstep

end Becomes

end Waiting

end HostedScheduler

end MapTiles
