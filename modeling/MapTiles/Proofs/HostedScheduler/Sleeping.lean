import MapTiles.Proofs.HostedScheduler

/-!
Sleeps of jobs. A job that was asked is over or sleeps, and nothing happens when it is asked again
before it awakes.
-/

namespace MapTiles

variable {R : Runtime} {token : R.Token} {now : Instant} {job left : Job R}

/-- Whether a job is in a sleep that is not over. -/
def Job.Sleeps (now : Instant) : Job R → Prop
  | .task .. => False
  | .delayed _ sleep => R.isOver sleep now = false
  | .future sleep _ => (sleep.all fun sleep => R.isOver sleep now) = false

/-- A future that is not complete has come to a sleep. -/
theorem Progress.all_sleep_goOn {rest : List Stage} {done : List String}
    (hleft : (goOn now rest done : Bool × Progress R).1 = false) :
    ((goOn now rest done : Bool × Progress R).2.sleep.all fun sleep => R.isOver sleep now) =
      false := by
  induction rest generalizing done with
  | nil => cases hleft
  | cons stage rest ih =>
      cases stage with
      | act label => exact ih hleft
      | sleep length =>
          simp only [goOn] at hleft ⊢
          split at hleft
          case isTrue hover =>
            rw [if_pos hover]
            exact ih hleft
          case isFalse hlasts =>
            rw [if_neg hlasts]
            exact eq_false_of_ne_true hlasts

/-- It has one sleep less before it. -/
theorem Progress.length_rest_goOn {rest : List Stage} {done : List String}
    (hleft : (goOn now rest done : Bool × Progress R).1 = false) :
    (goOn now rest done : Bool × Progress R).2.rest.length < rest.length := by
  induction rest generalizing done with
  | nil => cases hleft
  | cons stage rest ih =>
      rw [List.length_cons]
      cases stage with
      | act label => exact Nat.lt_succ_of_lt (ih hleft)
      | sleep length =>
          simp only [goOn] at hleft ⊢
          split at hleft
          case isTrue hover =>
            rw [if_pos hover]
            exact Nat.lt_succ_of_lt (ih hleft)
          case isFalse hlasts =>
            rw [if_neg hlasts]
            exact Nat.lt_succ_self _

theorem Progress.all_sleep_ask {p : Progress R} (hleft : (p.ask now).1 = false) :
    ((p.ask now).2.sleep.all fun sleep => R.isOver sleep now) = false := by
  rw [ask] at hleft ⊢
  split at hleft
  case isTrue hover =>
    rw [if_pos hover]
    exact all_sleep_goOn hleft
  case isFalse hlasts =>
    rw [if_neg hlasts]
    exact eq_false_of_ne_true hlasts

/-- A task that waits for its delay ends, or it sleeps on. -/
theorem Job.await_cases (h : R.Biased) (token : R.Token) (now : Instant) (label : String)
    (sleep : R.Sleep) : (await token now label sleep).1 = none ∨
      (await token now label sleep).1 = some (.delayed label sleep) ∧
        R.isOver sleep now = false := by
  simp only [await, h _]
  cases R.isCancelled token with
  | true => exact .inl rfl
  | false =>
      cases hover : R.isOver sleep now with
      | true => exact .inl rfl
      | false => exact .inr ⟨rfl, rfl⟩

/-- A future ends, or it comes to a sleep. -/
theorem Job.future_cases (h : R.Biased) (token : R.Token) (now : Instant)
    (sleep : Option R.Sleep) (rest : List Stage) :
    ((future sleep rest).ask token now).1 = none ∨
      ((future sleep rest).ask token now).1 = some (.future
        (Progress.ask now ⟨sleep, rest, []⟩).2.sleep (Progress.ask now ⟨sleep, rest, []⟩).2.rest) ∧
        (Progress.ask now ⟨sleep, rest, []⟩ : Bool × Progress R).1 = false := by
  simp only [ask, h _]
  cases R.isCancelled token with
  | true => exact .inl rfl
  | false =>
      cases hcomplete : (Progress.ask now ⟨sleep, rest, []⟩ : Bool × Progress R).1 with
      | true => exact .inl rfl
      | false => exact .inr ⟨rfl, rfl⟩

/-- A job that was asked is over or sleeps. -/
theorem Job.sleeps_of_ask (h : R.Biased) (hleft : (job.ask token now).1 = some left) :
    left.Sleeps now := by
  have hawait {label : String} {sleep : R.Sleep}
      (hleft : (await token now label sleep).1 = some left) : left.Sleeps now := by
    rcases await_cases h token now label sleep with hended | ⟨hsame, hlasts⟩
    · rw [hended] at hleft
      cases hleft
    · rw [hsame] at hleft
      cases hleft
      exact hlasts
  cases job with
  | task label delay =>
      rw [ask] at hleft
      split at hleft
      case isTrue => cases hleft
      case isFalse => exact hawait hleft
  | delayed label sleep => exact hawait hleft
  | future sleep rest =>
      rcases future_cases h token now sleep rest with hended | ⟨hsame, hincomplete⟩
      · rw [hended] at hleft
        cases hleft
      · rw [hsame] at hleft
        cases hleft
        exact Progress.all_sleep_ask hincomplete

/-- Nothing happens when a job that sleeps is asked. -/
theorem Job.ask_of_sleeps (h : R.Biased) (hrunning : R.isCancelled token = false)
    (hsleeps : job.Sleeps now) : job.ask token now = (some job, []) := by
  cases job with
  | task => exact hsleeps.elim
  | delayed label sleep =>
      have hlasts : R.isOver sleep now = false := hsleeps
      simp [ask, await, h _, hrunning, hlasts]
  | future sleep rest =>
      have hlasts : (sleep.all fun sleep => R.isOver sleep now) = false := hsleeps
      simp [ask, Progress.ask, h _, hrunning, hlasts]

end MapTiles
