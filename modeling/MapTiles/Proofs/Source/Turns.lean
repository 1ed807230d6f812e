import MapTiles.Proofs.Loading.Consistency
import MapTiles.Source

/-!
The parts of which the handling of a message is made, and what each of them can do. A message is
handled in two parts. The first changes the view, takes an outcome or looks for tiles to try
again. The second starts loads as long as slots are free and sets the timer for the next attempt.
A change of the view ends with a notification.
-/

namespace MapTiles.Source

variable {P : Type}

theorem dispatch_of_active {s : Source P} (h : s.paused = false) :
    s.dispatch = ⟨{ s with loading := s.loading.dispatchAll.2 },
      s.loading.dispatchAll.1.map fun r => .load r.tile (s.setup.layer.key r.tile)⟩ := by
  simp [dispatch, h]

theorem dispatch_of_paused {s : Source P} (h : s.paused = true) : s.dispatch = .idle s := by
  simp [dispatch, h]

/-- Either no timer is needed, or one is set that goes off before the one set last. -/
theorem scheduleRetry_cases (s : Source P) (now : Instant) :
    (s.scheduleRetry now = .idle s ∧ (s.paused = false → ∀ due, s.loading.nextRetry? = some due →
      ∃ armed, s.retryTimer = some armed ∧ armed ≤ due)) ∨
    ∃ due, s.paused = false ∧ s.loading.nextRetry? = some due ∧
      (∀ armed, s.retryTimer = some armed → due < armed) ∧
      s.scheduleRetry now = ⟨{ s with retryTimer := some due }, [.wake (due - now)]⟩ := by
  unfold scheduleRetry
  cases hpaused : s.paused with
  | true => exact .inl ⟨rfl, fun h => nomatch h⟩
  | false =>
      cases hnext : s.loading.nextRetry? with
      | none => exact .inl ⟨rfl, fun _ due h => nomatch h⟩
      | some due =>
          cases htimer : s.retryTimer with
          | none => exact .inr ⟨due, rfl, rfl, by simp, rfl⟩
          | some armed =>
              by_cases hearly : armed ≤ due
              · left
                refine ⟨by simp [hearly], fun _ other hother => ⟨armed, rfl, ?_⟩⟩
                rwa [← Option.some.inj hother]
              · right
                refine ⟨due, rfl, rfl, fun other hother => ?_, by simp [hearly]⟩
                rw [← Option.some.inj hother]
                exact Nat.lt_of_not_le hearly

/-- Either there is nobody to tell or nothing to tell, or the notification is given. -/
theorem notifyIfChanged_cases (s : Source P) :
    (s.notifyIfChanged = .idle s ∧ (s.paused = false → s.changed = false)) ∨
    s.paused = false ∧ s.changed = true ∧ s.notifyIfChanged =
      ⟨{ s with changed := false }, if s.setup.listening then [.notify] else []⟩ := by
  unfold notifyIfChanged
  cases hpaused : s.paused with
  | true => exact .inl ⟨rfl, nofun⟩
  | false =>
      cases hchanged : s.changed with
      | false => exact .inl ⟨rfl, fun _ => rfl⟩
      | true => exact .inr ⟨rfl, rfl, rfl⟩

/-- Nothing is left to tell once a notification was due. -/
theorem changed_notifyIfChanged (s : Source P) (h : s.notifyIfChanged.source.paused = false) :
    s.notifyIfChanged.source.changed = false := by
  rcases notifyIfChanged_cases s with ⟨hidle, hknown⟩ | ⟨-, -, htold⟩
  · rw [hidle] at h ⊢
    exact hknown h
  · rw [htold]

theorem queueFlush_cases (s : Source P) :
    (s.queueFlush = .idle s ∧ (s.paused = false → s.flushQueued = true)) ∨
    s.paused = false ∧ s.flushQueued = false ∧
      s.queueFlush = ⟨{ s with flushQueued := true }, [.queueFlush]⟩ := by
  unfold queueFlush
  cases hpaused : s.paused with
  | true => exact .inl ⟨rfl, nofun⟩
  | false =>
      cases hqueued : s.flushQueued with
      | true => exact .inl ⟨rfl, fun _ => rfl⟩
      | false => exact .inr ⟨rfl, rfl, rfl⟩

theorem loading_scheduleRetry (s : Source P) (now : Instant) :
    (s.scheduleRetry now).source.loading = s.loading := by
  rcases scheduleRetry_cases s now with ⟨hidle, -⟩ | ⟨due, -, -, -, hset⟩
  · rw [hidle, Turn.idle]
  · rw [hset]

theorem loading_notifyIfChanged (s : Source P) :
    s.notifyIfChanged.source.loading = s.loading := by
  rcases notifyIfChanged_cases s with ⟨hidle, -⟩ | ⟨-, -, hnotified⟩
  · rw [hidle, Turn.idle]
  · rw [hnotified]

theorem loading_queueFlush (s : Source P) : s.queueFlush.source.loading = s.loading := by
  rcases queueFlush_cases s with ⟨hidle, -⟩ | ⟨-, -, hposted⟩
  · rw [hidle, Turn.idle]
  · rw [hposted]

/-- The first part of showing a view: the bookkeeping follows it, and loads that are no longer
wanted are cancelled. -/
def moved (now : Instant) (view : WantedView) (s : Source P) : Turn P :=
  let (loading, update) := s.loading.updateVisible (s.viewTiles view) now
  let next := { s with viewBounds := s.convertedBounds? view, loading := loading }
  ⟨if update.residentChanged then next.publish else next,
    update.cancelled.map fun t => .cancel t (s.setup.layer.key t)⟩

/-- The first part of taking an outcome. -/
def taken (now : Instant) (t : Tile) (outcome : Outcome P) (s : Source P) : Turn P :=
  let (loading, completion) := s.loading.complete t outcome now
  let next := { s with loading := loading }
  if completion = .stored then next.publish.queueFlush else .idle next

/-- The second part of both: loads start as long as slots are free, and the timer is set. -/
def Turn.settle (now : Instant) (t : Turn P) : Turn P :=
  (t.andThen dispatch).andThen (scheduleRetry now)

theorem settle_of_active {t : Turn P} (h : t.source.paused = false) (now : Instant) :
    t.settle now = (⟨{ t.source with loading := t.source.loading.dispatchAll.2 },
      t.effects ++ t.source.loading.dispatchAll.1.map fun r =>
        .load r.tile (t.source.setup.layer.key r.tile)⟩ : Turn P).andThen (scheduleRetry now) := by
  simp only [Turn.settle, Turn.andThen, dispatch_of_active h]

/-- A paused source starts nothing and sets no timer. -/
theorem settle_of_paused {t : Turn P} (h : t.source.paused = true) (now : Instant) :
    t.settle now = t := by
  have hidle : t.source.scheduleRetry now = .idle t.source := by
    simp [scheduleRetry, h]
  simp [Turn.settle, Turn.andThen, dispatch_of_paused h, Turn.idle, hidle]

theorem loading_settle_of_active {t : Turn P} (h : t.source.paused = false) (now : Instant) :
    (t.settle now).source.loading = t.source.loading.dispatchAll.2 := by
  rw [settle_of_active h]
  exact loading_scheduleRetry _ now

/-- Settling starts all loads that can be started, or leaves the bookkeeping as it is. -/
theorem loading_settle_cases (t : Turn P) (now : Instant) :
    (t.settle now).source.loading = t.source.loading ∨
      (t.settle now).source.loading = t.source.loading.dispatchAll.2 := by
  cases hpaused : t.source.paused with
  | true => exact .inl (by rw [settle_of_paused hpaused])
  | false => exact .inr (loading_settle_of_active hpaused now)

theorem showView_eq (s : Source P) (now : Instant) (view : WantedView) :
    s.showView now view = ((s.moved now view).settle now).andThen notifyIfChanged := rfl

theorem takeOutcome_eq (s : Source P) (now : Instant) (t : Tile) (outcome : Outcome P) :
    s.takeOutcome now t outcome = (s.taken now t outcome).settle now := rfl

/-- The source after the first part of showing a view, up to what is published. -/
theorem moved_source (s : Source P) (now : Instant) (view : WantedView) :
    ∃ published changed, (s.moved now view).source = { s with
      viewBounds := s.convertedBounds? view
      loading := (s.loading.updateVisible (s.viewTiles view) now).1
      published := published, changed := changed } := by
  unfold moved
  dsimp only
  split
  · exact ⟨_, true, rfl⟩
  · exact ⟨s.published, s.changed, rfl⟩

/-- The source after the first part of taking an outcome, up to what is published. -/
theorem taken_source (s : Source P) (now : Instant) (t : Tile) (outcome : Outcome P) :
    ∃ published changed flushQueued, (s.taken now t outcome).source = { s with
      loading := (s.loading.complete t outcome now).1
      published := published, changed := changed, flushQueued := flushQueued } := by
  generalize hnext : s.loading.complete t outcome now = completed
  obtain ⟨loading, completion⟩ := completed
  simp only [taken, hnext]
  split
  · rcases queueFlush_cases ({ s with loading := loading } : Source P).publish with
      ⟨hidle, -⟩ | ⟨-, -, hqueued⟩
    · rw [hidle]
      exact ⟨_, true, s.flushQueued, rfl⟩
    · rw [hqueued]
      exact ⟨_, true, true, rfl⟩
  · exact ⟨s.published, s.changed, s.flushQueued, rfl⟩

section Keeps

-- what starting loads leaves as it is depends only on the first part of a turn
variable {β : Type} (f : Loading P → β) (hf : ∀ s, f s.dispatchAll.2 = f s)

include hf

theorem settle_keeps (t : Turn P) (now : Instant) :
    f (t.settle now).source.loading = f t.source.loading := by
  rcases loading_settle_cases t now with hsame | hstarted
  · rw [hsame]
  · rw [hstarted, hf]

theorem showView_keeps (s : Source P) (now : Instant) (view : WantedView) :
    f (s.showView now view).source.loading =
      f (s.loading.updateVisible (s.viewTiles view) now).1 := by
  obtain ⟨published, changed, hmoved⟩ := s.moved_source now view
  rw [showView_eq]
  change f (notifyIfChanged _).source.loading = _
  rw [loading_notifyIfChanged, settle_keeps f hf, hmoved]

theorem takeOutcome_keeps (s : Source P) (now : Instant) (t : Tile) (outcome : Outcome P) :
    f (s.takeOutcome now t outcome).source.loading =
      f (s.loading.complete t outcome now).1 := by
  obtain ⟨published, changed, flushQueued, htaken⟩ := s.taken_source now t outcome
  rw [takeOutcome_eq, settle_keeps f hf, htaken]

end Keeps

theorem paused_pause (s : Source P) : s.pause.paused = true := by
  unfold pause
  split
  · assumption
  · rfl

/-- Whether a message changes what is to be shown, so that the view is shown again. -/
def Message.steers : Message P → Bool
  | .show _ => true
  | .reload => true
  | .setLowest _ => true
  | .setHighest _ => true
  | _ => false

/-- The source once it has taken note of a message, before it does anything about it. -/
def noted (s : Source P) : Message P → Source P
  | .show view => { s with wanted := some view }
  | .pause => s.pause
  | .resume => { s with paused := false }
  | .reload =>
    let next := { s with loading := s.loading.reset.1 }
    if s.loading.reset.2 then next.publish else next
  | .setLowest identifier => { s with lowest := identifier }
  | .setHighest identifier => { s with highest := identifier }
  | .ask _ _ => s
  | .loaded _ _ => s
  | .retry => { s with retryTimer := none }
  | .flush => { s with flushQueued := false }

/-- Taking note of what is to be shown neither ends a pause nor owes a flush. -/
theorem noted_of_steers {s : Source P} {message : Message P} (hsteers : message.steers = true) :
    (s.noted message).paused = s.paused ∧ (s.noted message).flushQueued = s.flushQueued := by
  cases message with
  | reload =>
      simp only [noted]
      split <;> exact ⟨rfl, rfl⟩
  | _ => first | exact ⟨rfl, rfl⟩ | cases hsteers

theorem retry_of_active {s : Source P} (h : s.paused = false) (now : Instant) :
    s.retry now = (Turn.idle { s.noted .retry with
      loading := (s.loading.enqueueDue now).1 }).settle now := by
  unfold retry
  rw [if_neg (by simp [h])]
  rfl

/-- Only a pause and a reload touch the bookkeeping before any work is done. -/
theorem loading_noted_cases (s : Source P) (message : Message P) :
    (s.noted message).loading = s.loading ∨
      message = .pause ∧ (s.noted message).loading = s.loading.clearQueue.1 ∨
      message = .reload ∧ (s.noted message).loading = s.loading.reset.1 := by
  cases message with
  | pause =>
      simp only [noted, pause]
      split
      · exact .inl rfl
      · exact .inr (.inl ⟨trivial, rfl⟩)
  | reload =>
      refine .inr (.inr ⟨rfl, ?_⟩)
      simp only [noted]
      split <;> rfl
  | _ => exact .inl rfl

theorem consistent_noted {s : Source P} (h : s.loading.Consistent) (message : Message P) :
    (s.noted message).loading.Consistent := by
  rcases loading_noted_cases s message with hsame | ⟨-, hcleared⟩ | ⟨-, hreset⟩
  · rw [hsame]
    exact h
  · rw [hcleared]
    exact h.clearQueue
  · rw [hreset]
    exact h.reset

/-- The ways in which a source handles a message. -/
inductive Handling (now : Instant) (s : Source P) : Message P → Turn P → Prop
  /-- A paused source does nothing but take note. -/
  | rests (message : Message P)
      (hkind : message.steers = true ∨ message = .pause ∨ message = .retry)
      (hpaused : (s.noted message).paused = true) :
      Handling now s message (.idle (s.noted message))
  /-- Before the first view there is nothing to show. -/
  | blank (message : Message P) (hsteers : message.steers = true)
      (hwanted : (s.noted message).wanted = none) :
      Handling now s message (.idle (s.noted message))
  | goesOn (hactive : s.paused = false) : Handling now s .resume (.idle s)
  | answers (slot : Nat) (question : Question) :
      Handling now s (.ask slot question) ⟨s, [.answer slot (s.answer question)]⟩
  | shows (message : Message P) (view : WantedView)
      (hkind : message.steers = true ∨ message = .resume ∧ s.paused = true)
      (hactive : (s.noted message).paused = false)
      (hwanted : (s.noted message).wanted = some view) :
      Handling now s message ((s.noted message).showView now view)
  | notifies (message : Message P)
      (hkind : message = .flush ∨ message = .resume ∧ s.paused = true ∧ s.wanted = none) :
      Handling now s message (s.noted message).notifyIfChanged
  | takes (t : Tile) (outcome : Outcome P) :
      Handling now s (.loaded t outcome) (s.takeOutcome now t outcome)
  | retries (hactive : s.paused = false) :
      Handling now s .retry ((Turn.idle { s.noted .retry with
        loading := (s.loading.enqueueDue now).1 }).settle now)

/-- A message that changes what is to be shown. -/
private theorem Handling.steer (now : Instant) (s : Source P) (message : Message P)
    (hsteers : message.steers = true) :
    Handling now s message ((s.noted message).refresh now) := by
  unfold refresh
  split
  case isTrue hpaused => exact .rests message (.inl hsteers) hpaused
  case isFalse hactive =>
    split
    case h_1 hwanted => exact .blank message hsteers hwanted
    case h_2 view hwanted =>
      exact .shows message view (.inl hsteers) (Bool.eq_false_iff.mpr hactive) hwanted

/-- Every message is handled in one of these ways. -/
theorem handling (now : Instant) (s : Source P) (message : Message P) :
    Handling now s message (s.handle now message) := by
  cases message with
  | «show» view => exact .steer now s (.show view) rfl
  | reload => exact .steer now s .reload rfl
  | setLowest identifier => exact .steer now s (.setLowest identifier) rfl
  | setHighest identifier => exact .steer now s (.setHighest identifier) rfl
  | pause => exact .rests .pause (.inr (.inl rfl)) (paused_pause s)
  | resume =>
      simp only [handle, resume]
      split
      case isTrue hpaused =>
        split
        case isTrue hsome =>
          obtain ⟨view, hview⟩ := Option.isSome_iff_exists.mp hsome
          have hshown : ({ s with paused := false } : Source P).refresh now =
              (s.noted .resume).showView now view := by
            simp [refresh, hview, noted]
          rw [hshown]
          exact .shows .resume view (.inr ⟨rfl, hpaused⟩) rfl hview
        case isFalse hnone =>
          exact .notifies .resume (.inr ⟨rfl, hpaused, by simpa using hnone⟩)
      case isFalse hactive => exact .goesOn (Bool.eq_false_iff.mpr hactive)
  | ask slot question => exact .answers slot question
  | loaded t outcome => exact .takes t outcome
  | retry =>
      cases hpaused : s.paused with
      | true =>
          have hrests : s.handle now .retry = .idle (s.noted .retry) := by
            simp only [handle, retry, hpaused, if_pos, noted]
          rw [hrests]
          exact .rests .retry (.inr (.inr rfl)) hpaused
      | false =>
          simp only [handle, retry_of_active hpaused]
          exact .retries hpaused
  | flush => exact .notifies .flush (.inl rfl)

end MapTiles.Source
