import MapTiles.Proofs.Loading.Coverage
import MapTiles.Proofs.Source.Turns

/-!
What holds of a source between two messages, whatever the messages were. The containers of its
bookkeeping agree with each other. While it is not paused, its visible set is that of the view
wanted last, every visible tile is accounted for, no slot is free while a tile waits, and a timer
is set for the next attempt at a failed tile.

The first part of a message leaves the source coherent: the bookkeeping follows the view, but
slots may be free and no timer set. The second part settles it.
-/

namespace MapTiles.Source

variable {P : Type}

/-- The visible set is that of a view, and so are the bounds. -/
def Shows (s : Source P) (view : WantedView) : Prop :=
  s.loading.visible = Loading.placements (s.viewTiles view) ∧
    s.viewBounds = s.convertedBounds? view

/-- What holds of a source even while it is told of a new view. -/
structure Sound (setup : Setup) (limits : Nat × BackoffPolicy) (s : Source P) : Prop where
  setup_eq : s.setup = setup
  limits_eq : s.loading.limits = limits
  consistent : s.loading.Consistent
  /-- Before the first view there is nothing to see. -/
  unseen : s.wanted = none → s.loading.visible = ∅

/-- What holds of a source once the first part of a message is done. -/
structure Coherent (setup : Setup) (limits : Nat × BackoffPolicy) (s : Source P) : Prop
    extends Sound setup limits s where
  shows : s.paused = false → ∀ view, s.wanted = some view → s.Shows view
  covers : s.paused = false → s.loading.Covers

/-- What holds of a source between two messages. -/
structure Settled (setup : Setup) (limits : Nat × BackoffPolicy) (s : Source P) : Prop
    extends Coherent setup limits s where
  saturated : s.paused = false → s.loading.Saturated
  armed : s.paused = false → ∀ due, s.loading.nextRetry? = some due →
    ∃ armed, s.retryTimer = some armed ∧ armed ≤ due

variable {setup : Setup} {limits : Nat × BackoffPolicy} {s : Source P}

/-- Publication and notification have no part in what a source shows and loads. -/
theorem Coherent.republished (h : s.Coherent setup limits) (published : List (Resident P))
    (changed flushQueued : Bool) :
    ({ s with published := published, changed := changed, flushQueued := flushQueued } :
      Source P).Coherent setup limits :=
  ⟨⟨h.setup_eq, h.limits_eq, h.consistent, h.unseen⟩, h.shows, h.covers⟩

theorem Settled.republished (h : s.Settled setup limits) (published : List (Resident P))
    (changed flushQueued : Bool) :
    ({ s with published := published, changed := changed, flushQueued := flushQueued } :
      Source P).Settled setup limits :=
  ⟨h.toCoherent.republished published changed flushQueued, h.saturated, h.armed⟩

theorem Settled.notifyIfChanged (h : s.Settled setup limits) :
    s.notifyIfChanged.source.Settled setup limits := by
  rcases notifyIfChanged_cases s with ⟨hidle, -⟩ | ⟨-, -, hnotified⟩
  · rw [hidle]
    exact h
  · rw [hnotified]
    exact h.republished s.published false s.flushQueued

/-- A paused source has nothing to settle. -/
theorem Sound.settled_of_paused (h : s.Sound setup limits) (hpaused : s.paused = true) :
    s.Settled setup limits := by
  have hnever : ¬s.paused = false := by simp [hpaused]
  exact ⟨⟨h, fun hactive => absurd hactive hnever, fun hactive => absurd hactive hnever⟩,
    fun hactive => absurd hactive hnever, fun hactive => absurd hactive hnever⟩

/-- Before the first view there is nothing to settle either. -/
theorem Sound.settled_of_unwanted (h : s.Sound setup limits) (hwanted : s.wanted = none) :
    s.Settled setup limits := by
  have hvisible := h.unseen hwanted
  have hshows : ∀ view, s.wanted = some view → s.Shows view := by simp [hwanted]
  have hqueue : s.loading.queue = ∅ := by
    rw [Std.ExtTreeSet.eq_empty_iff_forall_not_mem]
    intro r hr
    have hpriority := h.consistent.queued_visible r.tile r.priority
      ((h.consistent.mem_queue_iff r).mp hr)
    simp [hvisible] at hpriority
  have hretry : s.loading.nextRetry? = none := Loading.nextRetry_of_visible_empty hvisible
  exact ⟨⟨h, fun _ => hshows, fun _ => Loading.covers_of_visible_empty hvisible⟩,
    fun _ => .inl hqueue, fun _ due hdue => by simp [hretry] at hdue⟩

theorem Coherent.dispatch (h : s.Coherent setup limits) (hactive : s.paused = false) :
    ({ s with loading := s.loading.dispatchAll.2 } : Source P).Coherent setup limits where
  setup_eq := h.setup_eq
  limits_eq := (Loading.limits_dispatchAll s.loading).trans h.limits_eq
  consistent := h.consistent.dispatchAll
  unseen hwanted := (Loading.visible_dispatchAll s.loading).trans (h.unseen hwanted)
  shows _ view hwanted :=
    ⟨(Loading.visible_dispatchAll s.loading).trans (h.shows hactive view hwanted).1,
      (h.shows hactive view hwanted).2⟩
  covers _ := (h.covers hactive).dispatchAll

/-- Starting loads and setting the timer settles a coherent source. -/
theorem Coherent.settle {t : Turn P} (h : t.source.Coherent setup limits) (now : Instant) :
    (t.settle now).source.Settled setup limits := by
  change (t.source.dispatch.source.scheduleRetry now).source.Settled setup limits
  generalize t.source = s at h ⊢
  cases hpaused : s.paused with
  | true =>
      rw [dispatch_of_paused hpaused]
      change (s.scheduleRetry now).source.Settled setup limits
      rcases scheduleRetry_cases s now with ⟨hidle, -⟩ | ⟨_, hactive, -⟩
      · rw [hidle]
        exact h.settled_of_paused hpaused
      · simp [hpaused] at hactive
  | false =>
      rw [dispatch_of_active hpaused]
      have hnext := h.dispatch hpaused
      have hsaturated := Loading.saturated_dispatchAll h.consistent
      rcases scheduleRetry_cases { s with loading := s.loading.dispatchAll.2 } now with
        ⟨hidle, harmed⟩ | ⟨due, -, hdue, -, hset⟩
      · rw [hidle]
        exact ⟨hnext, fun _ => hsaturated, harmed⟩
      · rw [hset]
        have hcoherent : Coherent setup limits ({ s with
            loading := s.loading.dispatchAll.2, retryTimer := some due } : Source P) :=
          ⟨⟨hnext.setup_eq, hnext.limits_eq, hnext.consistent, hnext.unseen⟩, hnext.shows,
            hnext.covers⟩
        refine ⟨hcoherent, fun _ => hsaturated, fun _ other hother => ⟨due, rfl, ?_⟩⟩
        exact Nat.le_of_eq (Option.some.inj (hdue.symm.trans hother))

/-- Showing the wanted view settles a source, whatever was shown before. -/
theorem Sound.showView (h : s.Sound setup limits) {view : WantedView}
    (hwanted : s.wanted = some view) (now : Instant) :
    (s.showView now view).source.Settled setup limits := by
  obtain ⟨published, changed, hmoved⟩ := s.moved_source now view
  have hcoherent : (s.moved now view).source.Coherent setup limits := by
    rw [hmoved]
    refine ⟨⟨h.setup_eq, (Loading.limits_updateVisible ..).trans h.limits_eq,
      h.consistent.updateVisible _ now, ?_⟩, ?_,
      fun _ => Loading.covers_updateVisible s.loading _ now⟩
    · intro hnone
      exact absurd (hwanted.symm.trans hnone) (by simp)
    · intro _ other hother
      have hsame : view = other := Option.some.inj (hwanted.symm.trans hother)
      subst hsame
      exact ⟨Loading.visible_updateVisible .., rfl⟩
  exact (hcoherent.settle now).notifyIfChanged

theorem Settled.takeOutcome (h : s.Settled setup limits) (now : Instant) (t : Tile)
    (outcome : Outcome P) : (s.takeOutcome now t outcome).source.Settled setup limits := by
  obtain ⟨published, changed, flushQueued, htaken⟩ := s.taken_source now t outcome
  have hvisible := Loading.visible_complete s.loading t outcome now
  have hcoherent : (s.taken now t outcome).source.Coherent setup limits := by
    rw [htaken]
    refine ⟨⟨h.setup_eq, (Loading.limits_complete ..).trans h.limits_eq,
      h.consistent.complete t outcome now, fun hwanted => hvisible.trans (h.unseen hwanted)⟩,
      ?_, fun hactive => (h.covers hactive).complete h.consistent t outcome now⟩
    intro hactive view hwanted
    exact ⟨hvisible.trans (h.shows hactive view hwanted).1, (h.shows hactive view hwanted).2⟩
  exact hcoherent.settle now

/-- A settled source is sound once it has taken note of a message. -/
theorem Settled.noted (h : s.Settled setup limits) (message : Message P) :
    (s.noted message).Sound setup limits := by
  cases message with
  | «show» view => exact ⟨h.setup_eq, h.limits_eq, h.consistent, fun hnone => nomatch hnone⟩
  | pause =>
      simp only [Source.noted, Source.pause]
      split
      · exact h.toSound
      · exact ⟨h.setup_eq, h.limits_eq, h.consistent.clearQueue, h.unseen⟩
  | reload =>
      simp only [Source.noted]
      split
      all_goals exact ⟨h.setup_eq, h.limits_eq, h.consistent.reset, h.unseen⟩
  | _ => exact ⟨h.setup_eq, h.limits_eq, h.consistent, h.unseen⟩

/-- Queueing the failed tiles that may be tried again leaves a settled source coherent. -/
theorem Settled.enqueueDue (h : s.Settled setup limits) (now : Instant)
    (retryTimer : Option Instant) :
    Coherent setup limits ({ s with
      retryTimer := retryTimer, loading := (s.loading.enqueueDue now).1 } : Source P) := by
  have hvisible := Loading.visible_enqueueDue s.loading now
  refine ⟨⟨h.setup_eq, (Loading.limits_enqueueDue ..).trans h.limits_eq,
    h.consistent.enqueueDue now, fun hwanted => hvisible.trans (h.unseen hwanted)⟩, ?_,
    fun hactive => (h.covers hactive).enqueueAll now _⟩
  intro hactive view hwanted
  exact ⟨hvisible.trans (h.shows hactive view hwanted).1, (h.shows hactive view hwanted).2⟩

/-- A settled source is settled again after every message, at every time. -/
theorem Settled.handle (h : s.Settled setup limits) (now : Instant) (message : Message P) :
    (s.handle now message).source.Settled setup limits := by
  have hnoted := h.noted message
  have hhandled := handling now s message
  generalize s.handle now message = t at hhandled ⊢
  cases hhandled with
  | rests _ _ hpaused => exact hnoted.settled_of_paused hpaused
  | blank _ _ hwanted => exact hnoted.settled_of_unwanted hwanted
  | goesOn => exact h
  | answers slot question => exact h
  | shows _ view _ _ hwanted => exact hnoted.showView hwanted now
  | notifies _ hkind =>
      apply Settled.notifyIfChanged
      rcases hkind with rfl | ⟨rfl, -, hwanted⟩
      · exact h.republished s.published s.changed false
      · exact hnoted.settled_of_unwanted hwanted
  | takes t outcome => exact h.takeOutcome now t outcome
  | retries => exact Coherent.settle (t := .idle _) (h.enqueueDue now none) now

/-- A source that was not told anything is settled. -/
theorem settled_start (setup : Setup) (maxLoads : Nat) (backoff : BackoffPolicy) :
    (start setup (Loading.start maxLoads backoff) : Source P).Settled setup
      (max maxLoads 1, backoff) := by
  have hsound : (start setup (Loading.start maxLoads backoff) : Source P).Sound setup
      (max maxLoads 1, backoff) :=
    ⟨rfl, rfl, Loading.consistent_start maxLoads backoff, fun _ => rfl⟩
  exact hsound.settled_of_unwanted rfl

end MapTiles.Source
