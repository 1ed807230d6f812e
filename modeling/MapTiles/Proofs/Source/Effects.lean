import MapTiles.Proofs.Loading.Slots
import MapTiles.Proofs.Source.Turns

/-!
What the effects of a message account for. What the owner of a source asked for is what a message
asks for, or what was asked for before. The loads that a message starts, together with those
that were running, are those that run afterwards and the one whose outcome it took. A timer that
a source relies on after a message was either relied on before or set by it.
-/

namespace MapTiles.Source

variable {P : Type}

/-- The tile of a load that an effect starts. -/
def Effect.started? : Effect → Option Tile
  | .load t _ => some t
  | _ => none

/-- The tiles of the loads that effects start, in order. -/
def started (effects : List Effect) : List Tile :=
  effects.filterMap Effect.started?

def Effect.isFlush : Effect → Bool
  | .queueFlush => true
  | _ => false

/-- The number of flushes that effects post. -/
def flushes (effects : List Effect) : Nat :=
  effects.countP Effect.isFlush

/-- What the owner of a source asks of it: a view, a window of level identifiers, and whether to
pause. -/
structure Wishes where
  view : Option WantedView
  lowest : Option Int
  highest : Option Int
  paused : Bool

/-- What a source takes to be asked of it. -/
def wishes (s : Source P) : Wishes :=
  ⟨s.wanted, s.lowest, s.highest, s.paused⟩

/-- What is asked for once a message is handled. -/
def Message.grant (message : Message P) (wishes : Wishes) : Wishes :=
  match message with
  | .show view => { wishes with view := some view }
  | .pause => { wishes with paused := true }
  | .resume => { wishes with paused := false }
  | .setLowest identifier => { wishes with lowest := identifier }
  | .setHighest identifier => { wishes with highest := identifier }
  | _ => wishes

/-- The view that a message asks for. -/
def Message.view? : Message P → Option WantedView
  | .show view => some view
  | _ => none

/-- The outcome that a message brings. -/
def Message.outcome? : Message P → Option (Tile × Outcome P)
  | .loaded t outcome => some (t, outcome)
  | _ => none

theorem Message.outcome_of_steers {message : Message P} (h : message.steers = true) :
    message.outcome? = none := by
  cases message <;> first | rfl | cases h

/-- What neither starting loads nor queueing nor a new set of visible tiles changes is after a message
as it is when the source has taken note of it. Only the end of a load may change it later. -/
theorem handle_keeps {β : Type} (f : Loading P → β) (hdispatch : ∀ s, f s.dispatchAll.2 = f s)
    (hupdate : ∀ s tiles now, f (s.updateVisible tiles now).1 = f s)
    (hdue : ∀ s now, f (s.enqueueDue now).1 = f s) (s : Source P) (now : Instant)
    {message : Message P} (hother : message.outcome? = none) :
    f (s.handle now message).source.loading = f (s.noted message).loading := by
  have hhandled := handling now s message
  generalize s.handle now message = turn at hhandled ⊢
  cases hhandled with
  | rests => rfl
  | blank => rfl
  | goesOn => rfl
  | answers slot question => rfl
  | shows _ view => rw [showView_keeps f hdispatch, hupdate]
  | notifies => rw [loading_notifyIfChanged]
  | takes ended outcome => cases hother
  | retries =>
      rw [settle_keeps f hdispatch]
      exact hdue s.loading now

/-- A message at which a source may rest brings no outcome. -/
theorem Message.outcome_of_rests {message : Message P}
    (h : message.steers = true ∨ message = .pause ∨ message = .retry) :
    message.outcome? = none := by
  rcases h with hsteers | rfl | rfl
  · exact Message.outcome_of_steers hsteers
  · rfl
  · rfl

/-- A message at which a source shows a view brings no outcome. -/
theorem Message.outcome_of_shows {message : Message P} {resting : Prop}
    (h : message.steers = true ∨ message = .resume ∧ resting) : message.outcome? = none := by
  rcases h with hsteers | ⟨rfl, -⟩
  · exact Message.outcome_of_steers hsteers
  · rfl

/-- The tile whose load a message ends. -/
def Message.finished (message : Message P) : List Tile :=
  message.outcome?.toList.map Prod.fst

/-- The timer that is relied on before a message does anything. A timer that went off is none. -/
def Message.timer (timer : Option Instant) : Message P → Option Instant
  | .retry => none
  | _ => timer

/-- What a turn of a source accounts for, given the message and the source before it. -/
structure Turn.Follows (now : Instant) (before : Source P) (message : Message P) (t : Turn P) :
    Prop where
  wishes_eq : t.source.wishes = message.grant before.wishes
  loads : (message.finished ++ t.source.loading.inFlight.keys).Perm
    (started t.effects ++ before.loading.inFlight.keys)
  timer : ∀ armed, t.source.retryTimer = some armed →
    message.timer before.retryTimer = some armed ∨ Effect.wake (armed - now) ∈ t.effects

@[simp] theorem started_append (a b : List Effect) : started (a ++ b) = started a ++ started b :=
  List.filterMap_append

@[simp] theorem started_loads (key : Tile → String) (rs : List Request) :
    started (rs.map fun r => .load r.tile (key r.tile)) = rs.map Request.tile := by
  simp [started, List.filterMap_map, Effect.started?, Function.comp_def]

@[simp] theorem started_cancels (key : Tile → String) (tiles : List Tile) :
    started (tiles.map fun t => .cancel t (key t)) = [] := by
  simp [started, List.filterMap_map, Effect.started?, Function.comp_def]

variable {now : Instant} {before : Source P} {message : Message P}

/-- More effects that start no load change nothing in the account, nor does a source that differs
only in what it publishes. -/
theorem Turn.Follows.extend {t next : Turn P} (h : t.Follows now before message)
    (more : List Effect) (heffects : next.effects = t.effects ++ more)
    (hstarted : started more = []) (hwishes : next.source.wishes = t.source.wishes)
    (hloads : next.source.loading.inFlight.keys = t.source.loading.inFlight.keys)
    (htimer : next.source.retryTimer = t.source.retryTimer) :
    next.Follows now before message where
  wishes_eq := hwishes.trans h.wishes_eq
  loads := by
    rw [hloads, heffects, started_append, hstarted, List.append_nil]
    exact h.loads
  timer armed harmed := by
    rw [heffects, List.mem_append]
    rcases h.timer armed (htimer.symm.trans harmed) with hold | hset
    · exact .inl hold
    · exact .inr (.inl hset)

theorem Turn.Follows.notifyIfChanged {t : Turn P} (h : t.Follows now before message) :
    (t.andThen Source.notifyIfChanged).Follows now before message := by
  rcases notifyIfChanged_cases t.source with ⟨hidle, -⟩ | ⟨-, -, hnotified⟩
  · refine h.extend [] ?_ rfl ?_ ?_ ?_
    all_goals simp [Turn.andThen, hidle, Turn.idle, wishes]
  · refine h.extend (if t.source.setup.listening then [.notify] else []) ?_ ?_ ?_ ?_ ?_
    case refine_2 => split <;> rfl
    all_goals simp [Turn.andThen, hnotified, wishes]

theorem Turn.Follows.dispatch {t : Turn P} (h : t.Follows now before message)
    (hconsistent : t.source.loading.Consistent) :
    (t.andThen Source.dispatch).Follows now before message := by
  cases hpaused : t.source.paused with
  | true =>
      refine h.extend [] ?_ rfl ?_ ?_ ?_
      all_goals simp [Turn.andThen, dispatch_of_paused hpaused, Turn.idle, wishes]
  | false =>
      simp only [Turn.andThen, dispatch_of_active hpaused]
      refine ⟨h.wishes_eq, ?_, fun armed harmed => ?_⟩
      -- the loads that start join the running ones on one side and the effects on the other
      · have hkeys := Loading.keys_dispatchAll hconsistent
        rw [started_append, started_loads]
        refine (hkeys.append_left _).trans ?_
        have hloads := h.loads.append_left (t.source.loading.dispatchAll.1.map Request.tile)
        refine (List.perm_append_comm_assoc ..).trans (hloads.trans ?_)
        rw [← List.append_assoc]
        exact List.perm_append_comm.append_right _
      · rcases h.timer armed harmed with hold | hset
        · exact .inl hold
        · exact .inr (List.mem_append_left _ hset)

theorem Turn.Follows.scheduleRetry {t : Turn P} (h : t.Follows now before message) :
    (t.andThen (Source.scheduleRetry now)).Follows now before message := by
  rcases scheduleRetry_cases t.source now with ⟨hidle, -⟩ | ⟨due, -, -, -, hset⟩
  · refine h.extend [] ?_ rfl ?_ ?_ ?_
    all_goals simp [Turn.andThen, hidle, Turn.idle, wishes]
  · simp only [Turn.andThen, hset]
    refine ⟨h.wishes_eq, ?_, fun armed harmed => .inr ?_⟩
    · have hwake : started [Effect.wake (due - now)] = [] := rfl
      rw [started_append, hwake, List.append_nil]
      exact h.loads
    · rw [← Option.some.inj harmed]
      exact List.mem_append_right _ (List.mem_singleton_self _)

theorem Turn.Follows.settle {t : Turn P} (h : t.Follows now before message)
    (hconsistent : t.source.loading.Consistent) : (t.settle now).Follows now before message :=
  (h.dispatch hconsistent).scheduleRetry

theorem Turn.Follows.showView {s : Source P} (h : (Turn.idle s).Follows now before message)
    (hconsistent : s.loading.Consistent) (view : WantedView) :
    (s.showView now view).Follows now before message := by
  obtain ⟨published, changed, hmoved⟩ := s.moved_source now view
  rw [showView_eq]
  apply Turn.Follows.notifyIfChanged
  apply Turn.Follows.settle
  · refine h.extend (s.moved now view).effects rfl (started_cancels ..) ?_ ?_ ?_
    all_goals simp [hmoved, Turn.idle, wishes]
  · rw [hmoved]
    exact hconsistent.updateVisible _ now

theorem started_taken (s : Source P) (now : Instant) (t : Tile) (outcome : Outcome P) :
    started (s.taken now t outcome).effects = [] := by
  unfold taken
  dsimp only
  split
  · rcases queueFlush_cases (Source.publish { s with
        loading := (s.loading.complete t outcome now).1 }) with ⟨hidle, -⟩ | ⟨-, -, hqueued⟩
    · rw [hidle]
      rfl
    · rw [hqueued]
      rfl
  · rfl

theorem follows_takeOutcome (s : Source P) (now : Instant) (t : Tile) (outcome : Outcome P)
    (hconsistent : s.loading.Consistent) (hrunning : t ∈ s.loading.inFlight) :
    (s.takeOutcome now t outcome).Follows now s (.loaded t outcome) := by
  obtain ⟨published, changed, flushQueued, htaken⟩ := s.taken_source now t outcome
  rw [takeOutcome_eq]
  refine Turn.Follows.settle ⟨?_, ?_, fun armed harmed => .inl ?_⟩ ?_
  · rw [htaken]
    rfl
  · rw [started_taken, htaken]
    exact Loading.keys_complete s.loading t outcome now hrunning
  · rw [htaken] at harmed
    exact harmed
  · rw [htaken]
    exact hconsistent.complete t outcome now

/-- A message that ends no load accounts for what it changes before any work is done. -/
theorem follows_noted (s : Source P) (now : Instant) (message : Message P)
    (hnone : message.outcome? = none) :
    (Turn.idle (s.noted message)).Follows now s message := by
  have hloads : (s.noted message).loading.inFlight = s.loading.inFlight := by
    rcases loading_noted_cases s message with hsame | ⟨-, hcleared⟩ | ⟨-, hreset⟩
    · rw [hsame]
    · rw [hcleared]
      rfl
    · rw [hreset]
      rfl
  refine ⟨?_, ?_, ?_⟩
  · cases message with
    | pause =>
        cases hpaused : s.paused <;>
          simp [Turn.idle, Source.noted, Source.pause, wishes, Message.grant, hpaused]
    | reload =>
        simp only [Turn.idle, Source.noted]
        split <;> rfl
    | _ => rfl
  · change (message.finished ++ (s.noted message).loading.inFlight.keys).Perm
      ([] ++ s.loading.inFlight.keys)
    rw [Message.finished, hnone, hloads]
    exact .refl _
  · intro armed harmed
    left
    cases message with
    | pause =>
        simp only [Turn.idle, Source.noted, Source.pause] at harmed
        split at harmed <;> exact harmed
    | reload =>
        simp only [Turn.idle, Source.noted] at harmed
        split at harmed <;> exact harmed
    | _ => exact harmed

/-- Every message accounts for what it does, if it ends only loads that are running. -/
theorem follows_handle (s : Source P) (now : Instant) (message : Message P)
    (hconsistent : s.loading.Consistent)
    (hfinished : ∀ t ∈ message.finished, t ∈ s.loading.inFlight) :
    (s.handle now message).Follows now s message := by
  have hnoted := follows_noted s now message
  have hhandled := handling now s message
  generalize s.handle now message = turn at hhandled ⊢
  cases hhandled with
  | rests _ hkind => exact hnoted (Message.outcome_of_rests hkind)
  | blank _ hkind => exact hnoted (Message.outcome_of_steers hkind)
  | goesOn hactive =>
      refine (hnoted rfl).extend [] rfl rfl ?_ rfl rfl
      simp [Turn.idle, Source.noted, wishes, hactive]
  | answers slot question => exact (hnoted rfl).extend [_] rfl rfl rfl rfl rfl
  | shows _ view hkind =>
      have hshows := hnoted (Message.outcome_of_shows hkind)
      exact hshows.showView (consistent_noted hconsistent message) view
  | notifies _ hkind =>
      apply Turn.Follows.notifyIfChanged (t := .idle _)
      rcases hkind with rfl | ⟨rfl, -⟩
      all_goals exact hnoted rfl
  | takes t outcome =>
      have hrunning := hfinished t (List.mem_singleton_self t)
      exact follows_takeOutcome s now t outcome hconsistent hrunning
  | retries =>
      refine Turn.Follows.settle (t := .idle _) ((hnoted rfl).extend [] rfl rfl rfl ?_ rfl) ?_
      · exact congrArg Std.ExtTreeMap.keys (Loading.inFlight_enqueueDue s.loading now)
      · exact hconsistent.enqueueDue now

end MapTiles.Source
