import MapTiles.Proofs.Loading.Cancellation
import MapTiles.Proofs.Source.Effects

/-!
What a source says to its loader while it handles a message. It cancels the loads of the tiles that
the message takes off the screen, each once and in tile order, and starts loads only for tiles that
are on screen once the message is handled. All of them go by the key that the layer gives a tile.
-/

namespace MapTiles.Source

variable {P : Type}

/-- The tile of a load that an effect cancels, and its key. -/
def Effect.cancelled? : Effect → Option (Tile × String)
  | .cancel t key => some (t, key)
  | _ => none

/-- The loads that effects cancel, in order. -/
def cancels (effects : List Effect) : List (Tile × String) :=
  effects.filterMap Effect.cancelled?

@[simp] theorem cancels_append (a b : List Effect) : cancels (a ++ b) = cancels a ++ cancels b :=
  List.filterMap_append

@[simp] theorem cancels_loads (key : Tile → String) (rs : List Request) :
    cancels (rs.map fun r => .load r.tile (key r.tile)) = [] := by
  simp [cancels, List.filterMap_map, Effect.cancelled?, Function.comp_def]

@[simp] theorem cancels_cancels (key : Tile → String) (tiles : List Tile) :
    cancels (tiles.map fun t => .cancel t (key t)) = tiles.map fun t => (t, key t) := by
  simp [cancels, List.filterMap_map, Effect.cancelled?, Function.comp_def]

/-- The running loads whose tiles are on screen in one state of the bookkeeping and not in another,
in tile order. -/
def unwanted (before after : Loading P) : List Tile :=
  before.inFlight.keys.filter fun t => before.visible.contains t && !after.visible.contains t

theorem unwanted_self (s : Loading P) : unwanted s s = [] := by
  simp [unwanted]

/-- What a turn says to the loader. -/
structure Turn.Instructs (before : Source P) (t : Turn P) : Prop where
  setup_eq : t.source.setup = before.setup
  keyed : ∀ u key, .load u key ∈ t.effects → key = before.setup.layer.key u
  /-- Loads start only for tiles on screen, and not during a pause. -/
  starts : ∀ u ∈ started t.effects, t.source.paused = false ∧ u ∈ t.source.loading.visible
  cancels_eq : cancels t.effects =
    (unwanted before.loading t.source.loading).map fun u => (u, before.setup.layer.key u)

section Turn

variable {before s : Source P} {t : Turn P}

theorem not_load_of_started {effects : List Effect} (h : started effects = []) (u : Tile)
    (key : String) : .load u key ∉ effects := fun hload =>
  nomatch List.filterMap_eq_nil_iff.mp h _ hload

/-- More effects that start and cancel nothing, and a source that shows the same. -/
theorem Turn.Instructs.extend {next : Turn P} (h : t.Instructs before) (more : List Effect)
    (heffects : next.effects = t.effects ++ more) (hstarted : started more = [])
    (hcancels : cancels more = []) (hsetup : next.source.setup = t.source.setup)
    (hpaused : next.source.paused = t.source.paused)
    (hvisible : next.source.loading.visible = t.source.loading.visible) :
    next.Instructs before where
  setup_eq := hsetup.trans h.setup_eq
  keyed u key hload := by
    rw [heffects, List.mem_append] at hload
    exact hload.elim (h.keyed u key) fun hmore =>
      absurd hmore (not_load_of_started hstarted u key)
  starts := by
    rw [heffects, started_append, hstarted, List.append_nil, hpaused, hvisible]
    exact h.starts
  cancels_eq := by
    rw [heffects, cancels_append, hcancels, List.append_nil, h.cancels_eq, unwanted, unwanted,
      hvisible]

theorem Turn.Instructs.dispatch (h : t.Instructs before)
    (hconsistent : t.source.loading.Consistent) :
    (t.andThen Source.dispatch).Instructs before := by
  cases hpaused : t.source.paused with
  | true =>
      refine h.extend [] ?_ rfl rfl ?_ ?_ ?_
      all_goals simp [Turn.andThen, dispatch_of_paused hpaused, Turn.idle]
  | false =>
      simp only [Turn.andThen, dispatch_of_active hpaused]
      have hvisible := Loading.visible_dispatchAll t.source.loading
      refine ⟨h.setup_eq, fun u key hload => ?_, fun u hu => ⟨hpaused, ?_⟩, ?_⟩
      · rcases List.mem_append.mp hload with hearlier | hnow
        · exact h.keyed u key hearlier
        · obtain ⟨r, -, hsame⟩ := List.mem_map.mp hnow
          cases hsame
          rw [h.setup_eq]
      · rw [hvisible]
        rw [started_append, started_loads, List.mem_append] at hu
        exact hu.elim (fun hearlier => (h.starts u hearlier).2)
          (Loading.visible_of_dispatchAll hconsistent)
      · rw [cancels_append, cancels_loads, List.append_nil, h.cancels_eq, unwanted, unwanted,
          hvisible]

theorem Turn.Instructs.scheduleRetry (h : t.Instructs before) (now : Instant) :
    (t.andThen (Source.scheduleRetry now)).Instructs before := by
  rcases scheduleRetry_cases t.source now with ⟨hidle, -⟩ | ⟨due, -, -, -, hset⟩
  · refine h.extend [] ?_ rfl rfl ?_ ?_ ?_
    all_goals simp [Turn.andThen, hidle, Turn.idle]
  · refine h.extend [.wake (due - now)] ?_ rfl rfl ?_ ?_ ?_
    all_goals simp [Turn.andThen, hset]

theorem Turn.Instructs.settle (h : t.Instructs before)
    (hconsistent : t.source.loading.Consistent) (now : Instant) :
    (t.settle now).Instructs before :=
  (h.dispatch hconsistent).scheduleRetry now

theorem Turn.Instructs.notifyIfChanged (h : t.Instructs before) :
    (t.andThen Source.notifyIfChanged).Instructs before := by
  rcases notifyIfChanged_cases t.source with ⟨hidle, -⟩ | ⟨-, -, htold⟩
  · refine h.extend [] ?_ rfl rfl ?_ ?_ ?_
    all_goals simp [Turn.andThen, hidle, Turn.idle]
  · refine h.extend (if t.source.setup.listening then [.notify] else []) ?_ ?_ ?_ ?_ ?_ ?_
    case refine_2 => split <;> rfl
    case refine_3 => split <;> rfl
    all_goals simp [Turn.andThen, htold]

/-- A turn that says nothing to the loader leaves what is on screen as it is. -/
theorem instructs_of_silent (hstarted : started t.effects = []) (hcancels : cancels t.effects = [])
    (hsetup : t.source.setup = before.setup)
    (hvisible : t.source.loading.visible = before.loading.visible) : t.Instructs before := by
  have hnone : unwanted before.loading t.source.loading = [] := by
    rw [unwanted, hvisible]
    exact unwanted_self before.loading
  refine ⟨hsetup, fun u key hload => absurd hload (not_load_of_started hstarted u key), ?_, ?_⟩
  · simp [hstarted]
  · rw [hcancels, hnone, List.map_nil]

/-- What is on screen, what is loading and how does not change before any work is done. -/
theorem shown_noted (s : Source P) (message : Message P) :
    (s.noted message).setup = s.setup ∧
      (s.noted message).loading.visible = s.loading.visible ∧
      (s.noted message).loading.inFlight = s.loading.inFlight := by
  refine ⟨?_, ?_⟩
  · cases message with
    | pause =>
        simp only [noted, pause]
        split <;> rfl
    | reload =>
        simp only [noted]
        split <;> rfl
    | _ => rfl
  · rcases loading_noted_cases s message with hsame | ⟨-, hcleared⟩ | ⟨-, hreset⟩
    · rw [hsame]
      exact ⟨rfl, rfl⟩
    · rw [hcleared]
      exact ⟨rfl, rfl⟩
    · rw [hreset]
      exact ⟨rfl, rfl⟩

theorem instructs_noted (s : Source P) (message : Message P) :
    (Turn.idle (s.noted message)).Instructs s := by
  obtain ⟨hsetup, hvisible, -⟩ := shown_noted s message
  exact instructs_of_silent rfl rfl hsetup hvisible

/-- A new view cancels the loads of the tiles that leave the screen. -/
theorem instructs_moved (hconsistent : s.loading.Consistent) (now : Instant) (view : WantedView) :
    (s.moved now view).Instructs s := by
  obtain ⟨published, changed, hmoved⟩ := s.moved_source now view
  have hstarted : started (s.moved now view).effects = [] := started_cancels s.setup.layer.key _
  refine ⟨by rw [hmoved], fun u key hload => absurd hload (not_load_of_started hstarted u key),
    by simp [hstarted], ?_⟩
  have hcancels : cancels (s.moved now view).effects =
      (s.loading.updateVisible (s.viewTiles view) now).2.cancelled.map fun t =>
        (t, s.setup.layer.key t) := cancels_cancels s.setup.layer.key _
  rw [hcancels, hconsistent.cancelled_updateVisible (s.viewTiles view) now, hmoved]
  rfl

theorem instructs_showView (hconsistent : s.loading.Consistent) (now : Instant)
    (view : WantedView) : (s.showView now view).Instructs s := by
  obtain ⟨published, changed, hmoved⟩ := s.moved_source now view
  rw [showView_eq]
  refine ((instructs_moved hconsistent now view).settle ?_ now).notifyIfChanged
  rw [hmoved]
  exact hconsistent.updateVisible _ now

theorem instructs_takeOutcome (hconsistent : s.loading.Consistent) (now : Instant) (t : Tile)
    (outcome : Outcome P) : (s.takeOutcome now t outcome).Instructs s := by
  obtain ⟨published, changed, flushQueued, htaken⟩ := s.taken_source now t outcome
  have hcancels : cancels (s.taken now t outcome).effects = [] := by
    unfold taken
    dsimp only
    split
    · generalize Source.publish _ = next
      rcases queueFlush_cases next with ⟨hidle, -⟩ | ⟨-, -, hqueued⟩
      · rw [hidle]
        rfl
      · rw [hqueued]
        rfl
    · rfl
  rw [takeOutcome_eq]
  refine (instructs_of_silent (started_taken s now t outcome) hcancels ?_ ?_).settle ?_ now
  · rw [htaken]
  · rw [htaken]
    exact Loading.visible_complete ..
  · rw [htaken]
    exact hconsistent.complete t outcome now

/-- Whatever message a source handles, it cancels the loads of the tiles that leave the screen. -/
theorem instructs_handle (hconsistent : s.loading.Consistent) (now : Instant)
    (message : Message P) : (s.handle now message).Instructs s := by
  have hnoted := instructs_noted s message
  have hhandled := handling now s message
  generalize s.handle now message = turn at hhandled ⊢
  cases hhandled with
  | rests => exact hnoted
  | blank => exact hnoted
  | goesOn => exact instructs_of_silent rfl rfl rfl rfl
  | answers slot question => exact instructs_of_silent rfl rfl rfl rfl
  | shows _ view =>
      obtain ⟨hsetup, hvisible, hflight⟩ := shown_noted s message
      have hshown := instructs_showView (consistent_noted hconsistent message) now view
      refine ⟨hshown.setup_eq.trans hsetup, ?_, hshown.starts, ?_⟩
      · rw [← hsetup]
        exact hshown.keyed
      · rw [hshown.cancels_eq, hsetup, unwanted, unwanted, hvisible, hflight]
  | notifies => exact Turn.Instructs.notifyIfChanged (t := .idle _) hnoted
  | takes t outcome => exact instructs_takeOutcome hconsistent now t outcome
  | retries =>
      refine Turn.Instructs.settle (t := .idle _) ?_ ?_ now
      · exact instructs_of_silent rfl rfl rfl (Loading.visible_enqueueDue s.loading now)
      · exact hconsistent.enqueueDue now

end Turn

end MapTiles.Source
