import MapTiles.Proofs.Loading.Arrival
import MapTiles.Proofs.Loading.Retries
import MapTiles.Proofs.Source.Orderly
import MapTiles.Proofs.Source.Script
import Mathlib.Algebra.BigOperators.Group.Finset.Piecewise
import Mathlib.Algebra.GroupWithZero.Nat
import Mathlib.Algebra.Order.BigOperators.Group.Finset

/-!
What is left to do around a source whose loads end at once, up to the next timer. A tile on screen
owes one load for each failure that may still come, and one more, until it is done or an outcome
that settles it is on its way. A load that starts lowers what its tile owes by at least one, which
pays for the load and the messages that it causes. No other message from within adds more work
than it takes away.
-/

namespace MapTiles.Source

variable {κ P : Type}

/-- Whether a message comes from the source itself, a timer or a load. -/
def Message.internal : Message P → Bool
  | .loaded _ _ => true
  | .retry => true
  | .flush => true
  | _ => false

theorem Message.internal_of_steers {message : Message P} (h : message.steers = true) :
    message.internal = false := by
  cases message <;> first | rfl | cases h

/-- The work that a message stands for. An outcome may bring about a flush with its delivery, and a
timer that goes off at once. -/
def Message.weight : Message P → Nat
  | .loaded _ _ => 6
  | _ => 1

/-- The work that a task stands for. A timer brings about a message with its delivery. -/
def Task.weight : Task → Nat
  | .deliver => 1
  | .wake => 3

/-- The work that an effect adds. A load brings about an outcome with its delivery, and a timer that
does not go off at once adds none. -/
def Effect.cost : Effect → Nat
  | .load _ _ => 8
  | .wake delay => if delay = 0 then 3 else 0
  | .queueFlush => 2
  | _ => 0

def cost (effects : List Effect) : Nat :=
  (effects.map Effect.cost).sum

@[simp] theorem cost_append (a b : List Effect) : cost (a ++ b) = cost a + cost b := by
  simp [cost]

@[simp] theorem cost_loads (key : Tile → String) (rs : List Request) :
    cost (rs.map fun r => .load r.tile (key r.tile)) = 8 * rs.length := by
  simp [cost, Function.comp_def, Effect.cost, Nat.mul_comm]

/-- What a turn does that no call brought about. -/
structure Turn.Frugal (before : Source P) (message : Message P) (t : Turn P) : Prop where
  visible_eq : t.source.loading.visible = before.loading.visible
  keeps : ∀ u, before.loading.Done u → t.source.loading.Done u
  arrives : ∀ u outcome, message = .loaded u outcome → outcome.isFailed = false →
    u ∈ before.loading.visible → u ∈ before.loading.inFlight → t.source.loading.Done u
  started_visible : ∀ u ∈ started t.effects, u ∈ t.source.loading.visible
  cost_lt : cost t.effects < message.weight + 8 * (started t.effects).length

/-- What starting loads and setting the timer does after a part of a turn that started none.
`extra` is the cost of the timer. -/
structure Turn.Spends (extra : Nat) (t next : Turn P) : Prop where
  visible_eq : next.source.loading.visible = t.source.loading.visible
  done_iff : ∀ u, next.source.loading.Done u ↔ t.source.loading.Done u
  started_visible : ∀ u ∈ started next.effects, u ∈ t.source.loading.visible
  cost_le : cost next.effects ≤ cost t.effects + 8 * (started next.effects).length + extra

theorem spends_settle {t : Turn P} (hconsistent : t.source.loading.Consistent) (now : Instant)
    (hnone : started t.effects = []) {extra : Nat}
    (hextra : ∀ due, t.source.loading.nextRetry? = some due →
      (Effect.wake (due - now)).cost ≤ extra) : Turn.Spends extra t (t.settle now) := by
  cases hpaused : t.source.paused with
  | true =>
      have hidle : t.settle now = t := by
        simp [Turn.settle, Turn.andThen, dispatch_of_paused hpaused, Turn.idle, scheduleRetry,
          hpaused]
      rw [hidle]
      exact ⟨rfl, fun _ => .rfl, by simp [hnone], by omega⟩
  | false =>
      have hvisible := Loading.visible_dispatchAll t.source.loading
      have hdone := Loading.done_dispatchAll_iff t.source.loading
      have hstarted : ∀ u ∈ t.source.loading.dispatchAll.1.map Request.tile,
          u ∈ t.source.loading.visible :=
        fun u hu => Loading.visible_of_dispatchAll hconsistent hu
      rw [settle_of_active hpaused]
      rcases scheduleRetry_cases { t.source with
          loading := t.source.loading.dispatchAll.2 } now with
        ⟨hidle, -⟩ | ⟨due, -, hdue, -, hset⟩
      · simp only [Turn.andThen, hidle, Turn.idle, List.append_nil]
        refine ⟨hvisible, hdone, ?_, ?_⟩
        · rw [started_append, started_loads, hnone]
          exact hstarted
        · simp [hnone]
      · have hcost := hextra due ((Loading.nextRetry_dispatchAll hconsistent).symm.trans hdue)
        have hwake : started [Effect.wake (due - now)] = [] := rfl
        have hsingle : cost [Effect.wake (due - now)] = (Effect.wake (due - now)).cost := by
          simp [cost]
        simp only [Turn.andThen, hset]
        refine ⟨hvisible, hdone, ?_, ?_⟩
        · rw [started_append, started_append, started_loads, hnone, hwake, List.append_nil]
          exact hstarted
        · simp only [cost_append, started_append, started_loads, cost_loads, hnone, hwake, hsingle,
            List.length_append, List.length_map, List.length_nil]
          omega

theorem Turn.Spends.frugal {before : Source P} {message : Message P} {extra : Nat}
    {t next : Turn P} (h : Turn.Spends extra t next)
    (hvisible : t.source.loading.visible = before.loading.visible)
    (hkeeps : ∀ u, before.loading.Done u → t.source.loading.Done u)
    (harrives : ∀ u outcome, message = .loaded u outcome → outcome.isFailed = false →
      u ∈ before.loading.visible → u ∈ before.loading.inFlight → t.source.loading.Done u)
    (hcost : cost t.effects + extra < message.weight) : next.Frugal before message where
  visible_eq := h.visible_eq.trans hvisible
  keeps u hu := (h.done_iff u).mpr (hkeeps u hu)
  arrives u outcome hmessage houtcome hon hflight :=
    (h.done_iff u).mpr (harrives u outcome hmessage houtcome hon hflight)
  started_visible := by
    rw [h.visible_eq]
    exact h.started_visible
  cost_lt := by
    have hle := h.cost_le
    omega

theorem wake_cost_le (delay : Duration) : (Effect.wake delay).cost ≤ 3 := by
  simp only [Effect.cost]
  split <;> omega

theorem cost_taken_le (s : Source P) (now : Instant) (t : Tile) (outcome : Outcome P) :
    cost (s.taken now t outcome).effects ≤ 2 := by
  unfold taken
  dsimp only
  split
  · rcases queueFlush_cases (Source.publish { s with
        loading := (s.loading.complete t outcome now).1 }) with ⟨hidle, -⟩ | ⟨-, -, hqueued⟩
    · rw [hidle]
      exact Nat.zero_le 2
    · rw [hqueued]
      exact Nat.le_refl 2
  · exact Nat.zero_le 2

theorem frugal_takeOutcome {s : Source P} (hconsistent : s.loading.Consistent) (now : Instant)
    (t : Tile) (outcome : Outcome P) :
    (s.takeOutcome now t outcome).Frugal s (.loaded t outcome) := by
  obtain ⟨published, changed, flushQueued, htaken⟩ := s.taken_source now t outcome
  have hloading : (s.taken now t outcome).source.loading =
      (s.loading.complete t outcome now).1 := by
    rw [htaken]
  have hspends : Turn.Spends 3 (s.taken now t outcome) (s.takeOutcome now t outcome) := by
    rw [takeOutcome_eq]
    refine spends_settle ?_ now (started_taken s now t outcome) fun due _ => wake_cost_le _
    rw [hloading]
    exact hconsistent.complete t outcome now
  refine hspends.frugal ?_ ?_ ?_ (Nat.lt_succ_of_le (Nat.add_le_add_right
    (cost_taken_le s now t outcome) 3))
  · rw [hloading, Loading.visible_complete]
  · intro u hu
    rw [hloading]
    exact hu.complete t outcome now
  · intro u other hmessage houtcome hon hflight
    cases hmessage
    rw [hloading]
    exact hconsistent.done_complete hflight hon houtcome now

/-- A message that starts and changes nothing. -/
theorem frugal_of_silent {before : Source P} {message : Message P} {t : Turn P}
    (hloading : t.source.loading = before.loading) (hmessage : message.outcome? = none)
    (hstarted : started t.effects = []) (hcost : cost t.effects = 0) :
    t.Frugal before message where
  visible_eq := congrArg Loading.visible hloading
  keeps u hu := by
    rw [hloading]
    exact hu
  arrives u outcome hloaded := by
    rw [hloaded] at hmessage
    cases hmessage
  started_visible := by simp [hstarted]
  cost_lt := by
    have hweight : 0 < message.weight := by cases message <;> exact Nat.succ_pos _
    simpa [hcost, hstarted] using hweight

theorem frugal_handle {s : Source P} (hconsistent : s.loading.Consistent) (now : Instant)
    {message : Message P} (hinternal : message.internal = true) :
    (s.handle now message).Frugal s message := by
  have hhandled := handling now s message
  generalize s.handle now message = turn at hhandled ⊢
  have hsteers : message.steers ≠ true := by
    intro hsteers
    cases (Message.internal_of_steers hsteers).symm.trans hinternal
  cases hhandled with
  | rests _ hkind =>
      rcases hkind with hkind | rfl | rfl
      · exact absurd hkind hsteers
      · cases hinternal
      · exact frugal_of_silent rfl rfl rfl rfl
  | blank _ hkind => exact absurd hkind hsteers
  | goesOn => cases hinternal
  | answers slot question => cases hinternal
  | shows _ view hkind =>
      rcases hkind with hkind | ⟨rfl, -⟩
      · exact absurd hkind hsteers
      · cases hinternal
  | notifies _ hkind =>
      rcases hkind with rfl | ⟨rfl, -⟩
      · rcases notifyIfChanged_cases (s.noted .flush) with ⟨hidle, -⟩ | ⟨-, -, htold⟩
        · rw [hidle]
          exact frugal_of_silent rfl rfl rfl rfl
        · rw [htold]
          refine frugal_of_silent rfl rfl ?_ ?_
          all_goals
            dsimp only
            split <;> rfl
      · cases hinternal
  | takes t outcome => exact frugal_takeOutcome hconsistent now t outcome
  | retries =>
      let queued : Source P := { s.noted .retry with loading := (s.loading.enqueueDue now).1 }
      have hspends : Turn.Spends 0 (.idle queued) ((Turn.idle queued).settle now) := by
        refine spends_settle (t := .idle queued) (hconsistent.enqueueDue now) now rfl
          fun due hdue => ?_
        have hahead : now < due := Loading.lt_nextRetry_enqueueDue hconsistent hdue
        have hlater : due - now ≠ 0 := Nat.sub_ne_zero_of_lt hahead
        simp [Effect.cost, hlater]
      refine hspends.frugal (Loading.visible_enqueueDue s.loading now) ?_ nofun Nat.one_pos
      exact fun u hu => (Loading.done_enqueueDue_iff s.loading now u).mpr hu

/-- The number of messages from outside that wait. -/
def World.calls (w : World κ P) : Nat :=
  (World.waiting w).countP fun message => !message.internal

/-- The work of the tasks, the messages and the loads that wait. -/
def World.effort (w : World κ P) : Nat :=
  (w.scheduler.ready.map Task.weight).sum + ((World.waiting w).map Message.weight).sum +
    8 * w.scheduler.futures.length

/-- The outcomes of the loads that have ended, but were not asked yet. -/
def World.flown (w : World κ P) : List (Tile × Outcome P) :=
  w.scheduler.futures.filterMap fun load => load.outcome.map fun outcome => (load.tile, outcome)

/-- Whether an outcome that settles a tile is on its way. -/
def World.Promised (w : World κ P) (t : Tile) : Prop :=
  ∃ outcome, (t, outcome) ∈ World.flown w ++ World.outcomes w ∧ outcome.isFailed = false

open Classical in
/-- The number of loads that a tile may still need, if `left` says how often it still fails. -/
noncomputable def World.needs (left : κ → Tile → Nat) (w : World κ P) (s : Source P) (t : Tile) :
    Nat :=
  if s.loading.Done t ∨ World.Promised w t then 0 else left w.state.memory t + 1

/-- The number of loads that the tiles on screen may still need. -/
noncomputable def World.demand (left : κ → Tile → Nat) (w : World κ P) (s : Source P) : Nat :=
  ∑ t ∈ s.loading.visible.keys.toFinset, World.needs left w s t

section Effort

variable {w : World κ P}

theorem effort_addTask (w : World κ P) (task : Task) :
    World.effort (w.addTask 0 task) = World.effort w + task.weight := by
  have hready : ((w.addTask 0 task).scheduler.ready.map Task.weight).sum =
      (w.scheduler.ready.map Task.weight).sum + task.weight := by
    simp [System.addTask, Scheduler.addTask]
  have hwaiting : World.waiting (w.addTask 0 task) = World.waiting w := rfl
  have hfutures : (w.addTask 0 task).scheduler.futures = w.scheduler.futures := rfl
  rw [World.effort, hready, hwaiting, hfutures, World.effort]
  omega

/-- A message that is no view goes behind those that wait. -/
theorem waiting_push {message : Message P} (hview : message.view? = none) :
    World.waiting (World.push w message) = World.waiting w ++ [message] := by
  have hplace : Mailbox.place message.envelope w.state.mailbox.queue =
      w.state.mailbox.queue ++ [message.envelope] := by
    cases message with
    | «show» view => cases hview
    | _ => exact Mailbox.place_of_append rfl
  rw [World.waiting, queue_push, hplace, List.map_append, List.map_singleton, content_envelope]
  rfl

theorem effort_push {message : Message P} (hview : message.view? = none) :
    World.effort (World.push w message) ≤ World.effort w + message.weight + 1 := by
  have hready : ((World.push w message).scheduler.ready.map Task.weight).sum ≤
      (w.scheduler.ready.map Task.weight).sum + 1 := by
    unfold World.push
    dsimp only
    split
    · simp [System.addTask, Scheduler.addTask, System.modify, Task.weight]
    · exact Nat.le_succ _
  have hfutures : (World.push w message).scheduler.futures = w.scheduler.futures := by
    unfold World.push
    dsimp only
    split <;> rfl
  simp only [World.effort, waiting_push hview, hfutures, List.map_append, List.sum_append,
    List.map_singleton, List.sum_singleton]
  omega

theorem effort_perform (loader : Loader κ P) (w : World κ P) (effect : Effect) :
    World.effort (World.perform loader w effect) ≤ World.effort w + effect.cost := by
  cases effect with
  | load t key =>
      have hfutures : (World.perform loader w (.load t key)).scheduler.futures.length =
          w.scheduler.futures.length + 1 := List.length_append
      simp only [World.effort, hfutures, Effect.cost, Nat.mul_add]
      exact Nat.le_refl _
  | cancel t key =>
      simp only [World.perform]
      split <;> exact Nat.le_refl _
  | wake delay =>
      simp only [World.perform, Effect.cost]
      split
      case isTrue hnone =>
        rw [hnone, effort_addTask]
        exact Nat.le_refl _
      case isFalse hlater =>
        unfold System.addTask Scheduler.addTask
        rw [if_neg hlater]
        exact Nat.le_refl _
  | queueFlush =>
      have hview : (Message.flush : Message P).view? = none := rfl
      exact effort_push hview
  | notify => exact Nat.le_refl _
  | answer slot value => exact Nat.le_refl _

theorem effort_foldl (loader : Loader κ P) (w : World κ P) (effects : List Effect) :
    World.effort (effects.foldl (World.perform loader) w) ≤ World.effort w + cost effects := by
  induction effects generalizing w with
  | nil => exact Nat.le_refl _
  | cons effect rest ih =>
      have hfirst := effort_perform loader w effect
      have hrest := ih (World.perform loader w effect)
      have hcost : cost (effect :: rest) = effect.cost + cost rest := by simp [cost]
      rw [List.foldl_cons]
      omega

end Effort

/-- The loads that effects start have outcomes, and each that will fail lowers how often its tile
still fails. -/
structure World.Launched (left : κ → Tile → Nat) (effects : List Effect) (w after : World κ P)
    (ended : List (Tile × Outcome P)) : Prop where
  flown_eq : World.flown after = World.flown w ++ ended
  tiles_eq : ended.map Prod.fst = started effects
  left_le : ∀ t, left after.state.memory t ≤ left w.state.memory t
  lowers : ∀ entry ∈ ended, entry.2.isFailed = true →
    left after.state.memory entry.1 < left w.state.memory entry.1

section Launched

variable {loader : Loader κ P} {left : κ → Tile → Nat}

theorem flown_push (w : World κ P) (message : Message P) :
    World.flown (World.push w message) = World.flown w := by
  unfold World.push
  dsimp only
  split <;> rfl

theorem memory_push (w : World κ P) (message : Message P) :
    (World.push w message).state.memory = w.state.memory := by
  unfold World.push
  dsimp only
  split <;> rfl

/-- An effect that starts no load. -/
theorem World.Launched.none {effect : Effect} {w after : World κ P}
    (hstarted : effect.started? = Option.none) (hflown : World.flown after = World.flown w)
    (hmemory : after.state.memory = w.state.memory) :
    World.Launched left [effect] w after [] where
  flown_eq := by rw [hflown, List.append_nil]
  tiles_eq := by simp [started, hstarted]
  left_le t := by rw [hmemory]
  lowers := nofun

theorem exists_launched (hsettles : loader.Settles left) (w : World κ P) (effect : Effect) :
    ∃ ended, World.Launched left [effect] w (World.perform loader w effect) ended := by
  cases effect with
  | load t key =>
      obtain ⟨outcome, houtcome⟩ :=
        Option.isSome_iff_exists.mp (hsettles.ends t key w.state.memory)
      refine ⟨[(t, outcome)], ?_, rfl, hsettles.left_le t key w.state.memory, ?_⟩
      · simp [World.flown, World.perform, World.load, World.note, System.modify, System.spawn,
          Scheduler.spawn, houtcome]
      · intro entry hentry hfailed
        rw [List.mem_singleton.mp hentry] at hfailed ⊢
        exact hsettles.lowers t key w.state.memory outcome houtcome hfailed
  | cancel t key =>
      refine ⟨[], .none rfl ?_ ?_⟩
      all_goals
        simp only [World.perform]
        split <;> rfl
  | wake delay =>
      refine ⟨[], .none rfl ?_ rfl⟩
      unfold World.perform System.addTask Scheduler.addTask World.flown
      dsimp only
      split <;> rfl
  | queueFlush => exact ⟨[], .none rfl (flown_push w .flush) (memory_push w .flush)⟩
  | notify => exact ⟨[], .none rfl rfl rfl⟩
  | answer slot value => exact ⟨[], .none rfl rfl rfl⟩

theorem exists_launched_foldl (hsettles : loader.Settles left) (w : World κ P)
    (effects : List Effect) :
    ∃ ended, World.Launched left effects w (effects.foldl (World.perform loader) w) ended := by
  induction effects generalizing w with
  | nil => exact ⟨[], (List.append_nil _).symm, rfl, fun _ => Nat.le_refl _, nofun⟩
  | cons effect rest ih =>
      obtain ⟨first, hfirst⟩ := exists_launched hsettles w effect
      obtain ⟨later, hlater⟩ := ih (World.perform loader w effect)
      refine ⟨first ++ later, ?_, ?_, ?_, ?_⟩
      · rw [List.foldl_cons, hlater.flown_eq, hfirst.flown_eq, List.append_assoc]
      · rw [List.map_append, hfirst.tiles_eq, hlater.tiles_eq, ← started_append]
        rfl
      · exact fun t => Nat.le_trans (hlater.left_le t) (hfirst.left_le t)
      · intro entry hentry hfailed
        rcases List.mem_append.mp hentry with hearly | hlate
        · exact Nat.lt_of_le_of_lt (hlater.left_le entry.1) (hfirst.lowers entry hearly hfailed)
        · exact Nat.lt_of_lt_of_le (hlater.lowers entry hlate hfailed) (hfirst.left_le entry.1)

end Launched

theorem flying_of_flown {w : World κ P} {entry : Tile × Outcome P} (h : entry ∈ World.flown w) :
    entry.1 ∈ World.flying w := by
  obtain ⟨load, hload, hentry⟩ := List.mem_filterMap.mp h
  obtain ⟨outcome, -, rfl⟩ := Option.map_eq_some_iff.mp hentry
  exact List.mem_map_of_mem hload

/-- What is known once a message from within was handled. -/
structure World.Handled (left : κ → Tile → Nat) (w : World κ P) (s : Source P)
    (message : Message P) (after : World κ P) (t : Turn P) (ended : List (Tile × Outcome P)) :
    Prop where
  frugal : t.Frugal s message
  launched : World.Launched left t.effects w after ended
  flying_eq : World.flying after = World.flying w ++ started t.effects
  outcomes_eq : World.outcomes w = message.outcome?.toList ++ World.outcomes after
  finished : ∀ u ∈ message.finished, u ∈ s.loading.inFlight
  consistent : t.source.loading.Consistent
  accounted : (World.flying after ++ World.landed after).Perm t.source.loading.inFlight.keys

namespace World.Handled

variable {left : κ → Tile → Nat} {w after : World κ P} {s : Source P} {t : Turn P}
  {message : Message P} {ended : List (Tile × Outcome P)} {u : Tile}

theorem nodup (h : World.Handled left w s message after t ended) :
    (World.flying after ++ World.landed after).Nodup :=
  h.accounted.nodup_iff.mpr Std.ExtTreeMap.nodup_keys

theorem not_done_of_started (h : World.Handled left w s message after t ended)
    (hu : u ∈ started t.effects) : ¬t.source.loading.Done u := by
  apply h.consistent.not_done_of_inFlight
  rw [← Std.ExtTreeMap.mem_keys]
  apply h.accounted.mem_iff.mp
  rw [h.flying_eq]
  exact List.mem_append_left _ (List.mem_append_right _ hu)

/-- An outcome that was promised still is, or settled its tile. -/
theorem promised_cases (h : World.Handled left w s message after t ended)
    (hvisible : u ∈ s.loading.visible) (hpromised : World.Promised w u) :
    World.Promised after u ∧ u ∉ started t.effects ∨ t.source.loading.Done u := by
  obtain ⟨outcome, hmember, houtcome⟩ := hpromised
  have hnodup := h.nodup
  rw [h.outcomes_eq] at hmember
  simp only [List.mem_append, Option.mem_toList] at hmember
  rcases hmember with hflown | hmessage | hwaits
  -- a tile that flies or has landed is loading, so it does not start again
  · left
    refine ⟨⟨outcome, ?_, houtcome⟩, ?_⟩
    · rw [h.launched.flown_eq]
      exact List.mem_append_left _ (List.mem_append_left _ hflown)
    · rw [h.flying_eq] at hnodup
      have hdisjoint := (List.nodup_append.mp (List.nodup_append.mp hnodup).1).2.2
      exact fun hstarted => hdisjoint u (flying_of_flown hflown) u hstarted rfl
  -- the outcome is taken by this message
  · right
    have hloaded : message = .loaded u outcome := by
      cases message <;> cases hmessage
      rfl
    apply h.frugal.arrives u outcome hloaded houtcome hvisible
    apply h.finished
    simp [Message.finished, hmessage]
  · left
    refine ⟨⟨outcome, List.mem_append_right _ hwaits, houtcome⟩, fun hstarted => ?_⟩
    rw [h.flying_eq] at hnodup
    have hdisjoint := (List.nodup_append.mp hnodup).2.2
    exact hdisjoint u (List.mem_append_right _ hstarted) u (List.mem_map_of_mem hwaits) rfl

/-- A tile that starts needed the load. -/
theorem needs_of_started (h : World.Handled left w s message after t ended)
    (hvisible : u ∈ s.loading.visible) (hu : u ∈ started t.effects) :
    World.needs left after t.source u + 1 ≤ World.needs left w s u := by
  have hundone := h.not_done_of_started hu
  have hneeded : World.needs left w s u = left w.state.memory u + 1 := by
    apply if_neg
    rintro (hdone | hpromised)
    · exact hundone (h.frugal.keeps u hdone)
    · rcases h.promised_cases hvisible hpromised with ⟨-, hother⟩ | hdone
      · exact hother hu
      · exact hundone hdone
  rw [← h.launched.tiles_eq] at hu
  obtain ⟨⟨_, outcome⟩, hentry, rfl⟩ := List.mem_map.mp hu
  rw [hneeded]
  unfold World.needs
  split
  case isTrue => exact Nat.le_add_left _ _
  case isFalse hlacking =>
    have hfailed : outcome.isFailed = true := by
      apply Bool.of_not_eq_false
      intro houtcome
      refine hlacking (.inr ⟨outcome, ?_, houtcome⟩)
      rw [h.launched.flown_eq]
      exact List.mem_append_left _ (List.mem_append_right _ hentry)
    exact Nat.succ_le_succ (h.launched.lowers _ hentry hfailed)

/-- No tile on screen needs more loads than before. -/
theorem needs_le (h : World.Handled left w s message after t ended)
    (hvisible : u ∈ s.loading.visible) :
    World.needs left after t.source u ≤ World.needs left w s u := by
  unfold World.needs
  split
  case isTrue => exact Nat.zero_le _
  case isFalse hlacking =>
    rw [if_neg]
    · exact Nat.succ_le_succ (h.launched.left_le u)
    · rintro (hdone | hpromised)
      · exact hlacking (.inl (h.frugal.keeps u hdone))
      · rcases h.promised_cases hvisible hpromised with ⟨hstill, -⟩ | hdone
        · exact hlacking (.inr hstill)
        · exact hlacking (.inl hdone)

/-- Every load that starts lowers what the tiles on screen need. -/
theorem demand_le (h : World.Handled left w s message after t ended) :
    World.demand left after t.source + (started t.effects).length ≤ World.demand left w s := by
  have hnodup : (started t.effects).Nodup := by
    have hflying := h.nodup
    rw [h.flying_eq] at hflying
    exact (List.nodup_append.mp (List.nodup_append.mp hflying).1).2.1
  have hvisible := h.frugal.visible_eq
  have hpays : ∀ u ∈ s.loading.visible.keys.toFinset,
      World.needs left after t.source u + (if u ∈ started t.effects then 1 else 0) ≤
        World.needs left w s u := by
    intro u hu
    have hon : u ∈ s.loading.visible := by simpa using hu
    split
    case isTrue hstarted => exact h.needs_of_started hon hstarted
    case isFalse => exact h.needs_le hon
  have hcount : (started t.effects).length =
      ∑ u ∈ s.loading.visible.keys.toFinset, if u ∈ started t.effects then 1 else 0 := by
    have hsubset : (started t.effects).toFinset ⊆ s.loading.visible.keys.toFinset := by
      intro u hu
      have hon := h.frugal.started_visible u (List.mem_toFinset.mp hu)
      rw [hvisible] at hon
      simpa using hon
    rw [← List.toFinset_card_of_nodup hnodup, ← Finset.card_filter]
    congr 1
    ext u
    simpa using @hsubset u
  rw [World.demand, World.demand, hvisible, hcount, ← Finset.sum_add_distrib]
  exact Finset.sum_le_sum hpays

end World.Handled

end MapTiles.Source
