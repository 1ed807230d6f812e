import MapTiles.Proofs.Backoff
import MapTiles.Proofs.Loading.Retries
import MapTiles.Proofs.Source.Moves
import MapTiles.Proofs.Source.Script

/-!
The timers of a source. A turn sets at most one, for the next attempt, which lies ahead, and only
if none that the source relies on goes off by then. But the source relies on one timer only, and on
none once it has handled a retry. Of the timers that were set since then, each one is earlier than
those before it. Of older ones that have not gone off yet the source knows nothing, so that it may
set another one for the same instant.
-/

namespace MapTiles.Source

variable {κ P : Type}

/-- How long a timer runs that an effect sets. -/
def Effect.delay? : Effect → Option Duration
  | .wake delay => some delay
  | _ => none

/-- How long the timers run that effects set, in order. -/
def delays (effects : List Effect) : List Duration :=
  effects.filterMap Effect.delay?

@[simp] theorem delays_append (a b : List Effect) : delays (a ++ b) = delays a ++ delays b :=
  List.filterMap_append

@[simp] theorem delays_loads (key : Tile → String) (rs : List Request) :
    delays (rs.map fun r => .load r.tile (key r.tile)) = [] := by
  simp [delays, List.filterMap_map, Effect.delay?, Function.comp_def]

@[simp] theorem delays_cancels (key : Tile → String) (tiles : List Tile) :
    delays (tiles.map fun t => .cancel t (key t)) = [] := by
  simp [delays, List.filterMap_map, Effect.delay?, Function.comp_def]

@[simp] theorem delays_wake (delay : Duration) : delays [.wake delay] = [delay] := rfl

theorem mem_delays {effects : List Effect} {delay : Duration} :
    delay ∈ delays effects ↔ Effect.wake delay ∈ effects := by
  rw [delays, List.mem_filterMap]
  constructor
  · rintro ⟨effect, heffect, hdelay⟩
    cases effect with
    | wake other =>
        cases hdelay
        exact heffect
    | _ => cases hdelay
  · exact fun heffect => ⟨_, heffect, rfl⟩

/-- What a turn does about the timer that was relied on before it. -/
inductive Turn.Arms (now : Instant) (armed : Option Instant) (t : Turn P) : Prop
  | keeps (hdelays : delays t.effects = []) (htimer : t.source.retryTimer = armed)
  | sets (due : Instant) (hdelays : delays t.effects = [due - now])
      (htimer : t.source.retryTimer = some due) (hactive : t.source.paused = false)
      (hnext : t.source.loading.nextRetry? = some due) (hahead : now < due)
      (hearly : ∀ other, armed = some other → due < other)

variable {now : Instant} {armed : Option Instant}

/-- A timer that a turn sets is for a tile that backs off. -/
theorem Turn.Arms.exists_backsOff {t : Turn P} (h : t.Arms now armed) {delay : Duration}
    (hset : Effect.wake delay ∈ t.effects) :
    ∃ u record, t.source.loading.BacksOff u record ∧ now + delay = record.retryAt := by
  rw [← mem_delays] at hset
  cases h with
  | keeps hnone =>
      rw [hnone] at hset
      cases hset
  | sets due hdelays _ _ hnext hahead =>
      rw [hdelays] at hset
      obtain rfl := List.mem_singleton.mp hset
      obtain ⟨⟨u, record, hbacks, hdue⟩, -⟩ := (Loading.nextRetry_eq_some_iff _ _).mp hnext
      exact ⟨u, record, hbacks, (Nat.add_sub_of_le (Nat.le_of_lt hahead)).trans hdue.symm⟩

/-- A timer that a turn sets goes off later. -/
theorem Turn.Arms.delay_pos {t : Turn P} (h : t.Arms now armed) {delay : Duration}
    (hset : Effect.wake delay ∈ t.effects) : 0 < delay := by
  rw [← mem_delays] at hset
  cases h with
  | keeps hnone =>
      rw [hnone] at hset
      cases hset
  | sets due hdelays _ _ _ hahead =>
      rw [hdelays] at hset
      obtain rfl := List.mem_singleton.mp hset
      exact Nat.sub_pos_of_lt hahead

/-- A notification has no part in it. -/
theorem Turn.Arms.notifyIfChanged {t : Turn P} (h : t.Arms now armed) :
    (t.andThen Source.notifyIfChanged).Arms now armed := by
  rcases notifyIfChanged_cases t.source with ⟨hidle, -⟩ | ⟨-, -, hnotified⟩
  · have hsame : t.andThen Source.notifyIfChanged = t := by
      simp [Turn.andThen, hidle, Turn.idle]
    rwa [hsame]
  · have hdelays : delays (t.effects ++ if t.source.setup.listening then [.notify] else []) =
        delays t.effects := by
      rw [delays_append]
      split <;> exact List.append_nil _
    rw [Turn.andThen, hnotified]
    cases h with
    | keeps hnone htimer => exact .keeps (hdelays.trans hnone) htimer
    | sets due hset htimer hactive hnext hahead hearly =>
        exact .sets due (hdelays.trans hset) htimer hactive hnext hahead hearly

/-- A timer is set at the end of a turn, if at all. The attempt must lie ahead unless the timer
relied on goes off by then. -/
theorem arms_settle {t : Turn P} (hconsistent : t.source.loading.Consistent)
    (hdelays : delays t.effects = []) (htimer : t.source.retryTimer = armed)
    (hahead : t.source.paused = false → ∀ due, t.source.loading.nextRetry? = some due →
      (∀ other, armed = some other → due < other) → now < due) :
    (t.settle now).Arms now armed := by
  cases hpaused : t.source.paused with
  | true =>
      rw [settle_of_paused hpaused]
      exact .keeps hdelays htimer
  | false =>
      rw [settle_of_active hpaused]
      have hnext := Loading.nextRetry_dispatchAll hconsistent
      generalize hmiddle : ({ t.source with loading := t.source.loading.dispatchAll.2 } :
        Source P) = middle
      have hloading : middle.loading = t.source.loading.dispatchAll.2 := by rw [← hmiddle]
      have hrelied : middle.retryTimer = armed := by rw [← hmiddle, ← htimer]
      rcases scheduleRetry_cases middle now with ⟨hidle, -⟩ | ⟨due, hactive, hdue, hearly, hset⟩
      · refine .keeps ?_ ?_
        · simp [Turn.andThen, hidle, Turn.idle, hdelays]
        · simp [Turn.andThen, hidle, Turn.idle, hrelied]
      · rw [hrelied] at hearly
        have hbefore : t.source.loading.nextRetry? = some due := by
          rw [← hnext, ← hloading, hdue]
        refine .sets due ?_ ?_ ?_ ?_ (hahead hpaused due hbefore hearly) hearly
        · simp [Turn.andThen, hset, hdelays]
        · simp [Turn.andThen, hset]
        · simp [Turn.andThen, hset, hactive]
        · simp [Turn.andThen, hset, hdue]

theorem retryTimer_noted (s : Source P) (message : Message P) :
    (s.noted message).retryTimer = message.timer s.retryTimer := by
  cases message with
  | pause =>
      simp only [noted, pause]
      split <;> rfl
  | reload =>
      simp only [noted]
      split <;> rfl
  | _ => rfl

theorem delays_taken (s : Source P) (now : Instant) (t : Tile) (outcome : Outcome P) :
    delays (s.taken now t outcome).effects = [] := by
  unfold taken
  dsimp only
  split
  · rcases queueFlush_cases (Source.publish { s with
        loading := (s.loading.complete t outcome now).1 }) with ⟨hidle, -⟩ | ⟨-, -, hqueued⟩
    · rw [hidle]
      rfl
    · rw [hqueued]
      rfl
  · rfl

section Handle

variable {setup : Setup} {limits : Nat × BackoffPolicy} {s : Source P}

/-- An outcome leaves no attempt behind that is due and has no timer. -/
theorem ahead_of_complete (h : s.Settled setup limits) (hmin : 0 < limits.2.min)
    (hactive : s.paused = false) {t : Tile} {outcome : Outcome P} {due : Instant}
    (hnext : Loading.nextRetry? (s.loading.complete t outcome now).1 = some due)
    (hearly : ∀ other, s.retryTimer = some other → due < other) : now < due := by
  obtain ⟨⟨u, record, hbacks, rfl⟩, -⟩ := (Loading.nextRetry_eq_some_iff _ _).mp hnext
  rcases Loading.backsOff_of_complete h.consistent t outcome hbacks with hbefore | hfailed
  -- a tile that backed off before has a timer that goes off by its time
  · obtain ⟨first, hfirst, hle⟩ := hbefore.exists_nextRetry_le
    obtain ⟨other, hother, hsoon⟩ := h.armed hactive first hfirst
    exact absurd (hearly other hother) (Nat.not_lt.mpr (Nat.le_trans hsoon hle))
  · have hpolicy : s.loading.backoff = limits.2 := congrArg Prod.snd h.limits_eq
    have hdelay :=
      s.loading.backoff.min_le_nextDelay (s.loading.errors[t]?.map ErrorRecord.delay)
    rw [hpolicy] at hfailed hdelay
    rw [hfailed]
    exact Nat.lt_add_of_pos_right (Nat.lt_of_lt_of_le hmin hdelay)

/-- What every message does about the timer. -/
theorem arms_handle (h : s.Settled setup limits) (hmin : 0 < limits.2.min) (now : Instant)
    (message : Message P) :
    (s.handle now message).Arms now (message.timer s.retryTimer) := by
  have hnoted := retryTimer_noted s message
  have hhandled := handling now s message
  generalize s.handle now message = turn at hhandled ⊢
  cases hhandled with
  | rests => exact .keeps rfl hnoted
  | blank => exact .keeps rfl hnoted
  | goesOn => exact .keeps rfl rfl
  | answers slot question => exact .keeps rfl rfl
  | shows _ view =>
      have hconsistent := consistent_noted h.consistent message
      obtain ⟨published, changed, hmoved⟩ := (s.noted message).moved_source now view
      rw [showView_eq]
      refine (arms_settle ?_ (delays_cancels _ _) ?_ ?_).notifyIfChanged
      · rw [hmoved]
        exact hconsistent.updateVisible _ now
      · rw [hmoved]
        exact hnoted
      · intro _ due hnext _
        rw [hmoved] at hnext
        exact Loading.lt_nextRetry_updateVisible hconsistent hnext
  | notifies => exact (Turn.Arms.keeps (t := .idle _) rfl hnoted).notifyIfChanged
  | takes t outcome =>
      obtain ⟨published, changed, flushQueued, htaken⟩ := s.taken_source now t outcome
      rw [takeOutcome_eq]
      refine arms_settle ?_ (delays_taken s now t outcome) ?_ ?_
      · rw [htaken]
        exact h.consistent.complete t outcome now
      · rw [htaken]
        rfl
      · intro hactive due hnext hearly
        rw [htaken] at hactive hnext
        exact ahead_of_complete h hmin hactive hnext hearly
  | retries =>
      refine arms_settle (t := .idle _) (h.consistent.enqueueDue now) rfl rfl ?_
      exact fun _ due hnext _ => Loading.lt_nextRetry_enqueueDue h.consistent hnext

end Handle

/-- Sets a timer for each of the delays. -/
def setTimers (s : Scheduler Task (Load P)) (delays : List Duration) : Scheduler Task (Load P) :=
  delays.foldl (fun s delay => s.addTask delay .wake) s

theorem setTimers_append (s : Scheduler Task (Load P)) (a b : List Duration) :
    setTimers s (a ++ b) = setTimers (setTimers s a) b :=
  List.foldl_append

theorem now_setTimers (s : Scheduler Task (Load P)) (delays : List Duration) :
    (setTimers s delays).now = s.now := by
  induction delays generalizing s with
  | nil => rfl
  | cons delay rest ih =>
      refine (ih (s.addTask delay .wake)).trans ?_
      unfold Scheduler.addTask
      split <;> rfl

/-- Whether a scheduler has the clock and the timers of another one. -/
structure SameTimers (before after : Scheduler Task (Load P)) : Prop where
  delayed_eq : after.delayed = before.delayed
  added_eq : after.added = before.added
  now_eq : after.now = before.now
  ready : Task.wake ∈ after.ready → Task.wake ∈ before.ready

namespace SameTimers

variable {before mid after : Scheduler Task (Load P)}

theorem refl (s : Scheduler Task (Load P)) : SameTimers s s :=
  ⟨rfl, rfl, rfl, id⟩

theorem trans (hfirst : SameTimers before mid) (hrest : SameTimers mid after) :
    SameTimers before after where
  delayed_eq := hrest.delayed_eq.trans hfirst.delayed_eq
  added_eq := hrest.added_eq.trans hfirst.added_eq
  now_eq := hrest.now_eq.trans hfirst.now_eq
  ready h := hfirst.ready (hrest.ready h)

theorem deliver (s : Scheduler Task (Load P)) : SameTimers s (s.addTask 0 .deliver) := by
  refine ⟨rfl, rfl, rfl, fun hready => ?_⟩
  rcases List.mem_append.mp hready with hold | hnew
  · exact hold
  · cases List.mem_singleton.mp hnew

theorem wake (h : SameTimers before after) (delay : Duration) :
    SameTimers (before.addTask delay .wake) (after.addTask delay .wake) := by
  unfold Scheduler.addTask
  split
  · refine ⟨h.delayed_eq, h.added_eq, h.now_eq, fun _ => ?_⟩
    exact List.mem_append_right _ (List.mem_singleton_self _)
  · refine ⟨?_, ?_, h.now_eq, h.ready⟩
    · simp only [h.delayed_eq, h.added_eq, h.now_eq]
    · simp only [h.added_eq]

theorem setTimers (h : SameTimers before after) (delays : List Duration) :
    SameTimers (setTimers before delays) (Source.setTimers after delays) := by
  induction delays generalizing before after with
  | nil => exact h
  | cons delay rest ih => exact ih (h.wake delay)

theorem reckon (s : Scheduler Task (Load P)) (times : List Instant) :
    SameTimers s (s.reckon times) :=
  ⟨rfl, rfl, rfl, id⟩

theorem push (w : World κ P) (message : Message P) :
    SameTimers w.scheduler (World.push w message).scheduler := by
  unfold World.push
  dsimp only
  split
  · exact deliver w.scheduler
  · exact refl w.scheduler

theorem send (w : World κ P) (message : Message P) :
    SameTimers w.scheduler (World.send w message).scheduler := by
  unfold World.send
  split
  · exact push w message
  · exact refl w.scheduler

theorem perform (loader : Loader κ P) (w : World κ P) (effect : Effect) :
    SameTimers (Source.setTimers w.scheduler (delays [effect]))
      (World.perform loader w effect).scheduler := by
  cases effect with
  | cancel t key =>
      simp only [World.perform]
      split <;> exact refl w.scheduler
  | queueFlush => exact push w .flush
  | load t key => exact ⟨rfl, rfl, rfl, id⟩
  | _ => exact refl _

theorem foldl (loader : Loader κ P) (w : World κ P) (effects : List Effect) :
    SameTimers (Source.setTimers w.scheduler (delays effects))
      (effects.foldl (World.perform loader) w).scheduler := by
  induction effects generalizing w with
  | nil => exact refl w.scheduler
  | cons effect rest ih =>
      have hdelays : delays (effect :: rest) = delays [effect] ++ delays rest :=
        delays_append [effect] rest
      have hfirst := (perform loader w effect).setTimers (delays rest)
      rw [← setTimers_append, ← hdelays] at hfirst
      exact hfirst.trans (ih (World.perform loader w effect))

end SameTimers

/-- A delivery sets the timers of its effects. -/
theorem timers_deliver (loader : Loader κ P) (w : World κ P) :
    SameTimers (setTimers w.scheduler (delays (World.reaction w)))
      (World.deliver loader w).scheduler := by
  cases hqueue : w.state.mailbox.queue with
  | nil =>
      have hidle : World.deliver loader w = w := by
        simp [World.deliver, Mailbox.pop?, hqueue]
      have hnone : World.reaction w = [] := by
        simp [World.reaction, World.waiting, hqueue]
      rw [hidle, hnone]
      exact .refl _
  | cons e back =>
      cases hsource : w.state.source with
      | none =>
          rw [reaction_of_gone hsource]
          simp only [World.deliver, Mailbox.pop?, hqueue, World.apply, System.modify, hsource]
          cases e.content with
          | ask slot question => split <;> first | exact .refl _ | exact .deliver _
          | _ => split <;> first | exact .refl _ | exact .deliver _
      | some s =>
          have hreaction : World.reaction w = (s.handle w.scheduler.now e.content).effects := by
            simp [World.reaction, World.waiting, hqueue, hsource]
          rw [hreaction, deliver_eq loader hsource hqueue]
          have hdone := SameTimers.foldl loader (World.turned w s e back)
            (s.handle w.scheduler.now e.content).effects
          have hreckoned := (SameTimers.reckon w.scheduler _).setTimers _ |>.trans hdone
          split
          · exact hreckoned
          · exact hreckoned.trans (.deliver _)

/-- What is left of the timers when a task is chosen. -/
theorem timers_chosen {w : World κ P} {a : Act P} {task : Task} {rest : Scheduler Task (Load P)}
    (h : World.chosen? w a = some (task, rest)) :
    rest.delayed.Sublist w.scheduler.delayed ∧ rest.added = w.scheduler.added ∧
      (Task.wake ∈ rest.ready → Task.wake ∈ w.scheduler.ready) := by
  cases a with
  | run n =>
      obtain ⟨_, -, hrest⟩ := Option.map_eq_some_iff.mp h
      cases hrest
      exact ⟨.refl _, rfl, List.mem_of_mem_eraseIdx⟩
  | fire n =>
      obtain ⟨_, -, hrest⟩ := Option.map_eq_some_iff.mp h
      cases hrest
      exact ⟨List.eraseIdx_sublist _ _, rfl, id⟩
  | _ => cases h

/-- What an act does to the clock and the timers. It lets some go off, and sets those of its
effects. -/
theorem timers_act (loader : Loader κ P) (w : World κ P) (a : Act P) :
    ∃ rest : Scheduler Task (Load P), w.scheduler.now ≤ rest.now ∧
      rest.delayed.Sublist w.scheduler.delayed ∧ rest.added = w.scheduler.added ∧
      (Task.wake ∈ rest.ready → Task.wake ∈ w.scheduler.ready) ∧
      SameTimers (setTimers rest (delays (World.effects w a)))
        (World.act loader w a).scheduler := by
  have hwork : ∃ rest : Scheduler Task (Load P), w.scheduler.now ≤ rest.now ∧
      rest.delayed.Sublist w.scheduler.delayed ∧ rest.added = w.scheduler.added ∧
      (Task.wake ∈ rest.ready → Task.wake ∈ w.scheduler.ready) ∧
      SameTimers (setTimers rest (delays (World.effects w a)))
        (World.work loader w (World.chosen? w a)).scheduler := by
    cases hchosen : World.chosen? w a with
    | none =>
        have hnone : World.effects w a = [] := by simp [World.effects, hchosen]
        rw [hnone]
        exact ⟨w.scheduler, Nat.le_refl _, .refl _, rfl, id, .refl _⟩
    | some chosen =>
        obtain ⟨task, rest⟩ := chosen
        obtain ⟨hdelayed, hadded, hready⟩ := timers_chosen hchosen
        refine ⟨rest, (chosen_spec hchosen).1, hdelayed, hadded, hready, ?_⟩
        simp only [World.effects, hchosen]
        cases task with
        | deliver => exact timers_deliver loader { w with scheduler := rest }
        | wake => exact .send { w with scheduler := rest } .retry
  cases a with
  | call c => exact ⟨w.scheduler, Nat.le_refl _, .refl _, rfl, id, .send w c.message⟩
  | ask question =>
      let opened := w.modify fun x => { x with slots := x.slots ++ [.waiting] }
      exact ⟨w.scheduler, Nat.le_refl _, .refl _, rfl, id, .push opened _⟩
  | release => exact ⟨w.scheduler, Nat.le_refl _, .refl _, rfl, id, .refl _⟩
  | wait time =>
      exact ⟨w.scheduler.advanceTo (w.scheduler.now + time), Nat.le_max_left _ _, .refl _, rfl, id,
        .refl _⟩
  | run n => exact hwork
  | fire n => exact hwork
  | finish number outcome =>
      exact ⟨(World.finish w number outcome).scheduler, Nat.le_refl _, .refl _, rfl, id, .refl _⟩
  | poll n =>
      simp only [World.act]
      split
      · exact ⟨w.scheduler, Nat.le_refl _, .refl _, rfl, id, .refl _⟩
      · let others := { w.scheduler with futures := w.scheduler.futures.eraseIdx n }
        exact ⟨others, Nat.le_refl _, .refl _, rfl, id, .send { w with scheduler := others } _⟩

theorem now_le_act (loader : Loader κ P) (w : World κ P) (a : Act P) :
    w.scheduler.now ≤ (World.act loader w a).scheduler.now := by
  obtain ⟨rest, hnow, -, -, -, htimers⟩ := timers_act loader w a
  rwa [htimers.now_eq, now_setTimers]

def Message.isRetry : Message P → Bool
  | .retry => true
  | _ => false

/-- Whether an act makes the source handle a retry. -/
def World.retries (w : World κ P) (a : Act P) : Bool :=
  (World.delivered? w a).any fun (message, _) => message.isRetry

theorem retries_of_delivered {w : World κ P} {a : Act P} {message : Message P} {now : Instant}
    (h : World.delivered? w a = some (message, now)) : World.retries w a = message.isRetry := by
  simp [World.retries, h]

/-- The number of timers that had been set when a retry was handled last. If one of them has not
gone off yet, the source no longer knows of it. -/
def World.forgotten (loader : Loader κ P) (w : World κ P) (acts : List (Act P)) : Nat :=
  (World.trace loader w acts).foldl
    (fun since (w, a) => if World.retries w a then w.scheduler.added else since) 0

theorem forgotten_append (loader : Loader κ P) (w : World κ P) (acts : List (Act P)) (a : Act P) :
    World.forgotten loader w (acts ++ [a]) =
      if World.retries (World.run loader w acts) a then (World.run loader w acts).scheduler.added
      else World.forgotten loader w acts := by
  simp [World.forgotten, trace_append]

/-- The timers that were set after the first `since` of all. -/
def recent (since : Nat) (s : Scheduler Task (Load P)) : List (Delayed Task) :=
  s.delayed.filter fun d => decide (since ≤ d.order)

theorem mem_recent {since : Nat} {s : Scheduler Task (Load P)} {d : Delayed Task} :
    d ∈ recent since s ↔ d ∈ s.delayed ∧ since ≤ d.order := by
  simp [recent]

/-- What holds of the timers while the source, if it is there, relies on `armed`, and knows of those
set after the first `since`. -/
structure Clocked (since : Nat) (armed : Option (Option Instant)) (s : Scheduler Task (Load P)) :
    Prop where
  timers : ∀ d ∈ s.delayed, d.task = .wake
  unready : Task.wake ∉ s.ready
  order_lt : ∀ d ∈ s.delayed, d.order < s.added
  since_le : since ≤ s.added
  dues : ((recent since s).map Delayed.due).Nodup
  /-- The timer that the source relies on goes off no later than any other that it knows of. -/
  relied : ∀ timer, armed = some timer → ∀ d ∈ recent since s,
    ∃ first, timer = some first ∧ first ≤ d.due

namespace Clocked

variable {since : Nat} {armed : Option (Option Instant)} {s rest : Scheduler Task (Load P)}

/-- Timers go off. -/
theorem fewer (h : Clocked since armed s) (hdelayed : rest.delayed.Sublist s.delayed)
    (hadded : rest.added = s.added) (hready : Task.wake ∈ rest.ready → Task.wake ∈ s.ready) :
    Clocked since armed rest where
  timers d hd := h.timers d (hdelayed.subset hd)
  unready hwake := h.unready (hready hwake)
  order_lt d hd := hadded ▸ h.order_lt d (hdelayed.subset hd)
  since_le := hadded ▸ h.since_le
  dues := h.dues.sublist ((hdelayed.filter _).map _)
  relied timer htimer d hd := h.relied timer htimer d ((hdelayed.filter _).subset hd)

theorem same (h : Clocked since armed s) (hsame : SameTimers s rest) : Clocked since armed rest :=
  h.fewer (hsame.delayed_eq ▸ .refl _) hsame.added_eq hsame.ready

/-- Nothing is asked of a source that is gone. -/
theorem gone (h : Clocked since armed s) : Clocked since none s :=
  { h with relied := nofun }

/-- A source that handles a retry knows of no timer any more. -/
theorem forget (h : Clocked since armed s) : Clocked s.added (some none) s := by
  have hnone : recent s.added s = [] := by
    rw [recent, List.filter_eq_nil_iff]
    intro d hd
    simpa using h.order_lt d hd
  refine ⟨h.timers, h.unready, h.order_lt, Nat.le_refl _, ?_, ?_⟩
  · rw [hnone]
    exact List.nodup_nil
  · rw [hnone]
    exact fun _ _ d hd => nomatch hd

/-- A timer for an instant that lies ahead is set before the one relied on goes off. -/
theorem wake {timer : Option Instant} {due : Instant} (h : Clocked since (some timer) s)
    (hahead : s.now < due) (hearly : ∀ other, timer = some other → due < other) :
    Clocked since (some (some due)) (s.addTask (due - s.now) .wake) := by
  have hdelay : due - s.now ≠ 0 := Nat.sub_ne_zero_of_lt hahead
  have hdue : s.now + (due - s.now) = due := Nat.add_sub_of_le (Nat.le_of_lt hahead)
  have hlater : ∀ d ∈ recent since s, due < d.due := by
    intro d hd
    obtain ⟨first, hfirst, hle⟩ := h.relied timer rfl d hd
    exact Nat.lt_of_lt_of_le (hearly first hfirst) hle
  have hset : s.addTask (due - s.now) .wake = { s with
      delayed := Scheduler.insertDelayed ⟨due, s.added, .wake⟩ s.delayed
      added := s.added + 1
      furthest := max s.furthest due } := by
    rw [Scheduler.addTask, if_neg hdelay, hdue]
  have hmember (d : Delayed Task) : d ∈ (s.addTask (due - s.now) .wake).delayed ↔
      d = ⟨due, s.added, .wake⟩ ∨ d ∈ s.delayed := by
    rw [hset]
    exact Scheduler.mem_insertDelayed_iff ..
  rw [hset] at hmember ⊢
  refine ⟨?_, h.unready, ?_, Nat.le_succ_of_le h.since_le, ?_, ?_⟩
  · intro d hd
    rcases (hmember d).mp hd with rfl | hold
    · rfl
    · exact h.timers d hold
  · intro d hd
    rcases (hmember d).mp hd with rfl | hold
    · exact Nat.lt_succ_self _
    · exact Nat.lt_succ_of_lt (h.order_lt d hold)
  · have hperm : (recent since ({ s with
        delayed := Scheduler.insertDelayed ⟨due, s.added, .wake⟩ s.delayed
        added := s.added + 1
        furthest := max s.furthest due } : Scheduler Task (Load P))).Perm
          (⟨due, s.added, .wake⟩ :: recent since s) := by
      refine ((Scheduler.insertDelayed_perm _ s.delayed).filter _).trans (.of_eq ?_)
      exact List.filter_cons_of_pos (decide_eq_true h.since_le)
    rw [(hperm.map Delayed.due).nodup_iff, List.map_cons, List.nodup_cons]
    refine ⟨fun hsame => ?_, h.dues⟩
    obtain ⟨d, hd, hequal⟩ := List.mem_map.mp hsame
    exact Nat.ne_of_gt (hlater d hd) hequal
  · rintro _ ⟨⟩ d hd
    obtain ⟨hd, hrecent⟩ := mem_recent.mp hd
    rcases (hmember d).mp hd with rfl | hold
    · exact ⟨due, rfl, Nat.le_refl _⟩
    · exact ⟨due, rfl, Nat.le_of_lt (hlater d (mem_recent.mpr ⟨hold, hrecent⟩))⟩

/-- What the source knows once it has taken note of a message. -/
theorem noted {timer : Option Instant} (h : Clocked since (some timer) s) (message : Message P) :
    Clocked (if message.isRetry then s.added else since) (some (message.timer timer)) s := by
  cases message with
  | retry => exact h.forget
  | _ => exact h

end Clocked

/-- The timer that the source relies on, unless it is gone. -/
def World.relied (w : World κ P) : Option (Option Instant) :=
  w.state.source.map Source.retryTimer

theorem minBackoff_pos {config : Config} (h : config.fault? = none) :
    0 < (BackoffPolicy.ofConfig config).min :=
  (Config.fault?_eq_none_iff.mp h).minBackoff_pos

section Act

variable {setup : Setup} {limits : Nat × BackoffPolicy} {wanted : Wishes} {since : Nat}
  {w : World κ P} {a : Act P} {s : Source P}

/-- What the source knows of its timers is kept track of by every message. -/
theorem Clocked.turn {rest : Scheduler Task (Load P)} {message : Message P} {t : Turn P}
    (h : Clocked since (some s.retryTimer) rest)
    (harms : t.Arms rest.now (message.timer s.retryTimer)) :
    Clocked (if message.isRetry then rest.added else since) (some t.source.retryTimer)
      (setTimers rest (delays t.effects)) := by
  have hnoted := h.noted message
  cases harms with
  | keeps hnone htimer =>
      rw [hnone, htimer]
      exact hnoted
  | sets due hset htimer _ _ hahead hearly =>
      rw [hset, htimer]
      exact hnoted.wake hahead hearly

/-- What the source knows of its timers is kept track of by every act. -/
theorem clocked_act (loader : Loader κ P) (a : Act P)
    (h : Clocked since (World.relied w) w.scheduler)
    (horderly : ∀ s, w.state.source = some s → World.Orderly setup limits wanted w s)
    (hmin : 0 < limits.2.min) :
    Clocked (if World.retries w a then w.scheduler.added else since)
      (World.relied (World.act loader w a)) (World.act loader w a).scheduler := by
  obtain ⟨rest, -, hdelayed, hadded, hready, htimers⟩ := timers_act loader w a
  have hrest := h.fewer hdelayed hadded hready
  refine Clocked.same ?_ htimers
  cases move_act loader (fun s hsource => (horderly s hsource).posted) a with
  | gone hafter heffects =>
      rw [World.relied, hafter, heffects, ← hadded]
      split
      · exact hrest.forget.gone
      · exact hrest.gone
  | rests s hbefore hafter hdelivered heffects =>
      have hretries : World.retries w a = false := by simp [World.retries, hdelivered]
      rw [hretries, heffects, World.relied, hafter, ← hbefore]
      exact hrest
  | handles s message _ hbefore _ hdelivered hafter heffects =>
      have hnow : (World.act loader w a).scheduler.now = rest.now := by
        rw [htimers.now_eq, now_setTimers]
      rw [hnow] at hdelivered hafter heffects
      have harms := arms_handle (horderly s hbefore).settled hmin rest.now message
      rw [World.relied, hbefore] at hrest
      rw [retries_of_delivered hdelivered, heffects, World.relied, hafter, ← hadded]
      exact hrest.turn harms

/-- A timer that a turn sets is for the next attempt, and no timer that the source knows of goes off
by then. -/
theorem Clocked.set {rest : Scheduler Task (Load P)} {now : Instant} {message : Message P}
    {t : Turn P} (h : Clocked since (some s.retryTimer) rest)
    (harms : t.Arms now (message.timer s.retryTimer)) {delay : Duration}
    (hdelay : delay ∈ delays t.effects) :
    0 < delay ∧ t.source.loading.nextRetry? = some (now + delay) ∧
      ∀ d ∈ rest.delayed, d.due ≤ now + delay →
        d.order < if message.isRetry then rest.added else since := by
  cases harms with
  | keeps hnone =>
      rw [hnone] at hdelay
      cases hdelay
  | sets due hset _ _ hnext hahead hearly =>
      rw [hset] at hdelay
      obtain rfl := List.mem_singleton.mp hdelay
      have hdue : now + (due - now) = due := Nat.add_sub_of_le (Nat.le_of_lt hahead)
      rw [hdue]
      refine ⟨Nat.sub_pos_of_lt hahead, hnext, fun d hd hle => ?_⟩
      by_contra hrecent
      obtain ⟨other, hother, hsoon⟩ := (h.noted message).relied _ rfl d
        (mem_recent.mpr ⟨hd, Nat.le_of_not_lt hrecent⟩)
      exact absurd (hearly other hother) (Nat.not_lt.mpr (Nat.le_trans hsoon hle))

end Act

variable {layer : Layer} {config : Config} {convert : Converter} {listening : Bool}
  {first : Source P}

theorem clocked_run (hbuild : build layer config convert listening = .ok first)
    (loader : Loader κ P) (memory : κ) (acts : List (Act P)) :
    Clocked (World.forgotten loader (World.start first memory) acts)
      (World.relied (World.run loader (World.start first memory) acts))
      (World.run loader (World.start first memory) acts).scheduler := by
  induction acts using List.reverseRecOn with
  | nil => exact ⟨nofun, nofun, nofun, Nat.le_refl 0, .nil, fun _ _ _ hd => nomatch hd⟩
  | append_singleton acts a ih =>
      rw [forgotten_append, run_append]
      exact clocked_act loader a ih (fun s hsource => orderly_run hbuild loader memory acts hsource)
        (minBackoff_pos (build_spec hbuild).1)

/-- A timer is set only for the next attempt, which lies ahead, and only if every timer that goes
off by then was set before a retry was handled last. So no two of the timers that were set since
then are due at the same instant. -/
theorem timers_apart (hbuild : build layer config convert listening = .ok first)
    (loader : Loader κ P) (memory : κ) (acts : List (Act P)) (a : Act P) :
    let start := World.start first memory
    let w := World.run loader start acts
    let after := World.act loader w a
    let since := World.forgotten loader start (acts ++ [a])
    (∀ delay ∈ delays (World.effects w a), 0 < delay ∧
      (∃ s, after.state.source = some s ∧
        s.loading.nextRetry? = some (after.scheduler.now + delay)) ∧
      ∀ d ∈ w.scheduler.delayed, d.due ≤ after.scheduler.now + delay → d.order < since) ∧
    (∀ d ∈ after.scheduler.delayed, d.task = .wake) ∧
    ((after.scheduler.delayed.filter fun d => decide (since ≤ d.order)).map
      Delayed.due).Nodup := by
  intro start w after since
  have hbefore := clocked_run hbuild loader memory acts
  have hafter := clocked_run hbuild loader memory (acts ++ [a])
  rw [run_append] at hafter
  refine ⟨fun delay hdelay => ?_, hafter.timers, hafter.dues⟩
  have horderly := fun s (hsource : w.state.source = some s) =>
    orderly_run hbuild loader memory acts hsource
  cases move_act loader (fun s hsource => (horderly s hsource).posted) a with
  | gone _ heffects =>
      rw [heffects] at hdelay
      cases hdelay
  | rests _ _ _ _ heffects =>
      rw [heffects] at hdelay
      cases hdelay
  | handles s message _ hsource _ hdelivered hturned heffects =>
      have harms := arms_handle (horderly s hsource).settled (minBackoff_pos (build_spec hbuild).1)
        after.scheduler.now message
      have hsince : since = if message.isRetry then w.scheduler.added
          else World.forgotten loader start acts := by
        simp only [since, forgotten_append]
        change (if World.retries w a then _ else _) = _
        rw [retries_of_delivered hdelivered]
      rw [World.relied, hsource] at hbefore
      rw [heffects] at hdelay
      obtain ⟨hpos, hnext, hearly⟩ := hbefore.set harms hdelay
      rw [hsince]
      exact ⟨hpos, ⟨_, hturned, hnext⟩, hearly⟩

/-- A load that fails sets a timer for its next attempt. -/
theorem timers_apart_after_failure :
    let w := World.run Loader.manual (World.start small ())
      [.call (.show smallView), .run 0, .finish 0 (.failed .timeout), .poll 0]
    let after := World.act Loader.manual w (.run 0)
    ∃ s, after.state.source = some s ∧
      s.loading.nextRetry? = some (after.scheduler.now + Config.standard.minBackoff) := by
  intro w after
  have hrun := run_small [.finish 0 (.failed .timeout), .poll 0]
  have hset : Config.standard.minBackoff ∈ delays (World.effects w (.run 0)) := by
    rw [show w = _ from hrun]
    decide +kernel
  have hapart := timers_apart build_small Loader.manual ()
    [.call (.show smallView), .run 0, .finish 0 (.failed .timeout), .poll 0] (.run 0)
  obtain ⟨-, hnext, -⟩ := hapart.1 Config.standard.minBackoff hset
  simp only [after, w]
  exact hnext

end MapTiles.Source
