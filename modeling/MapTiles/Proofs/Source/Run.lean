import MapTiles.Proofs.Mailbox
import MapTiles.Proofs.Scheduler
import MapTiles.Proofs.Source.Effects
import MapTiles.Source.World

/-!
Everything that can happen to a source and around it, in any order: its owner calls it, tasks run,
timers go off, the clock moves on, loads get their outcomes and are asked for them. Tasks and loads
need not take their turns in the order of the scheduler.

An act does one of two things to a source that is still there. Either it only posts a message, or
none, or it lets the source handle the oldest message.
-/

namespace MapTiles.Source

variable {κ P : Type}

/-- What the owner of a source can call. -/
inductive Call where
  | show (view : WantedView)
  | pause
  | resume
  | reload
  | setLowest (identifier : Option Int)
  | setHighest (identifier : Option Int)

/-- The message that a call sends. -/
def Call.message : Call → Message P
  | .show view => .show view
  | .pause => .pause
  | .resume => .resume
  | .reload => .reload
  | .setLowest identifier => .setLowest identifier
  | .setHighest identifier => .setHighest identifier

/-- What is asked for once messages are handled one after the other. -/
def grantAll (messages : List (Message P)) (wishes : Wishes) : Wishes :=
  messages.foldl (fun wishes message => message.grant wishes) wishes

theorem grantAll_cons (message : Message P) (rest : List (Message P)) (wishes : Wishes) :
    grantAll (message :: rest) wishes = grantAll rest (message.grant wishes) := rfl

theorem grantAll_append (front back : List (Message P)) (wishes : Wishes) :
    grantAll (front ++ back) wishes = grantAll back (grantAll front wishes) :=
  List.foldl_append

/-- What can happen. Tasks and loads are chosen by their place among those that wait. -/
inductive Act (P : Type) where
  | call (c : Call)
  | ask (question : Question)
  | release
  | wait (time : Duration)
  | run (n : Nat)
  | fire (n : Nat)
  | finish (number : Nat) (outcome : Outcome P)
  | poll (n : Nat)

/-- What is asked for after an act. -/
def Act.grant (a : Act P) (wishes : Wishes) : Wishes :=
  match a with
  | .call c => (c.message : Message P).grant wishes
  | _ => wishes

/-- The messages that wait, oldest first. -/
def World.waiting (w : World κ P) : List (Message P) :=
  w.state.mailbox.queue.map Envelope.content

/-- The tiles of the loads whose futures are not complete. -/
def World.flying (w : World κ P) : List Tile :=
  w.scheduler.futures.map Load.tile

/-- The tiles of all loads that there have been, in the order in which they started. -/
def World.requested (w : World κ P) : List Tile :=
  w.state.events.filterMap fun
    | .requested tile _ => some tile
    | _ => none

/-- The task that an act runs, and the work that is left without it. -/
def World.chosen? (w : World κ P) : Act P → Option (Task × Scheduler Task (Load P))
  | .run n => w.scheduler.readyAt? n
  | .fire n => w.scheduler.delayedAt? n
  | _ => none

/-- The message that an act makes the source handle, and the time at which it does. -/
def World.delivered? (w : World κ P) (a : Act P) : Option (Message P × Instant) :=
  match w.chosen? a with
  | some (.deliver, rest) => w.waiting.head?.map fun message => (message, rest.now)
  | _ => none

/-- The outcome that an act brings from a load. -/
def World.brought? (w : World κ P) : Act P → Option (Tile × Outcome P)
  | .poll n => w.scheduler.futures[n]?.bind fun load =>
      load.outcome.map fun outcome => (load.tile, outcome)
  | _ => none

/-- Runs a chosen task. -/
def World.work (loader : Loader κ P) (w : World κ P) :
    Option (Task × Scheduler Task (Load P)) → World κ P
  | none => w
  | some (task, rest) => (behaviour loader).run task { w with scheduler := rest }

/-- What an act does. -/
def World.act (loader : Loader κ P) (w : World κ P) (a : Act P) : World κ P :=
  match a with
  | .call c => World.send w c.message
  | .ask question => World.ask w question
  | .release => World.release w
  | .wait time =>
    { w with scheduler := w.scheduler.advanceTo (w.scheduler.now + time) }
  | .run _ => World.work loader w (World.chosen? w a)
  | .fire _ => World.work loader w (World.chosen? w a)
  | .finish number outcome => World.finish w number outcome
  | .poll n =>
    match World.brought? w a with
    | none => w
    | some (tile, outcome) =>
      let others := { w.scheduler with futures := w.scheduler.futures.eraseIdx n }
      World.send { w with scheduler := others } (.loaded tile outcome)

/-- What acts do one after the other. -/
def World.run (loader : Loader κ P) (w : World κ P) (acts : List (Act P)) : World κ P :=
  acts.foldl (World.act loader) w

theorem run_append (loader : Loader κ P) (w : World κ P) (acts : List (Act P)) (a : Act P) :
    World.run loader w (acts ++ [a]) = World.act loader (World.run loader w acts) a := by
  simp [World.run]

theorem run_run (loader : Loader κ P) (w : World κ P) (front back : List (Act P)) :
    World.run loader (World.run loader w front) back = World.run loader w (front ++ back) :=
  List.foldl_append.symm

/-- Whether the next attempt is on its way by a time: a timer goes off by then, or the message of
one that went off still waits. -/
def World.RetriesBy (w : World κ P) (time : Instant) : Prop :=
  Message.retry ∈ w.waiting ∨ w.scheduler.RunsBy .wake time

/-- Every message waits in its own envelope. -/
def World.Posted (w : World κ P) : Prop :=
  ∀ e ∈ w.state.mailbox.queue, e = e.content.envelope

/-- How a message joins those that wait. It goes behind them, or takes the place of a view. -/
inductive Joins (message : Message P) : List (Message P) → List (Message P) → Prop
  | behind (waiting : List (Message P))
      (halone : ∀ view, message.view? = some view → ∀ other ∈ waiting, other.view? = none) :
      Joins message waiting (waiting ++ [message])
  | instead (front back : List (Message P)) (old view : WantedView) (hview : message = .show view) :
      Joins message (front ++ .show old :: back) (front ++ message :: back)

section Push

variable (w : World κ P) (message : Message P)

@[simp] theorem source_push : (World.push w message).state.source = w.state.source := by
  unfold World.push
  dsimp only
  split <;> rfl

@[simp] theorem queue_push : (World.push w message).state.mailbox.queue =
    Mailbox.place message.envelope w.state.mailbox.queue := by
  unfold World.push
  dsimp only
  split <;> rfl

@[simp] theorem now_push : (World.push w message).scheduler.now = w.scheduler.now := by
  unfold World.push
  dsimp only
  split <;> rfl

@[simp] theorem furthest_push :
    (World.push w message).scheduler.furthest = w.scheduler.furthest := by
  unfold World.push
  dsimp only
  split <;> rfl

@[simp] theorem flying_push : World.flying (World.push w message) = World.flying w := by
  unfold World.push
  dsimp only
  split <;> rfl

@[simp] theorem events_push : (World.push w message).state.events = w.state.events := by
  unfold World.push
  dsimp only
  split <;> rfl

theorem runsBy_push {time : Instant} (h : w.scheduler.RunsBy .wake time) :
    (World.push w message).scheduler.RunsBy .wake time := by
  unfold World.push
  dsimp only
  split
  · exact h.addTask 0 .deliver
  · exact h

@[simp] theorem content_envelope : message.envelope.content = message := by
  cases message <;> rfl

variable {w}

theorem posted_push (h : World.Posted w) : World.Posted (World.push w message) := by
  intro e he
  rw [queue_push] at he
  rcases Mailbox.mem_place he with rfl | hold
  · rw [content_envelope]
  · exact h e hold

/-- A message gives way only to a view, and only if it is one. -/
theorem exists_view_of_givesWay {e : Envelope (Message P)} (he : e = e.content.envelope)
    (hgives : Mailbox.givesWay e message.envelope = true) :
    ∃ old view, e.content = .show old ∧ message = .show view := by
  obtain ⟨hwaiting, hmessage, -⟩ := (Mailbox.givesWay_iff _ _).mp hgives
  rw [he] at hwaiting
  cases hcontent : e.content with
  | «show» old =>
      cases message with
      | «show» view => exact ⟨old, view, rfl, rfl⟩
      | _ => cases hmessage
  | _ =>
      rw [hcontent] at hwaiting
      cases hwaiting

theorem joins_push (h : World.Posted w) :
    Joins message (World.waiting w) (World.waiting (World.push w message)) := by
  unfold World.waiting
  rw [queue_push]
  rcases Mailbox.place_cases message.envelope w.state.mailbox.queue with
    ⟨hnone, hplace⟩ | ⟨front, waiting, back, hqueue, hgives, hplace⟩
  · rw [hplace, List.map_append, List.map_singleton, content_envelope]
    refine .behind _ ?_
    intro view hview other hother
    obtain ⟨e, he, rfl⟩ := List.mem_map.mp hother
    have hkept := hnone e he
    rw [h e he] at hkept
    cases message with
    | «show» _ =>
        cases hcontent : e.content with
        | «show» old => simp [hcontent, Mailbox.givesWay, Message.envelope] at hkept
        | _ => rfl
    | _ => cases hview
  · have hposted := h waiting (by simp [hqueue])
    obtain ⟨old, view, hold, hview⟩ := exists_view_of_givesWay message hposted hgives
    rw [hplace, hqueue, List.map_append, List.map_append, List.map_cons, List.map_cons, hold,
      content_envelope]
    exact .instead _ _ old view hview

end Push

namespace Joins

variable {message : Message P} {before after : List (Message P)}

theorem mem_self (h : Joins message before after) : message ∈ after := by
  cases h <;> simp

/-- Only views give way. -/
theorem mem_of_mem (h : Joins message before after) {other : Message P}
    (hview : other.view? = none) (hother : other ∈ before) : other ∈ after := by
  cases h with
  | behind _ halone => exact List.mem_append_left _ hother
  | instead front back old view hmessage =>
      simp only [List.mem_append, List.mem_cons] at hother ⊢
      rcases hother with hfront | rfl | hback
      · exact .inl hfront
      · cases hview
      · exact .inr (.inr hback)

/-- Outcomes wait in the order in which they came. -/
theorem outcomes_eq (h : Joins message before after) :
    after.filterMap Message.outcome? =
      before.filterMap Message.outcome? ++ message.outcome?.toList := by
  cases h with
  | behind _ halone =>
      rw [List.filterMap_append]
      cases hmessage : message.outcome? <;> simp [hmessage]
  | instead front back old view hmessage =>
      subst hmessage
      simp [List.filterMap_cons, Message.outcome?]

/-- At most one view waits. -/
theorem views_length_le (h : Joins message before after)
    (hone : (before.filterMap Message.view?).length ≤ 1) :
    (after.filterMap Message.view?).length ≤ 1 := by
  cases h with
  | behind _ halone =>
      cases hview : message.view? with
      | none => simpa [hview] using hone
      | some view =>
          have hnone : before.filterMap Message.view? = [] :=
            List.filterMap_eq_nil_iff.mpr (halone view hview)
          simp [hnone, hview]
  | instead front back old view hmessage =>
      subst hmessage
      simpa [List.filterMap_cons, Message.view?] using hone

/-- A message without a view does not change the view that is asked for. -/
private theorem grantAll_show (messages : List (Message P)) (view : WantedView)
    (hnone : ∀ other ∈ messages, other.view? = none) (wishes : Wishes) :
    grantAll messages ((Message.show view : Message P).grant wishes) =
      (Message.show view : Message P).grant (grantAll messages wishes) := by
  induction messages generalizing wishes with
  | nil => rfl
  | cons first rest ih =>
      have hrest := ih fun other hother => hnone other (List.mem_cons_of_mem first hother)
      cases first with
      | «show» other => cases hnone (.show other) List.mem_cons_self
      | pause => exact hrest { wishes with paused := true }
      | resume => exact hrest { wishes with paused := false }
      | setLowest identifier => exact hrest { wishes with lowest := identifier }
      | setHighest identifier => exact hrest { wishes with highest := identifier }
      | _ => exact hrest wishes

/-- Once the messages that wait are handled, what is asked for is what was asked for last, though a
view may have gone ahead of messages that were posted before it. -/
theorem grantAll_eq (h : Joins message before after)
    (hone : (before.filterMap Message.view?).length ≤ 1) (wishes : Wishes) :
    grantAll after wishes = message.grant (grantAll before wishes) := by
  cases h with
  | behind _ halone => exact grantAll_append before [message] wishes
  | instead front back old view hmessage =>
      subst hmessage
      -- the replaced view was the only one, so the new one counts as asked for last
      have hback : ∀ other ∈ back, other.view? = none := by
        rw [← List.filterMap_eq_nil_iff]
        apply List.eq_nil_of_length_eq_zero
        simp only [List.filterMap_append, List.filterMap_cons, Message.view?, List.length_append,
          List.length_cons] at hone
        omega
      rw [grantAll_append, grantAll_append, grantAll_cons, grantAll_cons,
        grantAll_show back view hback, grantAll_show back old hback]
      rfl

end Joins

end MapTiles.Source
