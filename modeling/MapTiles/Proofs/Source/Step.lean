import MapTiles.Proofs.Source.Run

/-!
What a single act can do to a source that is still there afterwards.
-/

namespace MapTiles.Source

variable {κ P : Type}

/-- What is seen of an effect from outside, at a time. Not every loader takes note of loads that are
no longer wanted. -/
def Effect.event? (heeds : Bool) (now : Instant) : Effect → Option Event
  | .load t key => some (.requested t key)
  | .cancel t key => if heeds then some (.cancelled t key) else none
  | .notify => some (.notified now)
  | _ => none

/-- The loads that are seen from outside are those that the effects start. -/
theorem requested_started {heeds : Bool} {now : Instant} {effects : List Effect}
    {w after : World κ P}
    (hevents : after.state.events = w.state.events ++ effects.filterMap (Effect.event? heeds now)) :
    World.requested after = World.requested w ++ started effects := by
  unfold World.requested
  rw [hevents, List.filterMap_append, List.filterMap_filterMap]
  congr 2
  funext effect
  cases effect with
  | cancel t key => cases heeds <;> rfl
  | _ => rfl

/-- What effects do around a source: they start loads and timers and post flushes. -/
structure Performed (heeds : Bool) (effects : List Effect) (w after : World κ P) : Prop where
  source_eq : after.state.source = w.state.source
  now_eq : after.scheduler.now = w.scheduler.now
  flying_eq : World.flying after = World.flying w ++ started effects
  events_eq : after.state.events =
    w.state.events ++ effects.filterMap (Effect.event? heeds w.scheduler.now)
  queue_eq : after.state.mailbox.queue =
    w.state.mailbox.queue ++ List.replicate (flushes effects) Message.flush.envelope
  keeps : ∀ time, w.scheduler.RunsBy .wake time → after.scheduler.RunsBy .wake time
  wakes : ∀ delay, Effect.wake delay ∈ effects →
    after.scheduler.RunsBy .wake (w.scheduler.now + delay)
  le_furthest : w.scheduler.furthest ≤ after.scheduler.furthest
  furthest_le : ∀ latest, w.scheduler.furthest ≤ latest →
    (∀ delay, Effect.wake delay ∈ effects → w.scheduler.now + delay ≤ latest) →
    after.scheduler.furthest ≤ latest

namespace Performed

variable {heeds : Bool} {w mid after : World κ P}

theorem refl (heeds : Bool) (w : World κ P) : Performed heeds [] w w where
  source_eq := rfl
  now_eq := rfl
  flying_eq := (List.append_nil _).symm
  events_eq := (List.append_nil _).symm
  queue_eq := (List.append_nil _).symm
  keeps _ h := h
  wakes _ h := nomatch h
  le_furthest := Nat.le_refl _
  furthest_le _ h _ := h

/-- An effect that is seen from outside only. -/
theorem unseen {effect : Effect} (hstarted : started [effect] = [])
    (hflush : effect.isFlush = false) (hwake : ∀ delay, effect ≠ .wake delay)
    (hsource : after.state.source = w.state.source)
    (hmailbox : after.state.mailbox = w.state.mailbox)
    (hevents : after.state.events =
      w.state.events ++ [effect].filterMap (Effect.event? heeds w.scheduler.now))
    (hscheduler : after.scheduler = w.scheduler) : Performed heeds [effect] w after where
  source_eq := hsource
  now_eq := by rw [hscheduler]
  flying_eq := by rw [World.flying, hscheduler, hstarted, List.append_nil]; rfl
  events_eq := hevents
  queue_eq := by simp [hmailbox, flushes, hflush]
  keeps _ h := hscheduler ▸ h
  wakes delay h := absurd (List.mem_singleton.mp h).symm (hwake delay)
  le_furthest := Nat.le_of_eq (by rw [hscheduler])
  furthest_le latest h _ := by rwa [hscheduler]

theorem perform (loader : Loader κ P) (w : World κ P) (effect : Effect) :
    Performed loader.heeds [effect] w (World.perform loader w effect) := by
  cases effect with
  | load t key =>
      refine ⟨rfl, rfl, ?_, rfl, (List.append_nil _).symm, fun _ h => h, ?_, Nat.le_refl _,
        fun _ h _ => h⟩
      · exact List.map_append
      · intro delay h
        simp at h
  | cancel t key =>
      have hcancelled (heeds : Bool) (now : Instant) :
          [Effect.cancel t key].filterMap (Effect.event? heeds now) =
            if heeds then [.cancelled t key] else [] := by
        cases heeds <;> rfl
      simp only [World.perform]
      split
      case isTrue hheeds =>
        refine unseen rfl rfl (fun _ => Effect.noConfusion) rfl rfl ?_ rfl
        rw [hcancelled, if_pos hheeds]
        rfl
      case isFalse hheeds =>
        refine unseen rfl rfl (fun _ => Effect.noConfusion) rfl rfl ?_ rfl
        rw [hcancelled, if_neg hheeds, List.append_nil]
  | wake delay =>
      have hfutures : (w.scheduler.addTask delay Task.wake).futures = w.scheduler.futures := by
        unfold Scheduler.addTask
        split <;> rfl
      have hnow : (w.scheduler.addTask delay Task.wake).now = w.scheduler.now := by
        unfold Scheduler.addTask
        split <;> rfl
      refine ⟨rfl, hnow, ?_, (List.append_nil _).symm, (List.append_nil _).symm,
        fun _ h => h.addTask delay .wake, ?_, w.scheduler.le_furthest_addTask delay .wake, ?_⟩
      · change (w.scheduler.addTask delay Task.wake).futures.map Load.tile = _ ++ []
        rw [hfutures, List.append_nil]
        rfl
      · intro other h
        cases List.mem_singleton.mp h
        exact .of_addTask w.scheduler delay Task.wake
      · intro latest hfurthest hdue
        exact Scheduler.furthest_addTask_le hfurthest
          (hdue delay (List.mem_singleton_self _)) .wake
  | queueFlush =>
      refine ⟨source_push w .flush, now_push w .flush, ?_, ?_, ?_,
        fun _ h => runsBy_push w _ h, ?_, Nat.le_of_eq (furthest_push w .flush).symm,
        fun _ h _ => Nat.le_trans (Nat.le_of_eq (furthest_push w .flush)) h⟩
      · exact (flying_push w .flush).trans (List.append_nil _).symm
      · exact (events_push w .flush).trans (List.append_nil _).symm
      · exact (queue_push w .flush).trans (Mailbox.place_of_append rfl)
      · intro delay h
        simp at h
  | notify => exact unseen rfl rfl (fun _ => Effect.noConfusion) rfl rfl rfl rfl
  | answer slot value =>
      exact unseen rfl rfl (fun _ => Effect.noConfusion) rfl rfl (List.append_nil _).symm rfl

theorem cons {effect : Effect} {effects : List Effect} (hfirst : Performed heeds [effect] w mid)
    (hrest : Performed heeds effects mid after) : Performed heeds (effect :: effects) w after where
  source_eq := hrest.source_eq.trans hfirst.source_eq
  now_eq := hrest.now_eq.trans hfirst.now_eq
  flying_eq := by
    have happend : started (effect :: effects) = started [effect] ++ started effects :=
      started_append [effect] effects
    rw [hrest.flying_eq, hfirst.flying_eq, happend, List.append_assoc]
  events_eq := by
    rw [hrest.events_eq, hfirst.events_eq, hfirst.now_eq, List.append_assoc,
      ← List.filterMap_append]
    rfl
  queue_eq := by
    have happend : flushes ([effect] ++ effects) = flushes [effect] + flushes effects :=
      List.countP_append
    rw [List.singleton_append] at happend
    rw [hrest.queue_eq, hfirst.queue_eq, List.append_assoc, List.replicate_append_replicate,
      happend]
  keeps time h := hrest.keeps time (hfirst.keeps time h)
  wakes delay h := by
    rcases List.mem_cons.mp h with rfl | hlater
    · exact hrest.keeps _ (hfirst.wakes delay (List.mem_singleton_self _))
    · rw [← hfirst.now_eq]
      exact hrest.wakes delay hlater
  le_furthest := Nat.le_trans hfirst.le_furthest hrest.le_furthest
  furthest_le latest h hdue := by
    refine hrest.furthest_le latest (hfirst.furthest_le latest h fun delay hdelay => ?_)
      fun delay hdelay => ?_
    · cases List.mem_singleton.mp hdelay
      exact hdue delay List.mem_cons_self
    · rw [hfirst.now_eq]
      exact hdue delay (List.mem_cons_of_mem _ hdelay)

theorem foldl (loader : Loader κ P) (w : World κ P) (effects : List Effect) :
    Performed loader.heeds effects w (effects.foldl (World.perform loader) w) := by
  induction effects generalizing w with
  | nil => exact refl loader.heeds w
  | cons effect rest ih => exact (perform loader w effect).cons (ih _)

theorem addTask {effects : List Effect} (h : Performed heeds effects w after) (task : Task) :
    Performed heeds effects w (after.addTask 0 task) where
  source_eq := h.source_eq
  now_eq := h.now_eq
  flying_eq := h.flying_eq
  events_eq := h.events_eq
  queue_eq := h.queue_eq
  keeps time hw := (h.keeps time hw).addTask 0 task
  wakes delay hdelay := (h.wakes delay hdelay).addTask 0 task
  le_furthest := h.le_furthest
  furthest_le := h.furthest_le

end Performed

/-- What an act can do to a source that is still there afterwards: it posts a message, if any, or
it lets the source handle the oldest one. -/
inductive Step (heeds : Bool) (w : World κ P) (a : Act P) (after : World κ P) : Prop
  | quiet (s : Source P) (hbefore : w.state.source = some s) (hafter : after.state.source = some s)
      (hposted : World.Posted after)
      (hgrant : a.grant = id) (hbrought : World.brought? w a = none)
      (hdelivered : World.delivered? w a = none)
      (hwaiting : World.waiting after = World.waiting w)
      (hflying : World.flying after = World.flying w)
      (hevents : after.state.events = w.state.events)
      (hnow : w.scheduler.now ≤ after.scheduler.now)
      (hretries : ∀ time, World.RetriesBy w time → World.RetriesBy after time)
  | post (s : Source P) (message : Message P) (hbefore : w.state.source = some s)
      (hafter : after.state.source = some s) (hposted : World.Posted after)
      (hgrant : a.grant = message.grant)
      (hbrought : World.brought? w a = message.outcome?)
      (hdelivered : World.delivered? w a = none)
      (hjoins : Joins message (World.waiting w) (World.waiting after))
      (hflying : (message.finished ++ World.flying after).Perm (World.flying w))
      (hevents : after.state.events = w.state.events)
      (hnow : w.scheduler.now ≤ after.scheduler.now)
      (hretries : ∀ time, World.RetriesBy w time → World.RetriesBy after time)
  | turn (s : Source P) (message : Message P) (rest : List (Message P)) (t : Turn P)
      (hbefore : w.state.source = some s)
      (hturn : s.handle after.scheduler.now message = t)
      (hafter : after.state.source = some t.source) (hposted : World.Posted after)
      (hgrant : a.grant = id) (hbrought : World.brought? w a = none)
      (hdelivered : World.delivered? w a = some (message, after.scheduler.now))
      (hwaiting : World.waiting w = message :: rest)
      (hleft : World.waiting after = rest ++ List.replicate (flushes t.effects) .flush)
      (hflying : World.flying after = World.flying w ++ started t.effects)
      (hevents : after.state.events =
        w.state.events ++ t.effects.filterMap (Effect.event? heeds after.scheduler.now))
      (hnow : w.scheduler.now ≤ after.scheduler.now)
      (hretries : message ≠ .retry →
        ∀ time, World.RetriesBy w time → World.RetriesBy after time)
      (hwakes : ∀ delay, Effect.wake delay ∈ t.effects →
        World.RetriesBy after (after.scheduler.now + delay))

/-- What is left when a task is chosen. -/
theorem chosen_spec {w : World κ P} {a : Act P} {task : Task} {rest : Scheduler Task (Load P)}
    (h : World.chosen? w a = some (task, rest)) :
    w.scheduler.now ≤ rest.now ∧ rest.futures = w.scheduler.futures ∧
      ∀ other time, w.scheduler.RunsBy other time → other = task ∨ rest.RunsBy other time := by
  cases a with
  | run n =>
      exact ⟨Scheduler.now_readyAt? h, Scheduler.futures_readyAt? h, fun _ _ hw => hw.readyAt? h⟩
  | fire n =>
      exact ⟨Scheduler.now_delayedAt? h, Scheduler.futures_delayedAt? h,
        fun _ _ hw => hw.delayedAt? h⟩
  | _ => cases h

theorem grant_of_chosen {w : World κ P} {a : Act P} {task : Task}
    {rest : Scheduler Task (Load P)} (h : World.chosen? w a = some (task, rest)) :
    a.grant = id ∧ World.brought? w a = none := by
  cases a with
  | run n => exact ⟨rfl, rfl⟩
  | fire n => exact ⟨rfl, rfl⟩
  | _ => cases h

section Step

variable {heeds : Bool} {w : World κ P} {a : Act P} {s : Source P}

/-- Posting a message once the work that led to it is taken from the scheduler. -/
theorem Step.push {left : World κ P} {message : Message P}
    (hposted : World.Posted w) (hsource : w.state.source = some s)
    (hstate : left.state.source = w.state.source ∧ left.state.mailbox = w.state.mailbox ∧
      left.state.events = w.state.events)
    (hgrant : a.grant = message.grant) (hbrought : World.brought? w a = message.outcome?)
    (hdelivered : World.delivered? w a = none)
    (hflying : (message.finished ++ World.flying left).Perm (World.flying w))
    (hnow : w.scheduler.now ≤ left.scheduler.now)
    (hretries : ∀ time, w.scheduler.RunsBy .wake time →
      message = .retry ∨ left.scheduler.RunsBy .wake time) :
    Step heeds w a (World.push left message) := by
  obtain ⟨hsame, hmailbox, hevents⟩ := hstate
  have hleft : World.Posted left := by
    unfold World.Posted
    rw [hmailbox]
    exact hposted
  have hwaiting : World.waiting left = World.waiting w := by
    unfold World.waiting
    rw [hmailbox]
  have hjoins := joins_push message hleft
  rw [hwaiting] at hjoins
  refine .post s message hsource ?_ (posted_push message hleft) hgrant hbrought hdelivered hjoins
    ?_ ?_ ?_ ?_
  · rw [source_push, hsame, hsource]
  · rw [flying_push]
    exact hflying
  · rw [events_push, hevents]
  · rw [now_push]
    exact hnow
  · intro time hw
    rcases hw with hmember | hruns
    · exact .inl (hjoins.mem_of_mem rfl hmember)
    · rcases hretries time hruns with rfl | hkept
      · exact .inl hjoins.mem_self
      · exact .inr (runsBy_push left message hkept)

/-- A world whose source has handled the oldest message, before the effects. -/
def World.turned (w : World κ P) (s : Source P) (e : Envelope (Message P))
    (back : List (Envelope (Message P))) : World κ P :=
  let next := (s.handle w.scheduler.now e.content).source
  ⟨w.scheduler.reckon (s.told w.scheduler.now e.content next),
    { w.state with mailbox := ⟨back⟩, source := some next }⟩

/-- Delivering a message handles it and then does what it makes the source do. If more were waiting,
the next delivery follows. -/
theorem deliver_eq (loader : Loader κ P) {e : Envelope (Message P)}
    {back : List (Envelope (Message P))} (hsource : w.state.source = some s)
    (hqueue : w.state.mailbox.queue = e :: back) :
    let effects := (s.handle w.scheduler.now e.content).effects
    let done := effects.foldl (World.perform loader) (World.turned w s e back)
    World.deliver loader w = if back.isEmpty then done else done.addTask 0 .deliver := by
  simp only [World.deliver, Mailbox.pop?, hqueue, World.apply, System.modify, hsource,
    System.reckon, World.turned]

theorem performed_deliver (loader : Loader κ P) {e : Envelope (Message P)}
    {back : List (Envelope (Message P))} (hsource : w.state.source = some s)
    (hqueue : w.state.mailbox.queue = e :: back) :
    Performed loader.heeds (s.handle w.scheduler.now e.content).effects
      (World.turned w s e back) (World.deliver loader w) := by
  have hfoldl := Performed.foldl loader (World.turned w s e back)
    (s.handle w.scheduler.now e.content).effects
  rw [deliver_eq loader hsource hqueue]
  split
  · exact hfoldl
  · exact hfoldl.addTask .deliver

/-- Delivering the oldest message, if there is one. -/
theorem Step.deliver (loader : Loader κ P) {rest : Scheduler Task (Load P)}
    (hposted : World.Posted w) (hsource : w.state.source = some s)
    (hchosen : World.chosen? w a = some (.deliver, rest)) :
    Step loader.heeds w a (World.deliver loader { w with scheduler := rest }) := by
  obtain ⟨hnow, hfutures, hruns⟩ := chosen_spec hchosen
  obtain ⟨hgrant, hbrought⟩ := grant_of_chosen hchosen
  have hflying : rest.futures.map Load.tile = World.flying w := by rw [hfutures]; rfl
  have hwake : ∀ time, w.scheduler.RunsBy .wake time → rest.RunsBy .wake time := by
    intro time hw
    rcases hruns .wake time hw with hsame | hleft
    · cases hsame
    · exact hleft
  cases hqueue : w.state.mailbox.queue with
  | nil =>
      have hidle : World.deliver loader { w with scheduler := rest } =
          { w with scheduler := rest } := by
        simp [World.deliver, Mailbox.pop?, hqueue]
      rw [hidle]
      refine .quiet s hsource hsource hposted hgrant hbrought ?_ rfl hflying rfl hnow ?_
      · simp [World.delivered?, hchosen, World.waiting, hqueue]
      · intro time hw
        exact hw.imp_right (hwake time)
  | cons e back =>
      let next := s.handle rest.now e.content
      let handled : World κ P := World.turned { w with scheduler := rest } s e back
      let after := World.deliver loader { w with scheduler := rest }
      have hdone : Performed loader.heeds next.effects handled after :=
        performed_deliver (w := { w with scheduler := rest }) loader hsource hqueue
      have hclock : after.scheduler.now = rest.now := hdone.now_eq
      have hleft : after.state.mailbox.queue =
          back ++ List.replicate (flushes next.effects) Message.flush.envelope := hdone.queue_eq
      have hwaiting : World.waiting w = e.content :: back.map Envelope.content := by
        simp [World.waiting, hqueue]
      have hbehind : World.waiting after =
          back.map Envelope.content ++ List.replicate (flushes next.effects) .flush := by
        unfold World.waiting
        rw [hleft, List.map_append, List.map_replicate, content_envelope]
      have hstill : World.Posted after := by
        intro other hother
        rw [hleft] at hother
        rcases List.mem_append.mp hother with hback | hflush
        · exact hposted other (by rw [hqueue]; exact List.mem_cons_of_mem e hback)
        · rw [List.eq_of_mem_replicate hflush]
          rfl
      refine .turn s e.content (back.map Envelope.content) next hsource ?_ hdone.source_eq
        hstill hgrant hbrought ?_ hwaiting hbehind ?_ ?_ ?_ ?_ ?_
      · rw [hclock]
      · simp only [World.delivered?, hchosen, hwaiting, List.head?_cons, Option.map_some]
        rw [← hclock]
      · rw [hdone.flying_eq, ← hflying]
        rfl
      · rw [hclock]
        exact hdone.events_eq
      · rw [hclock]
        exact hnow
      · intro hother time hw
        -- the handled message is not the one that waits, and its task was not a timer
        rcases hw with hmember | hrunsBy
        · rw [hwaiting] at hmember
          rcases List.mem_cons.mp hmember with hsame | hback
          · exact absurd hsame.symm hother
          · exact .inl (hbehind ▸ List.mem_append_left _ hback)
        · exact .inr (hdone.keeps time (hwake time hrunsBy))
      · intro delay hdelay
        rw [hclock]
        exact .inr (hdone.wakes delay hdelay)

private theorem source_deliver_none (loader : Loader κ P) (hsource : w.state.source = none) :
    (World.deliver loader w).state.source = none := by
  cases hqueue : w.state.mailbox.queue with
  | nil => simp [World.deliver, Mailbox.pop?, hqueue, hsource]
  | cons e back =>
      simp only [World.deliver, Mailbox.pop?, hqueue, World.apply, System.modify, hsource]
      cases e.content <;> split <;> rfl

/-- A message is sent only to a source that is there. -/
theorem send_eq_push (hsource : w.state.source = some s) (message : Message P) :
    World.send w message = World.push w message := by
  simp [World.send, hsource]

theorem send_eq_self (hsource : w.state.source = none) (message : Message P) :
    World.send w message = w := by
  simp [World.send, hsource]

/-- Nothing that happens brings a source back. -/
theorem source_act_none (loader : Loader κ P) (a : Act P) (hsource : w.state.source = none) :
    (World.act loader w a).state.source = none := by
  have hwork : ∀ chosen, (World.work loader w chosen).state.source = none := by
    rintro (_ | ⟨task, rest⟩)
    · exact hsource
    · cases task with
      | deliver => exact source_deliver_none (w := { w with scheduler := rest }) loader hsource
      | wake =>
          change (World.send { w with scheduler := rest } .retry).state.source = none
          rw [send_eq_self (by exact hsource)]
          exact hsource
  cases a with
  | call c =>
      rw [World.act, send_eq_self hsource]
      exact hsource
  | ask question => exact (source_push _ _).trans hsource
  | release => rfl
  | wait time => exact hsource
  | run n => exact hwork _
  | fire n => exact hwork _
  | finish number outcome => exact hsource
  | poll n =>
      simp only [World.act]
      split
      · exact hsource
      · rw [send_eq_self (by exact hsource)]
        exact hsource

/-- Only its owner gives a source up. -/
theorem source_act_some (loader : Loader κ P) (a : Act P) (hkept : a ≠ .release)
    (hsource : w.state.source = some s) :
    ∃ next, (World.act loader w a).state.source = some next := by
  have hsend : ∀ (left : World κ P) message, left.state.source = some s →
      ∃ next, (World.send left message).state.source = some next := by
    intro left message hleft
    rw [send_eq_push hleft, source_push]
    exact ⟨s, hleft⟩
  have hwork : ∀ chosen, ∃ next, (World.work loader w chosen).state.source = some next := by
    rintro (_ | ⟨task, rest⟩)
    · exact ⟨s, hsource⟩
    · cases task with
      | wake => exact hsend { w with scheduler := rest } .retry hsource
      | deliver =>
          cases hqueue : w.state.mailbox.queue with
          | nil => exact ⟨s, by simpa [World.work, behaviour, World.deliver, Mailbox.pop?, hqueue]⟩
          | cons e back =>
              exact ⟨_, (performed_deliver (w := { w with scheduler := rest }) loader hsource
                hqueue).source_eq⟩
  cases a with
  | call c => exact hsend w c.message hsource
  | ask question => exact ⟨s, (source_push _ _).trans hsource⟩
  | release => exact absurd rfl hkept
  | wait time => exact ⟨s, hsource⟩
  | run n => exact hwork _
  | fire n => exact hwork _
  | finish number outcome => exact ⟨s, hsource⟩
  | poll n =>
      simp only [World.act]
      split
      · exact ⟨s, hsource⟩
      · exact hsend _ _ hsource

/-- A task delivers a message, or posts the next attempt. -/
theorem Step.work (loader : Loader κ P) (hposted : World.Posted w)
    (hsource : w.state.source = some s) {task : Task} {rest : Scheduler Task (Load P)}
    (hchosen : World.chosen? w a = some (task, rest)) :
    Step loader.heeds w a (World.work loader w (World.chosen? w a)) := by
  rw [hchosen]
  cases task with
  | deliver => exact .deliver loader hposted hsource hchosen
  | wake =>
      obtain ⟨hnow, hfutures, hruns⟩ := chosen_spec hchosen
      obtain ⟨hgrant, hbrought⟩ := grant_of_chosen hchosen
      change Step loader.heeds w a (World.send { w with scheduler := rest } .retry)
      rw [send_eq_push (w := { w with scheduler := rest }) hsource]
      refine .push hposted hsource ⟨rfl, rfl, rfl⟩ hgrant hbrought ?_ ?_ hnow fun _ _ => .inl rfl
      · simp [World.delivered?, hchosen]
      · change (rest.futures.map Load.tile).Perm (w.scheduler.futures.map Load.tile)
        rw [hfutures]

/-- An act that leaves the messages, the loads and the tasks as they are. -/
theorem Step.idle {after : World κ P} (hposted : World.Posted w) (hsource : w.state.source = some s)
    (hgrant : a.grant = id) (hbrought : World.brought? w a = none)
    (hdelivered : World.delivered? w a = none) (hstate : after.state = w.state)
    (hflying : World.flying after = World.flying w)
    (hnow : w.scheduler.now ≤ after.scheduler.now)
    (hready : after.scheduler.ready = w.scheduler.ready)
    (hdelayed : after.scheduler.delayed = w.scheduler.delayed) : Step heeds w a after := by
  have hwaiting : World.waiting after = World.waiting w := by
    unfold World.waiting
    rw [hstate]
  have hstill : World.Posted after := by
    unfold World.Posted
    rw [hstate]
    exact hposted
  refine .quiet s hsource (hstate ▸ hsource) hstill hgrant hbrought hdelivered hwaiting hflying
    (by rw [hstate]) hnow ?_
  intro time hw
  unfold World.RetriesBy Scheduler.RunsBy
  rw [hwaiting, hready, hdelayed]
  exact hw

end Step

/-- What an act can do if the source is still there afterwards. -/
theorem step_act (loader : Loader κ P) {w : World κ P} (hposted : World.Posted w) (a : Act P)
    {after : Source P} (hafter : (World.act loader w a).state.source = some after) :
    Step loader.heeds w a (World.act loader w a) := by
  cases hsource : w.state.source with
  | none =>
      rw [source_act_none loader a hsource] at hafter
      cases hafter
  | some s =>
      have hidle : World.chosen? w a = none → a.grant = id → World.brought? w a = none →
          Step loader.heeds w a w := by
        intro hchosen hgrant hbrought
        refine .idle hposted hsource hgrant hbrought ?_ rfl rfl (Nat.le_refl _) rfl rfl
        simp [World.delivered?, hchosen]
      cases a with
      | call c =>
          rw [World.act, send_eq_push hsource]
          refine .push hposted hsource ⟨rfl, rfl, rfl⟩ ?_ ?_ rfl ?_ (Nat.le_refl _)
            fun _ h => .inr h
          all_goals cases c <;> rfl
      | ask question =>
          exact .push hposted hsource ⟨rfl, rfl, rfl⟩ rfl rfl rfl (.refl _) (Nat.le_refl _)
            fun _ h => .inr h
      | release => cases hafter
      | wait time =>
          exact .idle hposted hsource rfl rfl rfl rfl rfl (Nat.le_max_left _ _) rfl rfl
      | run n =>
          cases hchosen : World.chosen? w (.run n) with
          | none =>
              rw [World.act, hchosen]
              exact hidle hchosen rfl rfl
          | some chosen => exact .work loader hposted hsource hchosen
      | fire n =>
          cases hchosen : World.chosen? w (.fire n) with
          | none =>
              rw [World.act, hchosen]
              exact hidle hchosen rfl rfl
          | some chosen => exact .work loader hposted hsource hchosen
      | finish number outcome =>
          refine .idle hposted hsource rfl rfl rfl rfl ?_ (Nat.le_refl _) rfl rfl
          change (w.scheduler.futures.map _).map Load.tile = _
          rw [List.map_map]
          apply List.map_congr_left
          intro load _
          simp only [Function.comp]
          split <;> rfl
      | poll n =>
          cases hbrought : World.brought? w (.poll n) with
          | none =>
              simp only [World.act, hbrought]
              exact hidle rfl rfl hbrought
          | some brought =>
              obtain ⟨t, outcome⟩ := brought
              simp only [World.act, hbrought]
              rw [send_eq_push (s := s) (by exact hsource)]
              refine .push hposted hsource ⟨rfl, rfl, rfl⟩ rfl hbrought rfl ?_ (Nat.le_refl _)
                fun _ h => .inr h
              obtain ⟨load, hload, hknown⟩ := Option.bind_eq_some_iff.mp hbrought
              obtain ⟨_, -, htile⟩ := Option.map_eq_some_iff.mp hknown
              cases htile
              obtain ⟨hn, rfl⟩ := List.getElem?_eq_some_iff.mp hload
              have hperm := List.getElem_cons_eraseIdx_perm hn
              exact hperm.map Load.tile

/-- Only its owner gives a source up. -/
theorem eq_release_of_gone {loader : Loader κ P} {w : World κ P} {a : Act P} {s : Source P}
    (hsource : w.state.source = some s) (hgone : (World.act loader w a).state.source = none) :
    a = .release := by
  by_contra hkept
  obtain ⟨next, hnext⟩ := source_act_some loader a hkept hsource
  cases hgone.symm.trans hnext

end MapTiles.Source
