import MapTiles.Proofs.Source.Ledger

/-!
What an act does to a source, whether it is there or was given up. A source that is there handles
one message or none. Of a source that is gone nothing can be seen from outside: messages that still
wait are taken from the mailbox and dropped, and so is what loads and timers bring.
-/

namespace MapTiles.Source

variable {κ P : Type} {w : World κ P} {a : Act P}

/-- A message that finds no source closes the slot of a question at most. -/
theorem events_deliver_gone (loader : Loader κ P) (hgone : w.state.source = none) :
    (World.deliver loader w).state.events = w.state.events := by
  cases hqueue : w.state.mailbox.queue with
  | nil => simp [World.deliver, Mailbox.pop?, hqueue]
  | cons e back =>
      simp only [World.deliver, Mailbox.pop?, hqueue, World.apply, System.modify, hgone]
      cases e.content <;> split <;> rfl

/-- Nothing that happens to a source that is gone is seen from outside. -/
theorem events_act_gone (loader : Loader κ P) (a : Act P) (hgone : w.state.source = none) :
    (World.act loader w a).state.events = w.state.events := by
  have hwork : ∀ chosen, (World.work loader w chosen).state.events = w.state.events := by
    rintro (_ | ⟨task, rest⟩)
    · rfl
    · cases task with
      | deliver => exact events_deliver_gone (w := { w with scheduler := rest }) loader hgone
      | wake =>
          change (World.send { w with scheduler := rest } .retry).state.events = _
          rw [send_eq_self (by exact hgone)]
  cases a with
  | call c => rw [World.act, send_eq_self hgone]
  | ask question => exact events_push _ _
  | release => rfl
  | wait time => rfl
  | run n => exact hwork _
  | fire n => exact hwork _
  | finish number outcome => rfl
  | poll n =>
      simp only [World.act]
      split
      · rfl
      · rw [send_eq_self (by exact hgone)]

/-- What the delivery of the oldest message makes the source do. -/
def World.reaction (w : World κ P) : List Effect :=
  match (World.waiting w).head?, w.state.source with
  | some message, some s => (s.handle w.scheduler.now message).effects
  | _, _ => []

/-- What an act makes the source do. -/
def World.effects (w : World κ P) (a : Act P) : List Effect :=
  match World.chosen? w a with
  | some (.deliver, rest) => World.reaction { w with scheduler := rest }
  | _ => []

theorem reaction_of_gone (h : w.state.source = none) : World.reaction w = [] := by
  unfold World.reaction
  rw [h]
  split
  · contradiction
  · rfl

theorem effects_of_gone (h : w.state.source = none) :
    World.effects w a = [] := by
  unfold World.effects
  split
  · exact reaction_of_gone h
  · rfl

/-- The effects of an act are those of the message that it makes the source handle. -/
theorem effects_of_turn {s : Source P} {message : Message P}
    {now : Instant} (hsource : w.state.source = some s)
    (hdelivered : World.delivered? w a = some (message, now)) :
    World.effects w a = (s.handle now message).effects := by
  unfold World.delivered? at hdelivered
  split at hdelivered
  case h_2 => cases hdelivered
  case h_1 rest hchosen =>
    obtain ⟨found, hfirst, hfound⟩ := Option.map_eq_some_iff.mp hdelivered
    cases hfound
    have hwaiting : (World.waiting { w with scheduler := rest }).head? = some message := hfirst
    simp [World.effects, hchosen, World.reaction, hwaiting, hsource]

theorem effects_of_rest (h : World.delivered? w a = none) :
    World.effects w a = [] := by
  unfold World.effects
  split
  case h_2 => rfl
  case h_1 rest hchosen =>
    simp only [World.delivered?, hchosen, Option.map_eq_none_iff] at h
    have hwaiting : (World.waiting { w with scheduler := rest }).head? = none := h
    simp [World.reaction, hwaiting]

/-- What an act does to a source. -/
inductive Move (loader : Loader κ P) (w : World κ P) (a : Act P) : Prop
  /-- The source is gone, or its owner gives it up. -/
  | gone (hafter : (World.act loader w a).state.source = none)
      (heffects : World.effects w a = [])
      (hevents : (World.act loader w a).state.events = w.state.events)
  | rests (s : Source P) (hbefore : w.state.source = some s)
      (hafter : (World.act loader w a).state.source = some s)
      (hdelivered : World.delivered? w a = none) (heffects : World.effects w a = [])
      (hevents : (World.act loader w a).state.events = w.state.events)
  | handles (s : Source P) (message : Message P) (rest : List (Message P))
      (hbefore : w.state.source = some s) (hwaiting : World.waiting w = message :: rest)
      (hdelivered : World.delivered? w a = some (message, (World.act loader w a).scheduler.now))
      (hafter : (World.act loader w a).state.source =
        some (s.handle (World.act loader w a).scheduler.now message).source)
      (heffects : World.effects w a =
        (s.handle (World.act loader w a).scheduler.now message).effects)
      (hevents : (World.act loader w a).state.events = w.state.events ++
        (World.effects w a).filterMap
          (Effect.event? loader.heeds (World.act loader w a).scheduler.now))

theorem move_act (loader : Loader κ P)
    (hposted : ∀ s, w.state.source = some s → World.Posted w) (a : Act P) : Move loader w a := by
  cases hsource : w.state.source with
  | none =>
      exact .gone (source_act_none loader a hsource) (effects_of_gone hsource)
        (events_act_gone loader a hsource)
  | some s =>
      cases hafter : (World.act loader w a).state.source with
      | none =>
          obtain rfl := eq_release_of_gone hsource hafter
          exact .gone hafter rfl rfl
      | some after =>
          cases step_act loader (hposted s hsource) a hafter with
          | quiet before hbefore hkept _ _ _ hdelivered _ _ hevents =>
              exact .rests before hbefore hkept hdelivered (effects_of_rest hdelivered) hevents
          | post before message hbefore hkept _ _ _ hdelivered _ _ hevents =>
              exact .rests before hbefore hkept hdelivered (effects_of_rest hdelivered) hevents
          | turn before message rest t hbefore hturn hturned _ _ _ hdelivered hwaiting _ _
              hevents =>
              subst hturn
              have heffects := effects_of_turn hbefore hdelivered
              exact .handles before message rest hbefore hwaiting hdelivered hturned heffects
                (heffects ▸ hevents)

theorem run_gone (loader : Loader κ P) (acts : List (Act P)) (hgone : w.state.source = none) :
    (World.run loader w acts).state.source = none ∧
      (World.run loader w acts).state.events = w.state.events := by
  induction acts using List.reverseRecOn with
  | nil => exact ⟨hgone, rfl⟩
  | append_singleton acts a ih =>
      rw [run_append]
      exact ⟨source_act_none loader a ih.1, (events_act_gone loader a ih.1).trans ih.2⟩

theorem effects_run_gone (loader : Loader κ P) (acts : List (Act P))
    (hgone : w.state.source = none) :
    ∀ entry ∈ World.trace loader w acts, World.effects entry.1 entry.2 = [] := by
  induction acts generalizing w with
  | nil => exact fun _ hentry => nomatch hentry
  | cons a rest ih =>
      intro entry hentry
      rcases List.mem_cons.mp hentry with rfl | hlater
      · exact effects_of_gone hgone
      · exact ih (source_act_none loader a hgone) entry hlater

/-- Whatever comes of an act, the loads that it starts are those of its effects. -/
theorem requested_move {loader : Loader κ P} (h : Move loader w a) :
    World.requested (World.act loader w a) =
      World.requested w ++ started (World.effects w a) := by
  have hsame (heffects : World.effects w a = [])
      (hevents : (World.act loader w a).state.events = w.state.events) :
      World.requested (World.act loader w a) =
        World.requested w ++ started (World.effects w a) := by
    rw [heffects, World.requested, hevents]
    exact (List.append_nil _).symm
  cases h with
  | gone _ heffects hevents => exact hsame heffects hevents
  | rests _ _ _ _ heffects hevents => exact hsame heffects hevents
  | handles _ _ _ _ _ _ _ _ hevents => exact requested_started hevents

/-- The loads of a run are those that its acts start. -/
theorem requested_trace {layer : Layer} {config : Config} {convert : Converter} {listening : Bool}
    {first : Source P} (hbuild : build layer config convert listening = .ok first)
    (loader : Loader κ P) (memory : κ) (front rest : List (Act P)) :
    let w := World.run loader (World.start first memory) front
    World.requested (World.run loader w rest) = World.requested w ++
      (World.trace loader w rest).flatMap
        fun entry => started (World.effects entry.1 entry.2) := by
  intro w
  induction rest using List.reverseRecOn with
  | nil => exact (List.append_nil _).symm
  | append_singleton rest a ih =>
      have hposted : ∀ s, (World.run loader w rest).state.source = some s →
          World.Posted (World.run loader w rest) := by
        rw [run_run]
        exact fun s hsource => (orderly_run hbuild loader memory _ hsource).posted
      rw [run_append, trace_append, List.flatMap_append, List.flatMap_singleton,
        ← List.append_assoc, ← ih]
      exact requested_move (move_act loader hposted a)

end MapTiles.Source
