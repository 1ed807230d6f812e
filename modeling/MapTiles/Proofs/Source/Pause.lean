import MapTiles.Proofs.Source.Notices
import MapTiles.Proofs.Source.Timers

/-!
A source while it is paused. Whatever message it handles, it does nothing but answer questions. The
queue stays empty and what is on screen stays as it is. Loads end, and those that were not given up
bring their tiles, but none starts. All that is asked for in the meantime is kept in mind, and the
message that ends the pause catches up with it.
-/

namespace MapTiles.Source

variable {κ P : Type} {s : Source P} {now : Instant} {message : Message P}

/-- What a message can do to a paused source. -/
structure Turn.Rests (s : Source P) (message : Message P) (t : Turn P) : Prop where
  paused : t.source.paused = true
  answers : ∀ effect ∈ t.effects, ∃ slot value, effect = .answer slot value
  queue : s.loading.queue = ∅ → t.source.loading.queue = ∅
  visible_eq : t.source.loading.visible = s.loading.visible
  bounds_eq : t.source.viewBounds = s.viewBounds
  inFlight : ∀ (u : Tile) (marked : Bool), t.source.loading.inFlight[u]? = some marked →
    s.loading.inFlight[u]? = some marked
  resident : t.source.loading.resident = s.loading.resident ∨
    (∃ u payload place, message = .loaded u (.loaded payload) ∧
      s.loading.inFlight[u]? = some false ∧ s.loading.visible[u]? = some place ∧
      t.source.loading.resident = s.loading.resident.insert u ⟨u, place.bounds, payload⟩) ∨
    message = .reload ∧ t.source.loading.resident = ∅

/-- A source that was paused before stays so while it takes note of a message, unless that ends the
pause. -/
theorem rests_noted (hpaused : s.paused = true) (hother : message ≠ .resume) :
    (Turn.idle (s.noted message)).Rests s message := by
  cases message with
  | resume => exact absurd rfl hother
  | pause =>
      simp only [noted, pause, if_pos hpaused]
      exact ⟨hpaused, List.forall_mem_nil _, id, rfl, rfl, fun _ _ h => h, .inl rfl⟩
  | reload =>
      simp only [noted]
      split
      all_goals
        exact ⟨hpaused, List.forall_mem_nil _, fun _ => rfl, rfl, rfl, fun _ _ h => h,
          .inr (.inr ⟨rfl, rfl⟩)⟩
  | _ => exact ⟨hpaused, List.forall_mem_nil _, id, rfl, rfl, fun _ _ h => h, .inl rfl⟩

/-- The outcome of a load is stored, but nothing follows from it. -/
theorem rests_takeOutcome (hpaused : s.paused = true) (now : Instant) (t : Tile)
    (outcome : Outcome P) : (s.takeOutcome now t outcome).Rests s (.loaded t outcome) := by
  obtain ⟨published, changed, flushQueued, htaken⟩ := s.taken_source now t outcome
  have hrests : (s.taken now t outcome).source.paused = true := by rw [htaken, hpaused]
  have hsilent : (s.taken now t outcome).effects = [] := by
    simp only [taken]
    split
    · rw [queueFlush, publish, if_pos (by simp [hpaused])]
      rfl
    · rfl
  rw [takeOutcome_eq, settle_of_paused hrests]
  refine ⟨hrests, by simp [hsilent], ?_, ?_, ?_, ?_, ?_⟩
  all_goals rw [htaken]
  · exact fun hempty => (Loading.queue_complete ..).trans hempty
  · exact Loading.visible_complete ..
  · intro u marked hrunning
    change (s.loading.complete t outcome now).1.inFlight[u]? = some marked at hrunning
    rw [Loading.inFlight_complete, TileMap.getElem?_erase] at hrunning
    split at hrunning
    · cases hrunning
    · exact hrunning
  · rcases s.loading.resident_complete_cases t outcome now with
      hsame | ⟨payload, place, rfl, hrunning, hplace, hstored⟩
    · exact .inl hsame
    · exact .inr (.inl ⟨t, payload, place, rfl, hrunning, hplace, hstored⟩)

/-- Whatever message a paused source handles, it rests, unless the message ends the pause. -/
theorem rests_handle (hpaused : s.paused = true) (hother : message ≠ .resume) (now : Instant) :
    (s.handle now message).Rests s message := by
  have hnoted := rests_noted hpaused hother
  have hhandled := handling now s message
  generalize s.handle now message = turn at hhandled ⊢
  cases hhandled with
  | rests => exact hnoted
  | blank => exact hnoted
  | goesOn => exact absurd rfl hother
  | answers slot question =>
      refine ⟨hpaused, ?_, id, rfl, rfl, fun _ _ h => h, .inl rfl⟩
      intro effect heffect
      exact ⟨slot, _, List.mem_singleton.mp heffect⟩
  | shows _ _ _ hactive => exact absurd (hnoted.paused.symm.trans hactive) nofun
  | notifies _ hkind =>
      rcases notifyIfChanged_cases (s.noted message) with ⟨hidle, -⟩ | ⟨hactive, -⟩
      · rw [hidle]
        exact hnoted
      · exact absurd (hnoted.paused.symm.trans hactive) nofun
  | takes t outcome => exact rests_takeOutcome hpaused now t outcome
  | retries hactive => exact absurd (hpaused.symm.trans hactive) nofun

/-- What is asked for once a source has handled a message. -/
theorem wishes_handle {setup : Setup} {limits : Nat × BackoffPolicy} {wanted : Wishes}
    {w : World κ P} (h : World.Orderly setup limits wanted w s) {rest : List (Message P)}
    (hwaiting : World.waiting w = message :: rest) (now : Instant) :
    (s.handle now message).source.wishes = message.grant s.wishes :=
  (follows_handle s now message h.settled.consistent (h.running_of_waiting hwaiting)).wishes_eq

/-- Nothing waits in the queue while a source is paused. -/
theorem queue_handle (hqueue : s.paused = true → s.loading.queue = ∅)
    (hwishes : (s.handle now message).source.wishes = message.grant s.wishes)
    (hpaused : (s.handle now message).source.paused = true) :
    (s.handle now message).source.loading.queue = ∅ := by
  have hgranted : (message.grant s.wishes).paused = true := by
    rw [← hwishes]
    exact hpaused
  cases hbefore : s.paused with
  | true =>
      have hother : message ≠ .resume := by
        rintro rfl
        cases hgranted
      exact (rests_handle hbefore hother now).queue (hqueue hbefore)
  | false =>
      cases message with
      | pause => simp [handle, Turn.idle, pause, hbefore, Loading.clearQueue]
      | resume => cases hgranted
      | _ => exact absurd (hbefore.symm.trans hgranted) Bool.false_ne_true

/-- What does not change about a source as long as it is paused. -/
structure Still (before after : Source P) : Prop where
  paused : after.paused = true
  queue : after.loading.queue = ∅
  visible_eq : after.loading.visible = before.loading.visible
  bounds_eq : after.viewBounds = before.viewBounds
  inFlight : ∀ (u : Tile) (marked : Bool), after.loading.inFlight[u]? = some marked →
    before.loading.inFlight[u]? = some marked

theorem Still.handle {before : Source P} (h : before.Still s) (hother : message ≠ .resume)
    (now : Instant) : before.Still (s.handle now message).source := by
  have hrests := rests_handle h.paused hother now
  exact ⟨hrests.paused, hrests.queue h.queue, hrests.visible_eq.trans h.visible_eq,
    hrests.bounds_eq.trans h.bounds_eq,
    fun u marked hrunning => h.inFlight u marked (hrests.inFlight u marked hrunning)⟩

def Message.isResume : Message P → Bool
  | .resume => true
  | _ => false

/-- Whether an act makes the source go on. -/
def World.resumes (w : World κ P) (a : Act P) : Bool :=
  (World.delivered? w a).any fun (message, _) => message.isResume

theorem resumes_iff {w : World κ P} {a : Act P} :
    World.resumes w a = true ↔ ∃ now, World.delivered? w a = some (.resume, now) := by
  rw [World.resumes, Option.any_eq_true]
  constructor
  · rintro ⟨⟨message, now⟩, hdelivered, hkind⟩
    cases message with
    | resume => exact ⟨now, hdelivered⟩
    | _ => cases hkind
  · rintro ⟨now, hdelivered⟩
    exact ⟨_, hdelivered, rfl⟩

/-- What holds as long as a source is paused, if `before` is the source at the start of the pause,
`events` is what was seen until then and `delayed` are the timers that had been set. -/
structure World.Frozen (before : Source P) (events : List Event) (delayed : List (Delayed Task))
    (w : World κ P) : Prop where
  still : ∀ s, w.state.source = some s → before.Still s
  events_eq : w.state.events = events
  timers : w.scheduler.delayed.Sublist delayed

section Act

variable {setup : Setup} {limits : Nat × BackoffPolicy} {wanted : Wishes} {before : Source P}
  {events : List Event} {delayed : List (Delayed Task)} {w : World κ P}

theorem delays_of_answers {effects : List Effect}
    (h : ∀ effect ∈ effects, ∃ slot value, effect = .answer slot value) : delays effects = [] := by
  refine List.filterMap_eq_nil_iff.mpr fun effect heffect => ?_
  obtain ⟨slot, value, rfl⟩ := h effect heffect
  rfl

theorem events_of_answers {effects : List Effect} (heeds : Bool) (now : Instant)
    (h : ∀ effect ∈ effects, ∃ slot value, effect = .answer slot value) :
    effects.filterMap (Effect.event? heeds now) = [] := by
  refine List.filterMap_eq_nil_iff.mpr fun effect heffect => ?_
  obtain ⟨slot, value, rfl⟩ := h effect heffect
  rfl

/-- As long as a source is paused, acts only make it answer questions. -/
theorem World.Frozen.answers (h : World.Frozen before events delayed w) (loader : Loader κ P)
    (hposted : ∀ s, w.state.source = some s → World.Posted w) {a : Act P}
    (hother : ¬World.resumes w a) :
    ∀ effect ∈ World.effects w a, ∃ slot value, effect = .answer slot value := by
  cases move_act loader hposted a with
  | gone _ heffects => simp [heffects]
  | rests _ _ _ _ heffects => simp [heffects]
  | handles s message _ hbefore _ hdelivered _ heffects =>
      have hmessage : message ≠ .resume := by
        rintro rfl
        exact hother (resumes_iff.mpr ⟨_, hdelivered⟩)
      rw [heffects]
      exact (rests_handle (h.still s hbefore).paused hmessage _).answers

/-- Everything stays as it is until the source goes on. -/
theorem World.Frozen.act (h : World.Frozen before events delayed w) (loader : Loader κ P)
    (hposted : ∀ s, w.state.source = some s → World.Posted w) {a : Act P}
    (hother : ¬World.resumes w a) :
    World.Frozen before events delayed (World.act loader w a) := by
  have hanswers := h.answers loader hposted hother
  obtain ⟨rest, -, hrest, -, -, htimers⟩ := timers_act loader w a
  have hdelayed : (World.act loader w a).scheduler.delayed.Sublist delayed := by
    rw [htimers.delayed_eq, delays_of_answers hanswers]
    exact hrest.trans h.timers
  cases move_act loader hposted a with
  | gone hafter _ hevents =>
      exact ⟨fun s hsource => (nomatch hafter.symm.trans hsource), hevents.trans h.events_eq,
        hdelayed⟩
  | rests s hbefore hafter _ _ hevents =>
      refine ⟨fun next hnext => h.still next ?_, hevents.trans h.events_eq, hdelayed⟩
      exact hbefore.trans (hafter.symm.trans hnext)
  | handles s message _ hbefore _ hdelivered hafter _ hevents =>
      have hmessage : message ≠ .resume := by
        rintro rfl
        exact hother (resumes_iff.mpr ⟨_, hdelivered⟩)
      refine ⟨fun next hnext => ?_, ?_, hdelayed⟩
      · obtain rfl := Option.some.inj (hafter.symm.trans hnext)
        exact (h.still s hbefore).handle hmessage _
      · rw [hevents, events_of_answers _ _ hanswers, List.append_nil, h.events_eq]

end Act

variable {layer : Layer} {config : Config} {convert : Converter} {listening : Bool}
  {first : Source P}

/-- The messages that a source was made to handle in a run, in order. -/
def World.handled (loader : Loader κ P) (w : World κ P) (acts : List (Act P)) : List (Message P) :=
  (World.trace loader w acts).filterMap fun (w, a) => (World.delivered? w a).map Prod.fst

theorem handled_append (loader : Loader κ P) (w : World κ P) (acts : List (Act P)) (a : Act P) :
    World.handled loader w (acts ++ [a]) = World.handled loader w acts ++
      ((World.delivered? (World.run loader w acts) a).map Prod.fst).toList := by
  unfold World.handled
  rw [trace_append, List.filterMap_append]
  cases hdelivered : World.delivered? (World.run loader w acts) a <;> simp [hdelivered]

/-- What a source takes to be asked of it is what it was told, and while it is paused nothing waits
in the queue. -/
theorem told_run (hbuild : build layer config convert listening = .ok first)
    (loader : Loader κ P) (memory : κ) (acts : List (Act P))
    (hsource : (World.run loader (World.start first memory) acts).state.source = some s) :
    s.wishes = grantAll (World.handled loader (World.start first memory) acts)
        ⟨none, none, none, false⟩ ∧
      (s.paused = true → s.loading.queue = ∅) := by
  refine holds_run hbuild loader memory (motive := fun acts _ s =>
    s.wishes = grantAll (World.handled loader (World.start first memory) acts)
      ⟨none, none, none, false⟩ ∧ (s.paused = true → s.loading.queue = ∅)) ?_ ?_ acts hsource
  · obtain ⟨-, rfl⟩ := build_spec hbuild
    exact ⟨rfl, fun _ => rfl⟩
  · rintro acts a _ before after rfl hbefore hafter horderly - ⟨hwishes, hqueue⟩
    rw [handled_append]
    cases move_act loader (fun _ _ => horderly.posted) a with
    | gone hgone => cases hgone.symm.trans hafter
    | rests s hsource hkept hdelivered =>
        obtain rfl := Option.some.inj (hsource.symm.trans hbefore)
        obtain rfl := Option.some.inj (hkept.symm.trans hafter)
        rw [hdelivered, Option.map_none, Option.toList_none, List.append_nil]
        exact ⟨hwishes, hqueue⟩
    | handles s message rest hsource hwaiting hdelivered hturned =>
        obtain rfl := Option.some.inj (hsource.symm.trans hbefore)
        obtain rfl := Option.some.inj (hturned.symm.trans hafter)
        have hgranted := wishes_handle horderly hwaiting
          (World.act loader (World.run loader (World.start first memory) acts) a).scheduler.now
        refine ⟨?_, queue_handle hqueue hgranted⟩
        rw [hgranted, hdelivered, grantAll_append, hwishes]
        rfl

/-- A source that has handled a pause is still, and stays so until it goes on. All that it does in
the meantime is to answer questions. -/
theorem frozen_run (hbuild : build layer config convert listening = .ok first)
    (loader : Loader κ P) (memory : κ) (front middle : List (Act P)) {before : Source P}
    {events : List Event} {delayed : List (Delayed Task)}
    (h : World.Frozen before events delayed (World.run loader (World.start first memory) front))
    (hmiddle : ∀ entry ∈ World.trace loader
      (World.run loader (World.start first memory) front) middle, ¬World.resumes entry.1 entry.2) :
    World.Frozen before events delayed
        (World.run loader (World.start first memory) (front ++ middle)) ∧
      ∀ entry ∈ World.trace loader (World.run loader (World.start first memory) front) middle,
        ∀ effect ∈ World.effects entry.1 entry.2, ∃ slot value, effect = .answer slot value := by
  induction middle using List.reverseRecOn with
  | nil =>
      rw [List.append_nil]
      exact ⟨h, fun _ hentry => absurd hentry List.not_mem_nil⟩
  | append_singleton middle a ih =>
      rw [trace_append, run_run] at hmiddle ⊢
      obtain ⟨hfrozen, hanswers⟩ :=
        ih fun entry hentry => hmiddle entry (List.mem_append_left _ hentry)
      have hother := hmiddle _ (List.mem_append_right _ (List.mem_singleton_self _))
      have hposted : ∀ s, (World.run loader (World.start first memory)
          (front ++ middle)).state.source = some s → World.Posted _ :=
        fun s hsource => (orderly_run hbuild loader memory _ hsource).posted
      rw [← List.append_assoc, run_append]
      refine ⟨hfrozen.act loader hposted hother, fun entry hentry => ?_⟩
      rcases List.mem_append.mp hentry with hold | hnew
      · exact hanswers entry hold
      · rw [List.mem_singleton.mp hnew]
        exact hfrozen.answers loader hposted hother

end MapTiles.Source
