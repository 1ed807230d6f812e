import MapTiles.Proofs.Source.Announced
import MapTiles.Proofs.Source.Ledger

/-!
The notifications of a source over a whole run. The tiles that have arrived change between any two
of them and before the first, and a change that the listener was not told of has a flush on its
way, unless the source is paused.
-/

namespace MapTiles.Source

variable {κ P : Type}

/-- The times of all notifications that there have been. -/
def World.notifications (w : World κ P) : List Instant :=
  w.state.events.filterMap fun
    | .notified time => some time
    | _ => none

/-- The tiles that have arrived, unless the source is gone. -/
def World.resident? (w : World κ P) : Option (TileMap (Resident P)) :=
  w.state.source.map fun s => s.loading.resident

/-- What matters to a listener: the tiles that have arrived change, or it is told so. -/
inductive Mark where
  | changed
  | notified
deriving DecidableEq

open Classical in
/-- The marks of an act. A notification comes last, after any change. -/
noncomputable def World.marked (loader : Loader κ P) (w : World κ P) (a : Act P) : List Mark :=
  let after := World.act loader w a
  (if World.resident? after = World.resident? w then [] else [.changed]) ++
    ((World.notifications after).drop (World.notifications w).length).map fun _ => .notified

/-- The marks of a run. -/
noncomputable def World.marks (loader : Loader κ P) (w : World κ P) (acts : List (Act P)) :
    List Mark :=
  (World.trace loader w acts).flatMap fun (w, a) => World.marked loader w a

/-- Whether a change comes right before every notification. -/
def Alternates (marks : List Mark) : Prop :=
  ∀ front back, marks = front ++ .notified :: back → front.getLast? = some .changed

theorem alternates_nil : Alternates [] := by
  intro front back heq
  simp at heq

theorem Alternates.concat {marks : List Mark} (h : Alternates marks) (mark : Mark)
    (hlast : mark = .notified → marks.getLast? = some .changed) :
    Alternates (marks ++ [mark]) := by
  intro front back heq
  rcases List.eq_nil_or_concat back with rfl | ⟨init, last, rfl⟩
  · obtain ⟨rfl, hmark⟩ := List.append_inj' heq rfl
    exact hlast (List.cons.inj hmark).1
  · rw [List.concat_eq_append, ← List.cons_append, ← List.append_assoc] at heq
    exact h front init (List.append_inj' heq rfl).1

theorem marks_append (loader : Loader κ P) (w : World κ P) (acts : List (Act P)) (a : Act P) :
    World.marks loader w (acts ++ [a]) =
      World.marks loader w acts ++ World.marked loader (World.run loader w acts) a := by
  simp [World.marks, trace_append]

/-- The notifications that are seen from outside are those that the effects give. -/
theorem notifications_performed {heeds : Bool} {now : Instant} {effects : List Effect}
    {w after : World κ P}
    (hevents : after.state.events = w.state.events ++ effects.filterMap (Effect.event? heeds now)) :
    World.notifications after = World.notifications w ++ List.replicate (notices effects) now := by
  unfold World.notifications
  rw [hevents, List.filterMap_append, List.filterMap_filterMap]
  congr 1
  clear hevents
  induction effects with
  | nil => rfl
  | cons effect rest ih =>
      rw [notices, List.countP_cons, ← notices, List.filterMap_cons, ih]
      cases effect with
      | cancel t key => cases heeds <;> rfl
      | _ => rfl

open Classical in
/-- The marks of an act that lets the source handle a message. -/
theorem marked_turn {heeds : Bool} {now : Instant} {loader : Loader κ P} {w : World κ P}
    {a : Act P} {s : Source P} {t : Turn P} (hbefore : w.state.source = some s)
    (hafter : (World.act loader w a).state.source = some t.source)
    (hevents : (World.act loader w a).state.events =
      w.state.events ++ t.effects.filterMap (Effect.event? heeds now)) :
    World.marked loader w a =
      (if t.source.loading.resident = s.loading.resident then [] else [.changed]) ++
        List.replicate (notices t.effects) .notified := by
  simp [World.marked, World.resident?, hbefore, hafter, notifications_performed hevents]

/-- An act that handles no message leaves no mark. -/
theorem marked_quiet {loader : Loader κ P} {w : World κ P} {a : Act P}
    (hsource : (World.act loader w a).state.source = w.state.source)
    (hevents : (World.act loader w a).state.events = w.state.events) :
    World.marked loader w a = [] := by
  simp [World.marked, World.resident?, World.notifications, hsource, hevents]

/-- A flush that is owed was owed before, and not told, or is posted in this turn. -/
theorem Turn.Tells.flush {before : Source P} {t : Turn P} (h : t.Tells before)
    (hqueued : t.source.flushQueued = true) :
    before.flushQueued = true ∨ 0 < flushes t.effects := by
  cases h with
  | silent h => exact h.flush hqueued
  | aloud earlier h _ _ hturn =>
      subst hturn
      rw [flushes_append]
      exact (h.flush hqueued).imp_right fun hposted => Nat.add_pos_left hposted _

theorem Turn.Tells.faithful {before : Source P} {t : Turn P} (h : t.Tells before) :
    t.source.Faithful := by
  cases h with
  | silent h => exact h.faithful
  | aloud earlier h _ _ hturn =>
      subst hturn
      exact ⟨h.faithful.published_eq, h.faithful.filed⟩

/-- What a source owes its listener, given the marks of the run so far. -/
structure World.Informed (listening : Bool) (marks : List Mark) (w : World κ P) (s : Source P) :
    Prop where
  faithful : s.Faithful
  flushed : s.Flushed
  posted : s.flushQueued = true → Message.flush ∈ World.waiting w
  changed_iff : listening = true → (s.changed = true ↔ marks.getLast? = some .changed)
  alternates : Alternates marks

namespace World.Informed

variable {setup : Setup} {limits : Nat × BackoffPolicy} {listening : Bool} {marks : List Mark}
  {w after : World κ P} {s : Source P}

/-- Without a message that is handled everything stays as it is. -/
theorem waits (h : World.Informed listening marks w s)
    (hwaiting : ∀ message ∈ World.waiting w, message.view? = none → message ∈ World.waiting after) :
    World.Informed listening marks after s :=
  ⟨h.faithful, h.flushed, fun hqueued => hwaiting .flush (h.posted hqueued) rfl, h.changed_iff,
    h.alternates⟩

theorem posted_turn (h : World.Informed listening marks w s) {now : Instant} {message : Message P}
    {rest : List (Message P)} (htells : (s.handle now message).Tells s)
    (hwaiting : World.waiting w = message :: rest)
    (hleft : World.waiting after =
      rest ++ List.replicate (flushes (s.handle now message).effects) .flush)
    (hqueued : (s.handle now message).source.flushQueued = true) :
    Message.flush ∈ World.waiting after := by
  rw [hleft]
  rcases htells.flush hqueued with hbefore | hposted
  · have hmember := h.posted hbefore
    rw [hwaiting] at hmember
    rcases List.mem_cons.mp hmember with rfl | hrest
    -- a flush that is handled is no longer owed
    · rcases notifyIfChanged_cases { s with flushQueued := false } with ⟨hidle, -⟩ | ⟨-, -, htold⟩
      · rw [handle, hidle] at hqueued
        cases hqueued
      · rw [handle, htold] at hqueued
        cases hqueued
    · exact List.mem_append_left _ hrest
  · exact List.mem_append_right _ (List.mem_replicate.mpr ⟨Nat.ne_of_gt hposted, rfl⟩)

open Classical in
/-- A turn tells of the changes that it makes or leaves them owed. -/
theorem turn (h : World.Informed s.setup.listening marks w s) {t : Turn P} (htells : t.Tells s)
    (hposted : t.source.flushQueued = true → Message.flush ∈ World.waiting after) :
    World.Informed s.setup.listening
      (marks ++ ((if t.source.loading.resident = s.loading.resident then [] else [.changed]) ++
        List.replicate (notices t.effects) .notified)) after t.source := by
  rw [← List.append_assoc]
  generalize hmiddle : marks ++
    (if t.source.loading.resident = s.loading.resident then [] else [.changed]) = middle
  have halternates : Alternates middle := by
    rw [← hmiddle]
    split
    · rw [List.append_nil]
      exact h.alternates
    · exact h.alternates.concat .changed nofun
  have hlast : s.setup.listening = true → (middle.getLast? = some .changed ↔
      s.changed = true ∨ t.source.loading.resident ≠ s.loading.resident) := by
    intro hlistening
    rw [← hmiddle, h.changed_iff hlistening]
    split <;> simp [*]
  cases htells with
  | silent htells hflushed =>
      refine ⟨htells.faithful, hflushed, hposted, fun hlistening => ?_, ?_⟩
      · rw [htells.silent, List.replicate_zero, List.append_nil, hlast hlistening]
        exact htells.changed_iff
      · rw [htells.silent, List.replicate_zero, List.append_nil]
        exact halternates
  | aloud earlier htells hactive hchanged hturn =>
      have hcount : notices t.effects = if s.setup.listening then 1 else 0 := by
        rw [hturn, notices_append, htells.silent, htells.setup_eq, Nat.zero_add]
        split <;> rfl
      have hcleared : t.source.changed = false := by rw [hturn]
      have hresident : t.source.loading.resident = earlier.source.loading.resident := by
        rw [hturn]
      rw [hcount]
      refine ⟨?_, fun _ hstill => ?_, hposted, fun hlistening => ?_, ?_⟩
      · rw [hturn]
        exact ⟨htells.faithful.published_eq, htells.faithful.filed⟩
      · rw [hcleared] at hstill
        cases hstill
      · simp [hcleared, hlistening]
      · split
        case isTrue hlistening =>
          rw [hresident] at hlast
          exact halternates.concat .notified fun _ =>
            (hlast hlistening).mpr (htells.changed_iff.mp hchanged)
        case isFalse =>
          rw [List.replicate_zero, List.append_nil]
          exact halternates

/-- What a source owes its listener is kept track of by every act. -/
theorem act {loader : Loader κ P} {heeds : Bool} {a : Act P}
    (hstep : Step heeds w a (World.act loader w a))
    {before : Source P} (hsource : w.state.source = some before)
    (hsettled : before.Settled setup limits)
    (h : World.Informed before.setup.listening marks w before)
    (hafter : (World.act loader w a).state.source = some s) :
    World.Informed s.setup.listening (marks ++ World.marked loader w a)
      (World.act loader w a) s := by
  cases hstep with
  | quiet _ hbefore hsame _ _ _ _ hwaiting _ hevents =>
      obtain rfl := Option.some.inj (hsource.symm.trans hbefore)
      obtain rfl := Option.some.inj (hafter.symm.trans hsame)
      rw [marked_quiet (hafter.trans hbefore.symm) hevents, List.append_nil]
      exact h.waits fun message hmember _ => hwaiting ▸ hmember
  | post _ message hbefore hsame _ _ _ _ hjoins _ hevents =>
      obtain rfl := Option.some.inj (hsource.symm.trans hbefore)
      obtain rfl := Option.some.inj (hafter.symm.trans hsame)
      rw [marked_quiet (hafter.trans hbefore.symm) hevents, List.append_nil]
      exact h.waits fun other hmember hview => hjoins.mem_of_mem hview hmember
  | turn _ message rest t hbefore hturn hsame _ _ _ _ hwaiting hleft _ hevents =>
      obtain rfl := Option.some.inj (hsource.symm.trans hbefore)
      obtain rfl := Option.some.inj (hafter.symm.trans hsame)
      rw [marked_turn hbefore hafter hevents]
      subst hturn
      have htells := tells_handle h.faithful h.flushed hsettled
        (World.act loader w a).scheduler.now message
      have hnext := hsettled.handle (World.act loader w a).scheduler.now message
      rw [hnext.setup_eq, ← hsettled.setup_eq]
      exact h.turn htells (h.posted_turn htells hwaiting hleft)

end World.Informed

variable {layer : Layer} {config : Config} {convert : Converter} {listening : Bool}
  {first : Source P}

theorem informed_run (hbuild : build layer config convert listening = .ok first)
    (loader : Loader κ P) (memory : κ) (acts : List (Act P)) {s : Source P}
    (hsource : (World.run loader (World.start first memory) acts).state.source = some s) :
    World.Informed s.setup.listening (World.marks loader (World.start first memory) acts)
      (World.run loader (World.start first memory) acts) s := by
  refine holds_run hbuild loader memory (motive := fun acts w s =>
    World.Informed s.setup.listening (World.marks loader (World.start first memory) acts) w s)
    ?_ ?_ acts hsource
  · obtain ⟨-, rfl⟩ := build_spec hbuild
    exact ⟨⟨rfl, fun t r hr => nomatch hr⟩, fun _ => nofun, nofun, fun _ => ⟨nofun, nofun⟩,
      alternates_nil⟩
  · rintro acts a _ before after rfl hbefore hafter horderly hstep hinformed
    rw [marks_append]
    exact .act hstep hbefore horderly.settled hinformed hafter

end MapTiles.Source
