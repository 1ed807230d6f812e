import MapTiles.Proofs.Source.Notices
import MapTiles.Proofs.Source.Timers

/-!
Tiles that are known not to exist. Once a load has found a tile missing, the tile stays known as
missing whatever happens to the source, and a missing tile is neither queued nor loading, resident
or failed. So it is never loaded again, never published, and no timer is ever set for it.
-/

namespace MapTiles.Source

variable {κ P : Type}

/-- Only the end of a load can change which tiles are known to be missing. -/
theorem missing_handle (s : Source P) (now : Instant) {message : Message P}
    (hother : message.outcome? = none) :
    (s.handle now message).source.loading.missing = s.loading.missing := by
  rw [handle_keeps Loading.missing Loading.missing_dispatchAll Loading.missing_updateVisible
    Loading.missing_enqueueDue s now hother]
  rcases loading_noted_cases s message with hsame | ⟨-, hcleared⟩ | ⟨-, hreset⟩
  · rw [hsame]
  · rw [hcleared]
    rfl
  · rw [hreset]
    rfl

theorem missing_handle_loaded (s : Source P) (now : Instant) (ended : Tile) (outcome : Outcome P) :
    (s.handle now (.loaded ended outcome)).source.loading.missing =
      (s.loading.complete ended outcome now).1.missing := by
  change (s.takeOutcome now ended outcome).source.loading.missing = _
  rw [takeOutcome_keeps Loading.missing Loading.missing_dispatchAll]

/-- No message forgets that a tile is missing. -/
theorem mem_missing_handle {s : Source P} {t : Tile} (h : t ∈ s.loading.missing) (now : Instant)
    (message : Message P) : t ∈ (s.handle now message).source.loading.missing := by
  cases message with
  | loaded ended outcome =>
      rw [missing_handle_loaded]
      exact Loading.mem_missing_complete h ended outcome now
  | _ => rwa [missing_handle s now rfl]

/-- A message makes a tile known as missing only if it says that a load did not find it. -/
theorem mem_missing_of_mem_handle {s : Source P} {t : Tile} {now : Instant} {message : Message P}
    (h : t ∈ (s.handle now message).source.loading.missing) :
    t ∈ s.loading.missing ∨ message.outcome? = some (t, .missing) := by
  cases message with
  | loaded ended outcome =>
      rw [missing_handle_loaded] at h
      refine (Loading.mem_missing_of_mem_complete h).imp_right ?_
      rintro ⟨rfl, rfl⟩
      rfl
  | _ => exact .inl (by rwa [missing_handle s now rfl] at h)

variable {setup : Setup} {limits : Nat × BackoffPolicy} {wanted : Wishes} {w : World κ P}
  {s : Source P} {t : Tile}

/-- A missing tile is not loaded again. -/
theorem not_started_of_missing (horderly : World.Orderly setup limits wanted w s)
    {message : Message P} {rest : List (Message P)} (hwaiting : World.waiting w = message :: rest)
    (h : t ∈ s.loading.missing) (now : Instant) :
    t ∉ started (s.handle now message).effects := by
  intro hstarted
  have hconsistent := horderly.settled.consistent
  have hfinished := horderly.running_of_waiting hwaiting
  have hloads := (follows_handle s now message hconsistent hfinished).loads
  rcases List.mem_append.mp (hloads.mem_iff.mpr (List.mem_append_left _ hstarted)) with
    hended | hrunning
  · exact hconsistent.missing_not_inFlight t h (hfinished t hended)
  · have hnext := (horderly.settled.handle now message).consistent
    exact hnext.missing_not_inFlight t (mem_missing_handle h now message)
      (Std.ExtTreeMap.mem_keys.mp hrunning)

/-- A tile that is known to be missing stays so as long as the source is there, and is not loaded
again. -/
structure World.Absent (t : Tile) (requested : List Tile) (w : World κ P) : Prop where
  missing : ∀ s, w.state.source = some s → t ∈ s.loading.missing
  requested : ∃ later, World.requested w = requested ++ later ∧ t ∉ later

theorem World.Absent.act {loader : Loader κ P} {requested : List Tile}
    (h : World.Absent t requested w)
    (horderly : ∀ s, w.state.source = some s → World.Orderly setup limits wanted w s) (a : Act P) :
    World.Absent t requested (World.act loader w a) := by
  obtain ⟨later, hrequested, hlater⟩ := h.requested
  have hmove := move_act loader (fun s hsource => (horderly s hsource).posted) a
  have hnext := requested_move hmove
  have hrest (heffects : World.effects w a = []) :
      ∃ later, World.requested (World.act loader w a) = requested ++ later ∧ t ∉ later := by
    refine ⟨later, ?_, hlater⟩
    rw [hnext, heffects, hrequested]
    exact List.append_nil _
  cases hmove with
  | gone hafter heffects _ =>
      exact ⟨fun s hsource => (nomatch hafter.symm.trans hsource), hrest heffects⟩
  | rests s hbefore hafter _ heffects _ =>
      refine ⟨fun next hafter' => h.missing next ?_, hrest heffects⟩
      exact hbefore.trans (hafter.symm.trans hafter')
  | handles s message rest hbefore hwaiting _ hafter heffects _ =>
      have hmissing := h.missing s hbefore
      refine ⟨fun next hafter' => ?_, later ++ started (World.effects w a), ?_, ?_⟩
      · obtain rfl := Option.some.inj (hafter.symm.trans hafter')
        exact mem_missing_handle hmissing _ message
      · rw [hnext, hrequested, List.append_assoc]
      · rw [List.mem_append, not_or, heffects]
        exact ⟨hlater, not_started_of_missing (horderly s hbefore) hwaiting hmissing _⟩

variable {layer : Layer} {config : Config} {convert : Converter} {listening : Bool}
  {first : Source P}

/-- A tile is known to be missing only if a load of it brought that it was not found. -/
theorem brought_of_missing (hbuild : build layer config convert listening = .ok first)
    (loader : Loader κ P) (memory : κ) (acts : List (Act P)) {s : Source P}
    (hsource : (World.run loader (World.start first memory) acts).state.source = some s)
    (h : t ∈ s.loading.missing) :
    (t, .missing) ∈ World.brought loader (World.start first memory) acts := by
  have htaken : (t, .missing) ∈ (World.taken loader (World.start first memory) acts).map
      fun entry => (entry.1, entry.2.1) := by
    refine holds_run hbuild loader memory (motive := fun acts _ s => t ∈ s.loading.missing →
      (t, .missing) ∈ (World.taken loader (World.start first memory) acts).map
        fun entry => (entry.1, entry.2.1)) ?_ ?_ acts hsource h
    · intro hmissing
      rw [(build_spec hbuild).2] at hmissing
      cases Std.ExtTreeSet.not_mem_empty hmissing
    · rintro acts a w before after rfl hbefore hafter horderly - ih hmissing
      rw [taken_append, List.map_append, List.mem_append]
      cases move_act loader (fun _ _ => horderly.posted) a with
      | gone hgone _ _ => cases hgone.symm.trans hafter
      | rests s hs hsame _ _ _ =>
          obtain rfl := Option.some.inj (hs.symm.trans hbefore)
          obtain rfl := Option.some.inj (hsame.symm.trans hafter)
          exact .inl (ih hmissing)
      | handles s message rest hs _ hdelivered hturned _ _ =>
          obtain rfl := Option.some.inj (hs.symm.trans hbefore)
          obtain rfl := Option.some.inj (hturned.symm.trans hafter)
          refine (mem_missing_of_mem_handle hmissing).imp ih fun hended => ?_
          rw [taken_of_delivered hbefore hdelivered, hended]
          exact List.mem_singleton_self _
  rw [(balanced_run hbuild loader memory acts hsource).outcomes]
  exact List.mem_append_left _ htaken

end MapTiles.Source
