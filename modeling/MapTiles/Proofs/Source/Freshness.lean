import MapTiles.Proofs.Loading.Difference
import MapTiles.Proofs.Source.Orderly

/-!
What a source shows is never out of date, whatever happens in whatever order.
-/

namespace MapTiles.Source

variable {κ P : Type} {layer : Layer} {config : Config} {convert : Converter} {listening : Bool}
  {first : Source P}

/-- The view that was asked for last. -/
def lastView (acts : List (Act P)) : Option WantedView :=
  (acts.filterMap fun
    | .call (.show view) => some view
    | _ => none).getLast?

/-- The lower end of the window that was set last. -/
def lastLowest (acts : List (Act P)) : Option Int :=
  (acts.filterMap fun
    | .call (.setLowest identifier) => some identifier
    | _ => none).getLast?.join

/-- The upper end of the window that was set last. -/
def lastHighest (acts : List (Act P)) : Option Int :=
  (acts.filterMap fun
    | .call (.setHighest identifier) => some identifier
    | _ => none).getLast?.join

/-- Whether the last call to pause or to go on was one to pause. -/
def lastPaused (acts : List (Act P)) : Bool :=
  (acts.filterMap fun
    | .call .pause => some true
    | .call .resume => some false
    | _ => none).getLast?.getD false

theorem asked_eq (acts : List (Act P)) :
    asked acts = ⟨lastView acts, lastLowest acts, lastHighest acts, lastPaused acts⟩ := by
  induction acts using List.reverseRecOn with
  | nil => rfl
  | append_singleton acts a ih =>
      rw [asked_append, ih]
      unfold lastView lastLowest lastHighest lastPaused
      simp only [List.filterMap_append]
      cases a with
      | call c => cases c <;> simp [Act.grant, Call.message, Message.grant]
      | _ => simp [Act.grant]

/-- Once no message waits, the wanted view and the window of levels are those that were asked for
last, and the source is paused if that was asked for last. As long as it is not paused, its bounds
are those of the wanted view in the system of the layer, and on screen are the tiles of that view in
the window, each with the priority and the bounds of its last entry, and no others. A view that
cannot be converted has no bounds and no tiles. -/
theorem view_never_stale (hbuild : build layer config convert listening = .ok first)
    (loader : Loader κ P) (memory : κ) (acts : List (Act P)) {s : Source P}
    (hsource : (World.run loader (World.start first memory) acts).state.source = some s) :
    let w := World.run loader (World.start first memory) acts
    (w.state.mailbox.queue = [] → s.wanted = lastView acts ∧ s.lowest = lastLowest acts ∧
        s.highest = lastHighest acts ∧ s.paused = lastPaused acts) ∧
      (s.paused = false → ∀ view, s.wanted = some view →
        let converted := (Converter.rect convert layer.system view.bounds).toOption
        let tiles : List (GridTile Float) :=
          match converted with
          | none => []
          | some bounds => View.tiles {
              bounds := bounds
              zoom := view.zoom
              levels := Level.sort layer.levels
              rule := layer.rule
              buckets := config.buckets
              lowest := s.lowest
              highest := s.highest }
        s.viewBounds = converted ∧
          ∀ t, s.loading.visible[t]? =
            (tiles.reverse.find? fun entry => entry.request.tile == t).map
              fun entry => ⟨entry.request.priority, entry.bounds⟩) := by
  intro w
  have horderly := orderly_run hbuild loader memory acts hsource
  refine ⟨?_, ?_⟩
  · intro hempty
    have hnone : World.waiting w = [] := by
      unfold World.waiting
      rw [hempty]
      rfl
    have hgranted := horderly.granted
    rw [hnone, asked_eq] at hgranted
    exact Wishes.mk.inj hgranted
  · intro hactive view hwanted converted tiles
    obtain ⟨hvisible, hbounds⟩ := horderly.settled.shows hactive view hwanted
    have hsetup : s.setup = ⟨{ layer with levels := Level.sort layer.levels }, config.buckets,
        convert, listening⟩ := by
      rw [horderly.settled.setup_eq, (build_spec hbuild).2]
      rfl
    have hconverted : s.convertedBounds? view = converted := by
      unfold convertedBounds?
      rw [hsetup]
    have hgrid : s.viewTiles view =
        match s.convertedBounds? view with
        | none => []
        | some bounds => (s.gridView bounds view.zoom).tiles := rfl
    have htiles : s.viewTiles view = tiles := by
      simp only [hgrid, hconverted, gridView, hsetup, tiles]
    refine ⟨hbounds.trans hconverted, fun t => ?_⟩
    rw [hvisible, htiles, Loading.getElem?_placements]

/-- Of two views that were asked for during a pause the first one leaves no trace, and the second one
is taken as if there had been no pause. -/
theorem run_views_during_pause :
    World.run Loader.manual (World.start small ())
        [.call .pause, .call (.show farView), .call (.show smallView), .call .resume, .run 0, .run 0,
          .run 0] =
      World.run Loader.manual (World.start small ()) [.call (.show smallView), .run 0] := by
  rw [run_first_view]
  rfl

/-- Of two views that were asked for during a pause only the second is shown, with its tile. -/
theorem view_never_stale_after_pause :
    ∃ s, (World.run Loader.manual (World.start small ())
        [.call .pause, .call (.show farView), .call (.show smallView), .call .resume, .run 0, .run 0,
          .run 0]).state.source = some s ∧
      s.wanted = some smallView ∧ s.viewBounds.isSome = true ∧
      s.loading.visible[smallTile]?.map Placement.priority = some 0 := by
  obtain ⟨s, hsource, -, -⟩ := exists_first_view build_small Loader.manual () smallView
  have hempty : (World.run Loader.manual (World.start small ())
      [.call (.show smallView), .run 0]).state.mailbox.queue = [] := by
    rw [run_small]
    rfl
  rw [← run_views_during_pause] at hsource hempty
  obtain ⟨hlast, hshown⟩ := view_never_stale build_small Loader.manual () _ hsource
  obtain ⟨hwanted, hlowest, hhighest, hactive⟩ := hlast hempty
  obtain ⟨hbounds, hvisible⟩ := hshown hactive smallView hwanted
  refine ⟨s, hsource, hwanted, ?_, ?_⟩
  · rw [hbounds]
    decide +kernel
  · rw [hvisible, hlowest, hhighest]
    decide +kernel

end MapTiles.Source
