import MapTiles.Proofs.Source.Reach

/-!
No visible tile is lost and no slot is left idle, whatever happens in whatever order, as long as the
clock can tell the times that come up.
-/

namespace MapTiles.Source

variable {κ P : Type} {layer : Layer} {config : Config} {convert : Converter} {listening : Bool}
  {first : Source P}

/-- As long as a source is not paused, every visible tile waits, loads, has arrived, is missing or
backs off, and does only one of it; no slot is free while a tile waits; and a tile that backs off
is tried again in time, by a timer or by the message of one that went off. This takes a clock that
can tell the times that come up. One that can tell the time after the longest wait does. -/
theorem nothing_lost_nor_idle (hbuild : build layer config convert listening = .ok first)
    (loader : Loader κ P) (memory : κ) (acts : List (Act P)) (latest : Instant) :
    (World.run? latest loader (World.start first memory) acts = none →
      latest < (World.run loader (World.start first memory) acts).scheduler.now +
        config.maxBackoff) ∧
    ∀ w s, World.run? latest loader (World.start first memory) acts = some w →
      w.state.source = some s → s.paused = false →
      (∀ t ∈ s.loading.visible, ∃! standing, s.loading.Stands t standing) ∧
        (s.loading.queue = ∅ ∨ s.loading.inFlight.size = config.maxLoads) ∧
        ∀ t ∈ s.loading.visible, s.loading.Stands t .backingOff →
          ∃ due, s.loading.nextRetry? = some due ∧
            World.RetriesBy w (max due w.scheduler.now) := by
  refine ⟨lt_of_run?_eq_none hbuild loader memory acts, fun w s hrun hsource hactive => ?_⟩
  obtain rfl := eq_run_of_run? hrun
  have horderly := orderly_run hbuild loader memory acts hsource
  have hsettled := horderly.settled
  refine ⟨?_, ?_, ?_⟩
  · exact (hsettled.covers hactive).existsUnique_standing hsettled.consistent
  · have hslots : s.loading.maxLoads = config.maxLoads := congrArg Prod.fst hsettled.limits_eq
    rw [← hslots]
    exact hsettled.saturated hactive
  · intro t hvisible hstands
    obtain ⟨due, hdue⟩ := Loading.exists_nextRetry hvisible hstands
    obtain ⟨armed, harmed, hearly⟩ := hsettled.armed hactive due hdue
    exact ⟨due, hdue, (horderly.timed armed harmed).later hearly (Nat.le_refl _)⟩

/-- A run in which the load of a tile fails. -/
def failedLoad : List (Act Unit) :=
  [.call (.show smallView), .run 0, .finish 0 (.failed .timeout), .poll 0, .run 0]

/-- A tile whose load failed backs off, and a timer is set for its next attempt. A clock that can tell
the longest wait is enough. -/
theorem nothing_lost_nor_idle_after_failure :
    ∃ w s, World.run? Config.standard.maxBackoff Loader.manual (World.start small ()) failedLoad =
        some w ∧
      w.state.source = some s ∧ s.paused = false ∧ smallTile ∈ s.loading.visible ∧
      s.loading.Stands smallTile .backingOff ∧
      ∃ due, s.loading.nextRetry? = some due ∧ World.RetriesBy w (max due w.scheduler.now) := by
  have hrun : World.run Loader.manual (World.start small ()) failedLoad = _ :=
    run_small [.finish 0 (.failed .timeout), .poll 0, .run 0]
  obtain ⟨hbreaks, hholds⟩ := nothing_lost_nor_idle build_small Loader.manual () failedLoad
    Config.standard.maxBackoff
  cases hresult : World.run? Config.standard.maxBackoff Loader.manual (World.start small ())
      failedLoad with
  | none =>
      have hnow : (World.run Loader.manual (World.start small ()) failedLoad).scheduler.now = 0 := by
        rw [hrun]
        decide +kernel
      have hlate := hbreaks hresult
      rw [hnow, Nat.zero_add] at hlate
      exact absurd hlate (Nat.lt_irrefl _)
  | some w =>
      have hfailed : w.state.source.any (fun s => !s.paused &&
          decide (smallTile ∈ s.loading.visible) && decide (smallTile ∈ s.loading.errors) &&
          decide (smallTile ∉ s.loading.queued) && decide (smallTile ∉ s.loading.inFlight)) =
            true := by
        rw [eq_run_of_run? hresult, hrun]
        decide +kernel
      obtain ⟨s, hsource, hs⟩ := (Option.any_eq_true _ _).mp hfailed
      simp only [Bool.and_eq_true, decide_eq_true_eq, Bool.not_eq_true'] at hs
      obtain ⟨⟨⟨⟨hactive, hvisible⟩, herror⟩, hqueued⟩, hflight⟩ := hs
      have hstands : s.loading.Stands smallTile .backingOff := ⟨herror, hqueued, hflight⟩
      obtain ⟨-, -, hretries⟩ := hholds w s hresult hsource hactive
      exact ⟨w, s, rfl, hsource, hactive, hvisible, hstands, hretries smallTile hvisible hstands⟩

/-- With a clock that cannot tell the time of the next attempt the failure breaks the run off. -/
example : World.run? (Config.standard.minBackoff - 1) Loader.manual (World.start small ())
    failedLoad = none := by
  cases hresult : World.run? (Config.standard.minBackoff - 1) Loader.manual (World.start small ())
      failedLoad with
  | none => rfl
  | some w =>
      have hlate : Config.standard.minBackoff - 1 < w.scheduler.furthest := by
        rw [eq_run_of_run? hresult, failedLoad, run_small]
        decide +kernel
      exact absurd (furthest_le_of_run? (Nat.zero_le _) hresult) (Nat.not_le.mpr hlate)

end MapTiles.Source
