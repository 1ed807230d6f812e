import MapTiles.Proofs.Loading.Refresh
import MapTiles.Proofs.Source.Orderly

/-!
Asking for the same view twice. The first time a source shows the view, starts the loads for which
there are slots, sets the timer for the next attempt and gives notice of what has changed. The
second time it finds every tile of the view accounted for, the slots taken, the timer set and the
notice given, and does nothing.
-/

namespace MapTiles.Source

variable {κ P : Type} {setup : Setup} {limits : Nat × BackoffPolicy} {s : Source P} {now : Instant}
  {view : WantedView}

/-- What a source has to do for the view that it shows: nothing. -/
structure UpToDate (now : Instant) (view : WantedView) (s : Source P) : Prop where
  active : s.paused = false
  wanted : s.wanted = some view
  told : s.changed = false
  /-- No tile that backs off may be tried again yet. -/
  waits : ∀ t record, s.loading.BacksOff t record → now < record.retryAt

/-- A source that has shown its wanted view does nothing when it is to show it again. -/
theorem Settled.showView_self (h : s.Settled setup limits) (hcurrent : s.UpToDate now view) :
    s.showView now view = .idle s := by
  obtain ⟨hvisible, hbounds⟩ := h.shows hcurrent.active view hcurrent.wanted
  have hupdate : s.loading.updateVisible (s.viewTiles view) now = (s.loading, ⟨0, 0, 0, []⟩) :=
    h.consistent.updateVisible_self (h.covers hcurrent.active) hcurrent.waits hvisible
  have hmoved : s.moved now view = .idle s := by
    simp [Source.moved, hupdate, ← hbounds, VisibleUpdate.residentChanged, Turn.idle]
  have hdispatch : s.dispatch = .idle s := by
    rw [dispatch_of_active hcurrent.active, (h.saturated hcurrent.active).dispatchAll_eq]
    rfl
  have hretry : s.scheduleRetry now = .idle s := by
    rcases scheduleRetry_cases s now with ⟨hidle, -⟩ | ⟨due, -, hdue, hearly, -⟩
    · exact hidle
    · obtain ⟨armed, harmed, hsoon⟩ := h.armed hcurrent.active due hdue
      exact absurd (hearly armed harmed) (Nat.not_lt.mpr hsoon)
  have hnotice : s.notifyIfChanged = .idle s := by
    simp [Source.notifyIfChanged, hcurrent.told]
  rw [showView_eq, hmoved]
  simp [Turn.settle, Turn.andThen, Turn.idle, hdispatch, hretry, hnotice]

/-- A view brings a source up to date. -/
theorem Settled.upToDate (h : s.Settled setup limits) (hactive : s.paused = false) (now : Instant)
    (view : WantedView) : (s.handle now (.show view)).source.UpToDate now view := by
  let next : Source P := { s with wanted := some view }
  have hconsistent : next.loading.Consistent := h.consistent
  have hshown : s.handle now (.show view) = next.showView now view := by
    simp [Source.handle, refresh, next, hactive]
  have hwishes := (follows_handle s now (.show view) h.consistent (List.forall_mem_nil _)).wishes_eq
  obtain ⟨hwanted, -, -, hpaused⟩ := Wishes.mk.inj hwishes
  rw [hshown] at hwanted hpaused ⊢
  refine ⟨hpaused.trans hactive, hwanted, ?_, ?_⟩
  · exact changed_notifyIfChanged _ (hpaused.trans hactive)
  · obtain ⟨published, changed, hmoved⟩ := next.moved_source now view
    have hrests : (next.moved now view).source.paused = false := by rw [hmoved, ← hactive]
    have hloading : (next.showView now view).source.loading =
        (next.loading.updateVisible (next.viewTiles view) now).1.dispatchAll.2 := by
      rw [showView_eq]
      change (Turn.settle now _).source.notifyIfChanged.source.loading = _
      rw [loading_notifyIfChanged, loading_settle_of_active hrests, hmoved]
    intro t record hbacks
    rw [hloading, Loading.dispatchAll,
      Loading.backsOff_dispatch_iff (hconsistent.updateVisible _ now)] at hbacks
    exact hbacks.lt_of_updateVisible hconsistent

/-- A view that was just handled changes nothing when it is handled again at the same time. -/
theorem Settled.handle_twice (h : s.Settled setup limits) (now : Instant) (view : WantedView) :
    let shown := (s.handle now (.show view)).source
    shown.handle now (.show view) = .idle shown := by
  intro shown
  cases hpaused : s.paused with
  | true =>
      have hnoted : shown = { s with wanted := some view } := by
        simp [shown, Source.handle, refresh, hpaused, Turn.idle]
      simp [hnoted, Source.handle, refresh, hpaused]
  | false =>
      have hcurrent : shown.UpToDate now view := h.upToDate hpaused now view
      have hsettled : shown.Settled setup limits := h.handle now (.show view)
      have hsame : { shown with wanted := some view } = shown := by rw [← hcurrent.wanted]
      calc shown.handle now (.show view)
          = { shown with wanted := some view }.refresh now := rfl
        _ = shown.refresh now := by rw [hsame]
        _ = shown.showView now view := by simp [refresh, hcurrent.active, hcurrent.wanted]
        _ = .idle shown := hsettled.showView_self hcurrent

variable {layer : Layer} {config : Config} {convert : Converter} {listening : Bool}
  {first : Source P}

/-- Whatever has happened to a source, paused or not, a view that it handles a second time directly
after the first, at the same time, changes nothing about it and has no effect at all. So nothing
around it changes either: no load starts or is cancelled, no timer is set, no message is posted and
nobody is notified. -/
theorem same_view_changes_nothing (hbuild : build layer config convert listening = .ok first)
    (loader : Loader κ P) (memory : κ) (acts : List (Act P)) {s : Source P}
    (hsource : (World.run loader (World.start first memory) acts).state.source = some s)
    (view : WantedView) :
    (∀ now, let shown := (s.handle now (.show view)).source
      shown.handle now (.show view) = .idle shown) ∧
    let w := World.run loader (World.start first memory) acts
    let after := World.apply loader w (.show view)
    World.apply loader after (.show view) = after := by
  have hsettled := (orderly_run hbuild loader memory acts hsource).settled
  refine ⟨fun now => hsettled.handle_twice now view, ?_⟩
  intro w after
  let now := w.scheduler.now
  let turn := s.handle now (.show view)
  let shown := turn.source
  let turned : World κ P := (w.modify fun x => { x with source := some shown }).reckon
    (s.told now (.show view) shown)
  have hafter : after = turn.effects.foldl (World.perform loader) turned := by
    simp only [after, World.apply, w, hsource]
    rfl
  have hdone : Performed loader.heeds turn.effects turned after := hafter ▸ .foldl loader _ _
  have hthere : after.state.source = some shown := hdone.source_eq
  have hclock : after.scheduler.now = now := hdone.now_eq
  have hpaused : shown.paused = s.paused := congrArg Wishes.paused
    (follows_handle s now (.show view) hsettled.consistent (List.forall_mem_nil _)).wishes_eq
  have htold : shown.told now (.show view) shown = s.told now (.show view) shown := by
    unfold told askedTime? asksTime
    rw [hpaused]
  have hknown : ∀ t ∈ shown.told now (.show view) shown, t ≤ after.scheduler.furthest := by
    rw [htold]
    exact ((w.scheduler.furthest_reckon_le_iff _ _).mp hdone.le_furthest).2
  have hagain : shown.handle now (.show view) = .idle shown := hsettled.handle_twice now view
  calc World.apply loader after (.show view)
      = (after.modify fun x => { x with source := some shown }).reckon
          (shown.told now (.show view) shown) := by
        simp only [World.apply, hthere, hclock, hagain, Turn.idle, List.foldl_nil]
    _ = after.reckon (shown.told now (.show view) shown) := by rw [← hthere]; rfl
    _ = after := by rw [System.reckon, Scheduler.reckon_eq_self hknown]

/-- The view of a single tile starts its load when it is handled first, and nothing after that. -/
theorem same_view_changes_nothing_while_loading :
    small.handle 0 (.show smallView) = ⟨smallShown, [.load smallTile smallTile.path]⟩ ∧
      smallShown.handle 0 (.show smallView) = .idle smallShown := by
  have hholds := (same_view_changes_nothing build_small Loader.manual () [] rfl smallView).1 0
  rw [handle_small] at hholds
  exact ⟨handle_small, hholds⟩

end MapTiles.Source
