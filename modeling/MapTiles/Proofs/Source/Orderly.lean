import MapTiles.Proofs.Config
import MapTiles.Proofs.Source.Settled
import MapTiles.Proofs.Source.Step
import Mathlib.Data.List.Induction

/-!
What holds of a source and the world around it after any acts in any order. The source itself is
settled. Its running loads are the futures that are not complete and the outcomes that wait, each
tile once. A timer that it relies on is real. The view asked for last is the one that waits in the
mailbox, or is the wanted one.
-/

namespace MapTiles.Source

variable {κ P : Type}

/-- The outcomes that wait to be taken, oldest first. -/
def World.outcomes (w : World κ P) : List (Tile × Outcome P) :=
  (World.waiting w).filterMap Message.outcome?

/-- The tiles whose outcomes wait to be taken. -/
def World.landed (w : World κ P) : List Tile :=
  (World.outcomes w).map Prod.fst

/-- The views that wait to be shown. -/
def World.views (w : World κ P) : List WantedView :=
  (World.waiting w).filterMap Message.view?

/-- What is asked for after acts. -/
def asked (acts : List (Act P)) : Wishes :=
  acts.foldl (fun wishes a => a.grant wishes) ⟨none, none, none, false⟩

/-- What holds of a source and the world around it between two messages, if `wanted` is what was
asked for last. -/
structure World.Orderly (setup : Setup) (limits : Nat × BackoffPolicy) (wanted : Wishes)
    (w : World κ P) (s : Source P) : Prop where
  posted : World.Posted w
  settled : s.Settled setup limits
  accounted : (World.flying w ++ World.landed w).Perm s.loading.inFlight.keys
  timed : ∀ armed, s.retryTimer = some armed →
    World.RetriesBy w (max armed w.scheduler.now)
  views_le : (World.views w).length ≤ 1
  granted : grantAll (World.waiting w) s.wishes = wanted

theorem asked_append (acts : List (Act P)) (a : Act P) :
    asked (acts ++ [a]) = a.grant (asked acts) := by
  simp [asked]

theorem World.RetriesBy.mono {w : World κ P} {time later : Instant} (h : World.RetriesBy w time)
    (htime : time ≤ later) : World.RetriesBy w later :=
  h.imp_right fun hruns => hruns.mono htime

theorem World.RetriesBy.later {w : World κ P} {armed now due after : Instant}
    (h : World.RetriesBy w (max armed now)) (hdue : armed ≤ due) (hnow : now ≤ after) :
    World.RetriesBy w (max due after) :=
  h.mono (Nat.max_le.mpr ⟨Nat.le_trans hdue (Nat.le_max_left due after),
    Nat.le_trans hnow (Nat.le_max_right due after)⟩)

/-- A timer set for an instant that has passed goes off at once. -/
private theorem wake_le (armed now : Nat) : now + (armed - now) ≤ max armed now := by
  omega

theorem outcomes_cons {w : World κ P} {message : Message P} {rest : List (Message P)}
    (hwaiting : World.waiting w = message :: rest) :
    World.outcomes w = message.outcome?.toList ++ rest.filterMap Message.outcome? := by
  unfold World.outcomes
  rw [hwaiting]
  cases hmessage : message.outcome? <;> simp [hmessage]

/-- Flushes bring nothing. -/
private theorem filterMap_flushes {β : Type} (f : Message P → Option β) (hflush : f .flush = none)
    (rest : List (Message P)) (flushes : Nat) :
    (rest ++ List.replicate flushes Message.flush).filterMap f = rest.filterMap f := by
  rw [List.filterMap_append, List.filterMap_replicate_of_none hflush, List.append_nil]

private theorem grantAll_flushes (flushes : Nat) (wishes : Wishes) :
    grantAll (List.replicate flushes (Message.flush : Message P)) wishes = wishes := by
  induction flushes with
  | zero => rfl
  | succ flushes ih => exact ih

theorem outcomes_left {w : World κ P} {rest : List (Message P)} {flushes : Nat}
    (hleft : World.waiting w = rest ++ List.replicate flushes .flush) :
    World.outcomes w = rest.filterMap Message.outcome? := by
  unfold World.outcomes
  rw [hleft]
  exact filterMap_flushes Message.outcome? rfl rest flushes

namespace World.Orderly

variable {setup : Setup} {limits : Nat × BackoffPolicy} {wanted : Wishes}
  {w after : World κ P} {s : Source P}

/-- Every outcome that waits is that of a running load. -/
theorem running_of_waiting (h : World.Orderly setup limits wanted w s) {message : Message P}
    {rest : List (Message P)} (hwaiting : World.waiting w = message :: rest) (t : Tile)
    (ht : t ∈ message.finished) : t ∈ s.loading.inFlight := by
  rw [← Std.ExtTreeMap.mem_keys]
  apply h.accounted.mem_iff.mp
  apply List.mem_append_right
  unfold World.landed
  rw [outcomes_cons hwaiting, List.map_append]
  exact List.mem_append_left _ ht

/-- A posted message moves a load from the futures to the outcomes, or none. -/
theorem post (h : World.Orderly setup limits wanted w s) {message : Message P}
    (hposted : World.Posted after)
    (hjoins : Joins message (World.waiting w) (World.waiting after))
    (hflying : (message.finished ++ World.flying after).Perm (World.flying w))
    (hnow : w.scheduler.now ≤ after.scheduler.now)
    (hretries : ∀ time, World.RetriesBy w time → World.RetriesBy after time) :
    World.Orderly setup limits (message.grant wanted) after s where
  posted := hposted
  settled := h.settled
  accounted := by
    have hlanded : World.landed after = World.landed w ++ message.finished := by
      unfold World.landed World.outcomes
      rw [hjoins.outcomes_eq, List.map_append]
      rfl
    have hbefore := h.accounted
    rw [List.perm_iff_count] at hflying hbefore ⊢
    intro t
    have hmoved := hflying t
    have hkept := hbefore t
    simp only [hlanded, List.count_append] at hmoved hkept ⊢
    omega
  timed armed harmed := (hretries _ (h.timed armed harmed)).later (Nat.le_refl armed) hnow
  views_le := hjoins.views_length_le h.views_le
  granted := by
    rw [hjoins.grantAll_eq h.views_le, h.granted]

/-- A handled message ends the load whose outcome it brings and starts others. -/
theorem turn (h : World.Orderly setup limits wanted w s) {message : Message P}
    {rest : List (Message P)} {flushes : Nat} {t : Turn P} (hposted : World.Posted after)
    (hturn : s.handle after.scheduler.now message = t)
    (hwaiting : World.waiting w = message :: rest)
    (hleft : World.waiting after = rest ++ List.replicate flushes .flush)
    (hflying : World.flying after = World.flying w ++ started t.effects)
    (hnow : w.scheduler.now ≤ after.scheduler.now)
    (hretries : message ≠ .retry →
      ∀ time, World.RetriesBy w time → World.RetriesBy after time)
    (hwakes : ∀ delay, Effect.wake delay ∈ t.effects →
      World.RetriesBy after (after.scheduler.now + delay)) :
    World.Orderly setup limits wanted after t.source := by
  have hfollows : t.Follows after.scheduler.now s message :=
    hturn ▸ follows_handle s after.scheduler.now message h.settled.consistent
      (h.running_of_waiting hwaiting)
  refine ⟨hposted, hturn ▸ h.settled.handle _ message, ?_, ?_, ?_, ?_⟩
  -- what the message ends leaves the outcomes that wait, what it starts joins the futures
  · have hbefore := h.accounted
    have hloads := hfollows.loads
    unfold World.landed at hbefore ⊢
    unfold Message.finished at hloads
    rw [outcomes_cons hwaiting, List.map_append] at hbefore
    rw [hflying, outcomes_left hleft]
    rw [List.perm_iff_count] at hbefore hloads ⊢
    intro u
    have hkept := hbefore u
    have hchanged := hloads u
    simp only [List.count_append] at hkept hchanged ⊢
    omega
  · intro armed harmed
    rcases hfollows.timer armed harmed with hold | hset
    -- a timer that was relied on before is still there, since its message was not handled
    · have hother : message ≠ .retry := by
        rintro rfl
        cases hold
      have harmedBefore : s.retryTimer = some armed := by
        cases message <;> first | exact hold | exact absurd rfl hother
      exact (hretries hother _ (h.timed armed harmedBefore)).later (Nat.le_refl armed) hnow
    · exact (hwakes _ hset).mono (wake_le armed _)
  · have hviews : World.views after = rest.filterMap Message.view? := by
      unfold World.views
      rw [hleft]
      exact filterMap_flushes Message.view? rfl rest flushes
    have hbefore := h.views_le
    unfold World.views at hbefore
    rw [hwaiting] at hbefore
    rw [hviews]
    exact Nat.le_trans ((List.sublist_cons_self message rest).filterMap _).length_le hbefore
  · have hbefore := h.granted
    rw [hwaiting, grantAll_cons] at hbefore
    rw [hleft, grantAll_append, grantAll_flushes, hfollows.wishes_eq]
    exact hbefore

/-- Everything holds after an act that held before it. -/
theorem act {heeds : Bool} {a : Act P} (hstep : Step heeds w a after)
    (h : ∀ s, w.state.source = some s → World.Orderly setup limits wanted w s)
    (hafter : after.state.source = some s) :
    World.Orderly setup limits (a.grant wanted) after s := by
  cases hstep with
  | quiet before hbefore hsame hposted hgrant _ _ hwaiting hflying _ hnow hretries =>
      have hw := h before hbefore
      obtain rfl := Option.some.inj (hafter.symm.trans hsame)
      rw [hgrant]
      refine ⟨hposted, hw.settled, ?_, ?_, ?_, ?_⟩
      · unfold World.landed World.outcomes
        rw [hflying, hwaiting]
        exact hw.accounted
      · intro armed harmed
        exact (hretries _ (hw.timed armed harmed)).later (Nat.le_refl armed) hnow
      · unfold World.views
        rw [hwaiting]
        exact hw.views_le
      · rw [hwaiting]
        exact hw.granted
  | post before message hbefore hsame hposted hgrant _ _ hjoins hflying _ hnow hretries =>
      obtain rfl := Option.some.inj (hafter.symm.trans hsame)
      rw [hgrant]
      exact (h s hbefore).post hposted hjoins hflying hnow hretries
  | turn before message rest t hbefore hturn hsame hposted hgrant _ _ hwaiting hleft hflying
      _ hnow hretries hwakes =>
      obtain rfl := Option.some.inj (hafter.symm.trans hsame)
      rw [hgrant]
      exact (h before hbefore).turn hposted hturn hwaiting hleft hflying hnow hretries hwakes

/-- At first nothing waits and nothing is loaded. -/
theorem start (h : s.Settled setup limits) (hkeys : s.loading.inFlight.keys = [])
    (htimer : s.retryTimer = none) (memory : κ) :
    World.Orderly setup limits s.wishes (World.start s memory) s where
  posted _ he := nomatch he
  settled := h
  accounted := by
    rw [hkeys]
    exact .refl _
  timed armed harmed := by
    rw [htimer] at harmed
    cases harmed
  views_le := Nat.zero_le 1
  granted := rfl

end World.Orderly

/-- A source that is built has settings that keep the rules, and has not been told anything. -/
theorem build_spec {layer : Layer} {config : Config} {convert : Converter} {listening : Bool}
    {s : Source P} (h : build layer config convert listening = .ok s) :
    config.fault? = none ∧
      s = start ⟨{ layer with levels := Level.sort layer.levels }, config.buckets, convert,
        listening⟩ (Loading.ofConfig config) := by
  unfold build Config.validate at h
  cases hfault : config.fault? with
  | some fault =>
      rw [hfault] at h
      cases h
  | none =>
      rw [hfault] at h
      cases h
      exact ⟨rfl, rfl⟩

theorem maxLoads_pos {config : Config} (h : config.fault? = none) : 1 ≤ config.maxLoads :=
  (Config.fault?_eq_none_iff.mp h).maxLoads_pos

variable {layer : Layer} {config : Config} {convert : Converter} {listening : Bool}
  {first : Source P}

/-- Everything holds after any acts in any order, as long as the source is there. -/
theorem orderly_run (hbuild : build layer config convert listening = .ok first)
    (loader : Loader κ P) (memory : κ) (acts : List (Act P)) {s : Source P}
    (hsource : (World.run loader (World.start first memory) acts).state.source = some s) :
    World.Orderly first.setup (config.maxLoads, BackoffPolicy.ofConfig config) (asked acts)
      (World.run loader (World.start first memory) acts) s := by
  obtain ⟨hfault, rfl⟩ := build_spec hbuild
  induction acts using List.reverseRecOn generalizing s with
  | nil =>
      cases hsource
      have hsettled := settled_start (P := P) ⟨{ layer with levels := Level.sort layer.levels },
        config.buckets, convert, listening⟩ config.maxLoads (BackoffPolicy.ofConfig config)
      rw [Nat.max_eq_left (maxLoads_pos hfault)] at hsettled
      exact .start hsettled rfl rfl memory
  | append_singleton acts a ih =>
      rw [run_append] at hsource ⊢
      rw [asked_append]
      generalize World.run loader _ acts = w at hsource ih ⊢
      have hposted : World.Posted w := by
        cases hbefore : w.state.source with
        | none =>
            have hgone := source_act_none loader a hbefore
            cases hgone.symm.trans hsource
        | some before => exact (ih hbefore).posted
      exact .act (step_act loader hposted a hsource) (fun _ => ih) hsource

/-- What holds of a new source and is kept by every act holds after any acts. -/
theorem holds_run (hbuild : build layer config convert listening = .ok first)
    (loader : Loader κ P) (memory : κ) {motive : List (Act P) → World κ P → Source P → Prop}
    (hstart : motive [] (World.start first memory) first)
    (hact : ∀ acts a w before after, World.run loader (World.start first memory) acts = w →
      w.state.source = some before → (World.act loader w a).state.source = some after →
      World.Orderly first.setup (config.maxLoads, BackoffPolicy.ofConfig config) (asked acts) w
        before →
      Step loader.heeds w a (World.act loader w a) → motive acts w before →
      motive (acts ++ [a]) (World.act loader w a) after)
    (acts : List (Act P)) {s : Source P}
    (hsource : (World.run loader (World.start first memory) acts).state.source = some s) :
    motive acts (World.run loader (World.start first memory) acts) s := by
  induction acts using List.reverseRecOn generalizing s with
  | nil =>
      cases hsource
      exact hstart
  | append_singleton acts a ih =>
      rw [run_append] at hsource ⊢
      cases hbefore : (World.run loader (World.start first memory) acts).state.source with
      | none =>
          have hgone := source_act_none loader a hbefore
          cases hgone.symm.trans hsource
      | some before =>
          have horderly := orderly_run hbuild loader memory acts hbefore
          exact hact acts a _ before s rfl hbefore hsource horderly
            (step_act loader horderly.posted a hsource) (ih hbefore)

/-- The first view is shown by the delivery of its message. -/
theorem run_first_view (loader : Loader κ P) (s : Source P) (memory : κ) (view : WantedView)
    (acts : List (Act P)) :
    let turn := s.handle 0 (.show view)
    let handled := (World.start turn.source memory).reckon (s.told 0 (.show view) turn.source)
    World.run loader (World.start s memory) (.call (.show view) :: .run 0 :: acts) =
      World.run loader (turn.effects.foldl (World.perform loader) handled) acts := rfl

/-- The first view is shown once its message is delivered. -/
theorem exists_first_view (hbuild : build layer config convert listening = .ok first)
    (loader : Loader κ P) (memory : κ) (view : WantedView) :
    ∃ s, (World.run loader (World.start first memory)
        [.call (.show view), .run 0]).state.source = some s ∧
      s.paused = false ∧ s.loading.visible = Loading.placements (first.viewTiles view) := by
  have hfresh : first.wishes = ⟨none, none, none, false⟩ := by
    rw [(build_spec hbuild).2]
    rfl
  have hsource : (World.run loader (World.start first memory)
      [.call (.show view), .run 0]).state.source =
        some (first.handle 0 (.show view)).source := by
    rw [run_first_view]
    exact (Performed.foldl loader _ _).source_eq
  have horderly := orderly_run hbuild loader memory _ hsource
  have hwishes : (first.handle 0 (.show view)).source.wishes =
      ⟨some view, none, none, false⟩ := by
    have hfirst := orderly_run hbuild loader memory [] rfl
    rw [(follows_handle first 0 (.show view) hfirst.settled.consistent
      fun _ h => nomatch h).wishes_eq, hfresh]
    rfl
  obtain ⟨hwanted, hlowest, hhighest, hactive⟩ := Wishes.mk.inj hwishes
  obtain ⟨-, hnoLowest, hnoHighest, -⟩ := Wishes.mk.inj hfresh
  refine ⟨_, hsource, hactive, (horderly.settled.shows hactive view hwanted).1.trans ?_⟩
  simp only [viewTiles, gridView, convertedBounds?, horderly.settled.setup_eq, hlowest, hhighest,
    hnoLowest, hnoHighest]

/-- A layer of one level, which is a row of two tiles. -/
def smallLayer : Layer where
  name := "map"
  system := mercatorSystem
  levels := [⟨Binary64.ofFloat 1, 1, 2, 1, 0, Rect.ofCorners mercatorSystem 0 0 2 1⟩]
  rule := ZoomRule.standard
  key := Tile.path
  extent := none

/-- The source of that layer, with the settings that apply unless told otherwise. -/
def small : Source Unit :=
  start ⟨{ smallLayer with levels := Level.sort smallLayer.levels }, 20, Converter.standard, true⟩
    (Loading.ofConfig Config.standard)

theorem build_small : build smallLayer Config.standard Converter.standard true = .ok small := rfl

/-- The first tile of that row. -/
def smallTile : Tile :=
  ⟨0, 0, 0, Binary64.ofFloat 1⟩

/-- A view of that tile alone. -/
def smallView : WantedView :=
  ⟨Rect.ofCorners mercatorSystem 0 0 1 1, 2⟩

/-- A view beside the row, which has no tiles. -/
def farView : WantedView :=
  ⟨Rect.ofCorners mercatorSystem 5 5 6 6, 2⟩

/-- The bookkeeping while the tile waits. -/
def smallWaits : Loading Unit :=
  (small.loading.updateVisible (small.viewTiles smallView) 0).1

/-- The bookkeeping while the tile is loading. -/
def smallLoads : Loading Unit := { smallWaits.dequeue ⟨0, smallTile⟩ with
  inFlight := smallWaits.inFlight.insert smallTile false }

def smallShown : Source Unit := { small with
  wanted := some smallView
  viewBounds := small.convertedBounds? smallView
  loading := smallLoads }

/-- The view of the tile starts its load. -/
theorem handle_small : small.handle 0 (.show smallView) =
    ⟨smallShown, [.load smallTile smallTile.path]⟩ := by
  have hdispatch : smallWaits.dispatchAll = ([⟨0, smallTile⟩], smallLoads) :=
    Loading.dispatchAll_single (by decide +kernel) (by decide +kernel)
  have hretry : smallLoads.nextRetry? = none := by decide +kernel
  let wanting : Source Unit := { small with wanted := some smallView }
  have hupdate : wanting.loading.updateVisible (wanting.viewTiles smallView) 0 =
      (smallWaits, ⟨1, 0, 0, []⟩) := Prod.ext rfl (by decide +kernel)
  have hmoved : wanting.moved 0 smallView = .idle { wanting with
      viewBounds := small.convertedBounds? smallView, loading := smallWaits } := by
    simp only [moved, hupdate]
    rfl
  change wanting.showView 0 smallView = _
  rw [showView_eq, hmoved]
  simp [Turn.settle, Turn.andThen, Turn.idle, dispatch, scheduleRetry, notifyIfChanged, hdispatch,
    hretry, wanting, small, start, smallShown, smallLayer]

/-- No time but the present one comes up then. -/
theorem told_small : small.told 0 (.show smallView) smallShown = [0] := by
  have hnone : smallShown.loading.retryTimes = [] := by decide +kernel
  rw [told, hnone]
  rfl

/-- The world in which the load of the tile runs. -/
def smallFlying : World Unit Unit :=
  World.perform Loader.manual (World.start smallShown ()) (.load smallTile smallTile.path)

/-- A view of the tile, shown first, starts its load. -/
theorem run_small (acts : List (Act Unit)) :
    World.run Loader.manual (World.start small ()) (.call (.show smallView) :: .run 0 :: acts) =
      World.run Loader.manual smallFlying acts := by
  rw [run_first_view, handle_small]
  dsimp only
  rw [told_small]
  rfl

end MapTiles.Source
