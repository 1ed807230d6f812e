import MapTiles.Proofs.Source.Absence
import MapTiles.Proofs.Source.Bursts
import MapTiles.Proofs.Source.Freshness

/-!
A drain comes to an end, and then every tile on screen has arrived or is known to be missing.
Whenever nothing is left but timers, the next one goes off. Either it starts a load, and the tiles
on screen need fewer loads, or no tile may be tried again yet. In that case it is set anew for the
time of the next attempt, and one timer less goes off before that.
-/

namespace MapTiles.Source

variable {κ P : Type}

section Quiet

variable {loader : Loader κ P} {setup : Setup} {limits : Nat × BackoffPolicy} {wanted : Wishes}
  {w : World κ P} {s : Source P}

theorem queue_of_quiet (h : World.Attended loader setup limits wanted w s)
    (hquiet : World.Quiet w) : w.state.mailbox.queue = [] := by
  apply Decidable.byContradiction
  intro hwaiting
  have hready := h.owed hwaiting
  rw [hquiet.1] at hready
  cases hready

theorem waiting_of_quiet (h : World.Attended loader setup limits wanted w s)
    (hquiet : World.Quiet w) : World.waiting w = [] := by
  rw [World.waiting, queue_of_quiet h hquiet, List.map_nil]

theorem wishes_of_quiet (h : World.Attended loader setup limits wanted w s)
    (hquiet : World.Quiet w) : s.wishes = wanted := by
  have hgranted := h.orderly.granted
  rwa [waiting_of_quiet h hquiet] at hgranted

theorem inFlight_of_quiet (h : World.Attended loader setup limits wanted w s)
    (hquiet : World.Quiet w) : s.loading.inFlight = ∅ := by
  have haccounted := h.orderly.accounted
  rw [World.flying, hquiet.2, World.landed, World.outcomes, waiting_of_quiet h hquiet] at haccounted
  rw [Std.ExtTreeMap.eq_empty_iff_forall_not_mem]
  intro t ht
  rw [← Std.ExtTreeMap.mem_keys, ← haccounted.mem_iff] at ht
  cases ht

/-- There is a free slot, so no tile waits for one. -/
theorem loading_of_quiet (h : World.Attended loader setup limits wanted w s)
    (hquiet : World.Quiet w) (hslots : 1 ≤ limits.1) (hactive : wanted.paused = false) :
    s.paused = false ∧ s.loading.inFlight.size < s.loading.maxLoads ∧ s.loading.queue = ∅ := by
  have hpaused : s.paused = false :=
    (congrArg Wishes.paused (wishes_of_quiet h hquiet)).trans hactive
  have hmax : s.loading.maxLoads = limits.1 := congrArg Prod.fst h.orderly.settled.limits_eq
  have hfree : s.loading.inFlight.size < s.loading.maxLoads := by
    rw [inFlight_of_quiet h hquiet, hmax]
    exact hslots
  refine ⟨hpaused, hfree, ?_⟩
  rcases h.orderly.settled.saturated hpaused with hempty | hfull
  · exact hempty
  · exact absurd hfull (Nat.ne_of_lt hfree)

end Quiet

section Retry

variable {s : Source P} {now : Instant}

/-- If a timer starts nothing although a slot is free, no tile may be tried again yet. -/
theorem enqueueDue_of_silent (hconsistent : s.loading.Consistent) (hactive : s.paused = false)
    (hqueue : s.loading.queue = ∅) (hfree : s.loading.inFlight.size < s.loading.maxLoads)
    (hnone : started (s.handle now .retry).effects = []) :
    (s.loading.enqueueDue now).1 = s.loading := by
  apply Loading.enqueueDue_of_empty hconsistent hqueue
  apply Decidable.byContradiction
  intro hwaits
  have hmax : (s.loading.enqueueDue now).1.maxLoads = s.loading.maxLoads :=
    congrArg Prod.fst (Loading.limits_enqueueDue s.loading now)
  have hslot : (s.loading.enqueueDue now).1.inFlight.size <
      (s.loading.enqueueDue now).1.maxLoads := by
    rw [Loading.inFlight_enqueueDue, hmax]
    exact hfree
  apply Loading.dispatchAll_ne_nil hwaits hslot
  rw [handle, retry_of_active hactive, settle_of_active (by exact hactive)] at hnone
  simp only [Turn.andThen, started_append, started_loads, List.append_eq_nil_iff,
    List.map_eq_nil_iff] at hnone
  exact hnone.1.2

/-- A timer that goes off and starts nothing is set anew for the time of the next attempt. -/
theorem retry_cases (hconsistent : s.loading.Consistent) (hactive : s.paused = false)
    (hqueue : s.loading.queue = ∅) (hfree : s.loading.inFlight.size < s.loading.maxLoads)
    (hnone : started (s.handle now .retry).effects = []) :
    s.handle now .retry = .idle { s with retryTimer := none } ∧ s.loading.nextRetry? = none ∨
      ∃ due, s.handle now .retry = ⟨{ s with retryTimer := some due }, [.wake (due - now)]⟩ ∧
        s.loading.nextRetry? = some due ∧ now < due := by
  have hsame := enqueueDue_of_silent hconsistent hactive hqueue hfree hnone
  have hturn : s.handle now .retry =
      ({ s with retryTimer := none } : Source P).scheduleRetry now := by
    rw [handle, retry_of_active hactive, settle_of_active (by exact hactive)]
    simp [hsame, noted, Turn.idle, Turn.andThen, Loading.Saturated.dispatchAll_eq (.inl hqueue)]
  have hahead : ∀ due, s.loading.nextRetry? = some due → now < due := by
    intro due hdue
    rw [← hsame] at hdue
    exact Loading.lt_nextRetry_enqueueDue hconsistent hdue
  rcases scheduleRetry_cases { s with retryTimer := none } now with
    ⟨hidle, harmed⟩ | ⟨due, -, hdue, -, hset⟩
  · left
    refine ⟨hturn.trans hidle, ?_⟩
    cases hnext : s.loading.nextRetry? with
    | none => rfl
    | some due =>
        obtain ⟨armed, htimer, -⟩ := harmed hactive due hnext
        cases htimer
  · exact .inr ⟨due, hturn.trans hset, hdue, hahead due hdue⟩

end Retry

/-- The world once a timer went off, when its message is about to be delivered. -/
def World.fired (w : World κ P) (due : Instant) (rest : List (Delayed Task)) : World κ P :=
  ⟨{ w.scheduler with delayed := rest, now := max w.scheduler.now due },
    { w.state with mailbox := ⟨[Message.retry.envelope]⟩ }⟩

/-- The number of timers that go off before any tile may be tried again. -/
def World.early (w : World κ P) (s : Source P) : Nat :=
  w.scheduler.delayed.countP fun d => s.loading.nextRetry?.all fun due => decide (d.due < due)

section Timer

variable {loader : Loader κ P} {left : κ → Tile → Nat} {setup : Setup}
  {limits : Nat × BackoffPolicy} {wanted : Wishes} {w : World κ P} {s next : Source P}
  {d : Delayed Task} {rest : List (Delayed Task)}

/-- The message of a timer goes into an empty mailbox. -/
theorem push_of_quiet (h : World.Attended loader setup limits wanted w s) (hquiet : World.Quiet w)
    (due : Instant) (rest : List (Delayed Task)) :
    World.push ⟨{ w.scheduler with delayed := rest, now := max w.scheduler.now due }, w.state⟩
      .retry = System.addTask (World.fired w due rest) 0 .deliver := by
  simp [World.push, Mailbox.push, queue_of_quiet h hquiet, Mailbox.place, System.modify,
    World.fired]

theorem act_fire (loader : Loader κ P) (h : World.Attended loader setup limits wanted w s)
    (hquiet : World.Quiet w) (hdelayed : w.scheduler.delayed = d :: rest) :
    World.act loader w (.fire 0) = System.addTask (World.fired w d.due rest) 0 .deliver := by
  have htask : d.task = .wake := h.prompt.timers d (by simp [hdelayed])
  rw [← push_of_quiet h hquiet d.due rest, ← send_eq_push (by exact h.source_eq)]
  simp [World.act, World.chosen?, Scheduler.delayedAt?, hdelayed, htask, World.work, behaviour,
    Scheduler.advanceTo]

theorem demand_fired (h : World.Attended loader setup limits wanted w s) (hquiet : World.Quiet w)
    (due : Instant) (rest : List (Delayed Task)) :
    World.demand left (World.fired w due rest) s = World.demand left w s := by
  have hposted := push_of_quiet h hquiet due rest
  have hsame : World.demand left (System.addTask (World.fired w due rest) 0 .deliver) s =
      World.demand left w s := by
    rw [← hposted]
    exact demand_post rfl rfl (.refl _)
  exact hsame

/-- A drain lets the next timer go off and delivers its message. -/
theorem reaches_fired (hsettles : loader.Settles left)
    (h : World.Attended loader setup limits wanted w s) (hquiet : World.Quiet w)
    (hdelayed : w.scheduler.delayed = d :: rest) :
    let after := World.deliver loader (World.fired w d.due rest)
    (behaviour loader).Reaches none w after ∧
      ∃ next, World.Attended loader setup limits wanted after next := by
  have hfire := act_fire loader h hquiet hdelayed
  have hready : (World.act loader w (.fire 0)).scheduler.ready = [.deliver] := by
    simp [hfire, System.addTask, Scheduler.addTask, World.fired, hquiet.1]
  have hrun : World.act loader (World.act loader w (.fire 0)) (.run 0) =
      World.deliver loader (World.fired w d.due rest) := by
    rw [hfire]
    simp [World.act, World.chosen?, Scheduler.readyAt?, System.addTask, Scheduler.addTask,
      World.fired, hquiet.1, World.work, behaviour]
  obtain ⟨mid, hmid⟩ := exists_attended_act hsettles h (.fire 0) rfl (by rintro ⟨⟩)
  have hlast := exists_attended_act hsettles hmid (.run 0) rfl (by rintro ⟨⟩)
  rw [hrun] at hlast
  refine ⟨?_, hlast⟩
  rw [← hrun]
  exact .trans (.of_round (round_delayed loader hquiet.1 hquiet.2 hdelayed))
    (.of_round (round_ready loader hready))

/-- A timer that starts nothing leaves fewer timers that go off too early. -/
theorem early_of_silent (loader : Loader κ P) (h : World.Attended loader setup limits wanted w s)
    (hquiet : World.Quiet w) (hslots : 1 ≤ limits.1) (hactive : wanted.paused = false)
    (hdelayed : w.scheduler.delayed = d :: rest)
    (hnone : started (s.handle (World.fired w d.due rest).scheduler.now .retry).effects = [])
    (hnext : World.Attended loader setup limits wanted
      (World.deliver loader (World.fired w d.due rest)) next) :
    World.Quiet (World.deliver loader (World.fired w d.due rest)) ∧
      World.early (World.deliver loader (World.fired w d.due rest)) next < World.early w s := by
  obtain ⟨hpaused, hfree, hqueue⟩ := loading_of_quiet h hquiet hslots hactive
  have hsource : (World.fired w d.due rest).state.source = some s := h.source_eq
  have hwaits : (World.fired w d.due rest).state.mailbox.queue = [Message.retry.envelope] := rfl
  have hdeliver := deliver_eq loader hsource hwaits
  rw [World.turned, content_envelope] at hdeliver
  have hbefore : World.early w s = rest.countP (fun d =>
      s.loading.nextRetry?.all fun due => decide (d.due < due)) +
        if s.loading.nextRetry?.all (fun due => decide (d.due < due)) then 1 else 0 := by
    rw [World.early, hdelayed, List.countP_cons]
  rcases retry_cases h.orderly.settled.consistent hpaused hqueue hfree hnone with
    ⟨hturn, hretry⟩ | ⟨due, hturn, hretry, hahead⟩
  · simp only [hturn, Turn.idle, List.foldl_nil, List.isEmpty_nil, if_true] at hdeliver
    rw [hdeliver] at hnext ⊢
    obtain rfl := Option.some.inj hnext.source_eq
    refine ⟨hquiet, ?_⟩
    rw [hbefore, hretry]
    exact Nat.lt_succ_of_le (Nat.le_of_eq (by simp [World.early, World.fired, hretry]))
  · have hlater : due - (World.fired w d.due rest).scheduler.now ≠ 0 :=
      Nat.sub_ne_zero_of_lt hahead
    simp only [hturn, List.foldl_cons, List.foldl_nil, List.isEmpty_nil, if_true, World.perform,
      System.addTask, Scheduler.addTask, if_neg hlater, Scheduler.now_reckon,
      Scheduler.delayed_reckon] at hdeliver
    rw [hdeliver] at hnext ⊢
    obtain rfl := Option.some.inj hnext.source_eq
    refine ⟨hquiet, ?_⟩
    have hfires : (World.fired w d.due rest).scheduler.now +
        (due - (World.fired w d.due rest).scheduler.now) = due :=
      Nat.add_sub_cancel' (Nat.le_of_lt hahead)
    have hearly : d.due < due := Nat.lt_of_le_of_lt (Nat.le_max_right _ _) hahead
    rw [hbefore, World.early, (Scheduler.insertDelayed_perm _ _).countP_eq, List.countP_cons,
      hfires]
    simp [hretry, hearly, World.fired]

/-- After the next timer the tiles on screen need fewer loads, or else fewer timers go off too
early. -/
theorem exists_after_timer (hsettles : loader.Settles left)
    (h : World.Attended loader setup limits wanted w s) (hquiet : World.Quiet w)
    (hslots : 1 ≤ limits.1)
    (hactive : wanted.paused = false) (hdelayed : w.scheduler.delayed = d :: rest) :
    ∃ after next, (behaviour loader).Reaches none w after ∧
      World.Attended loader setup limits wanted after next ∧ World.Quiet after ∧
      (World.demand left after next < World.demand left w s ∨
        World.demand left after next = World.demand left w s ∧
          World.early after next < World.early w s) := by
  obtain ⟨hreaches, next, hnext⟩ := reaches_fired hsettles h hquiet hdelayed
  have hsource : (World.fired w d.due rest).state.source = some s := h.source_eq
  have hqueue : (World.fired w d.due rest).state.mailbox.queue = [Message.retry.envelope] := rfl
  obtain ⟨rfl, ended, hhandled⟩ := handled_deliver hsettles hsource
    h.orderly.settled.consistent hnext hqueue rfl nofun
  have hpaid := hhandled.demand_le
  rw [demand_fired h hquiet] at hpaid
  cases hstarted : started (s.handle (World.fired w d.due rest).scheduler.now
      Message.retry.envelope.content).effects with
  | nil =>
      obtain ⟨hstill, hearly⟩ :=
        early_of_silent loader h hquiet hslots hactive hdelayed hstarted hnext
      rw [hstarted, List.length_nil, Nat.add_zero] at hpaid
      refine ⟨_, _, hreaches, hnext, hstill, ?_⟩
      exact (Nat.lt_or_eq_of_le hpaid).imp_right fun hsame => ⟨hsame, hearly⟩
  | cons first others =>
      have hnone : World.calls (World.deliver loader (World.fired w d.due rest)) = 0 := by
        rw [World.calls, waiting_deliver loader hsource hqueue]
        simp [Message.internal]
      obtain ⟨after, next, hrest, hafter, hdone, hless⟩ := exists_quiet hsettles hnext
      refine ⟨after, next, hreaches.trans hrest, hafter, hdone, .inl ?_⟩
      rw [hstarted, List.length_cons] at hpaid
      exact Nat.lt_of_le_of_lt (hless hnone) (Nat.lt_of_lt_of_le (Nat.lt_add_of_pos_right
        (Nat.succ_pos _)) hpaid)

/-- A drain uses up all timers. -/
theorem exists_drained (hsettles : loader.Settles left) (hslots : 1 ≤ limits.1)
    (hactive : wanted.paused = false) {w : World κ P} {s : Source P}
    (h : World.Attended loader setup limits wanted w s)
    (hquiet : World.Quiet w) : ∃ last final, (behaviour loader).Reaches none w last ∧
      World.Attended loader setup limits wanted last final ∧ World.Quiet last ∧
      last.scheduler.delayed = [] := by
  cases hdelayed : w.scheduler.delayed with
  | nil => exact ⟨w, s, .refl w, h, hquiet, hdelayed⟩
  | cons d rest =>
      obtain ⟨after, next, hreaches, hafter, hstill, hless⟩ :=
        exists_after_timer hsettles h hquiet hslots hactive hdelayed
      obtain ⟨last, final, hrest, hlast⟩ := exists_drained hsettles hslots hactive hafter hstill
      exact ⟨last, final, hreaches.trans hrest, hlast⟩
termination_by (World.demand left w s, World.early w s)
decreasing_by
  rcases hless with hfewer | ⟨hsame, hless⟩
  · exact Prod.Lex.left _ _ hfewer
  · rw [hsame]
    exact Prod.Lex.right _ hless

end Timer

/-- Without a timer no tile on screen waits for another attempt. -/
theorem nextRetry_of_drained {setup : Setup} {limits : Nat × BackoffPolicy} {wanted : Wishes}
    {w : World κ P} {s : Source P} (h : World.Attended loader setup limits wanted w s)
    (hquiet : World.Quiet w) (hdelayed : w.scheduler.delayed = []) (hactive : s.paused = false) :
    s.loading.nextRetry? = none := by
  cases hnext : s.loading.nextRetry? with
  | none => rfl
  | some due =>
      obtain ⟨armed, harmed, -⟩ := h.orderly.settled.armed hactive due hnext
      rcases h.orderly.timed armed harmed with hwaits | hready | ⟨d, hd, -⟩
      · rw [waiting_of_quiet h hquiet] at hwaits
        cases hwaits
      · rw [hquiet.1] at hready
        cases hready
      · rw [hdelayed] at hd
        cases hd

/-- Without a timer every tile on screen is done. -/
theorem done_of_drained {setup : Setup} {limits : Nat × BackoffPolicy} {wanted : Wishes}
    {w : World κ P} {s : Source P} (h : World.Attended loader setup limits wanted w s)
    (hquiet : World.Quiet w) (hdelayed : w.scheduler.delayed = []) (hslots : 1 ≤ limits.1)
    (hactive : wanted.paused = false) {t : Tile} (ht : t ∈ s.loading.visible) :
    s.loading.Done t ∧ ¬s.loading.Stands t .backingOff := by
  obtain ⟨hpaused, -, hqueue⟩ := loading_of_quiet h hquiet hslots hactive
  have hretry := nextRetry_of_drained h hquiet hdelayed hpaused
  exact (h.orderly.settled.covers hpaused).done h.orderly.settled.consistent hqueue
    (inFlight_of_quiet h hquiet) hretry ht

/-- If every tile on screen is done, those that are not missing are published. -/
theorem Faithful.mem_published_iff {s : Source P} (h : s.Faithful)
    (hconsistent : s.loading.Consistent) (hdone : ∀ t ∈ s.loading.visible, s.loading.Done t)
    (t : Tile) : t ∈ s.published.map Resident.tile ↔
      t ∈ s.loading.visible ∧ t ∉ s.loading.missing := by
  rw [h.published_tiles, Std.ExtTreeMap.mem_keys]
  constructor
  · intro hresident
    exact ⟨hconsistent.resident_visible t hresident,
      fun hmissing => hconsistent.missing_not_resident t hmissing hresident⟩
  · rintro ⟨hvisible, hfound⟩
    exact (hdone t hvisible).resolve_right hfound

variable {layer : Layer} {config : Config} {convert : Converter} {listening : Bool}
  {first : Source P}

/-- A source whose owner does not give it up is there after any acts. -/
theorem exists_source_run (loader : Loader κ P) (first : Source P) (memory : κ)
    (acts : List (Act P)) (hkept : Act.release ∉ acts) :
    ∃ s, (World.run loader (World.start first memory) acts).state.source = some s := by
  induction acts using List.reverseRecOn with
  | nil => exact ⟨first, rfl⟩
  | append_singleton acts a ih =>
      rw [List.mem_append, not_or, List.mem_singleton] at hkept
      obtain ⟨s, hsource⟩ := ih hkept.1
      rw [run_append]
      exact source_act_some loader a (Ne.symm hkept.2) hsource

/-- Driving a world is a run of acts. -/
theorem exists_acts_of_drive? (loader : Loader κ P) (first : Source P) (memory : κ)
    (acts : List (Act P)) {rounds : Nat} {way : Drive} {moved : Option Bool} {last : World κ P}
    (hdrive : World.drive? loader rounds (World.run loader (World.start first memory) acts) way =
      some (moved, last)) :
    ∃ all, World.run loader (World.start first memory) all = last := by
  obtain ⟨rest, hrun⟩ := leads_of_drive? loader rounds _ way hdrive
  exact ⟨acts ++ rest, List.foldl_append.trans hrun⟩

/-- What loads bring in a run are outcomes with which the loader lets loads of their tiles start. -/
theorem exists_start_of_brought {loader : Loader κ P} {left : κ → Tile → Nat}
    (hsettles : loader.Settles left) (s : Source P) (memory : κ) {acts : List (Act P)} {t : Tile}
    {outcome : Outcome P}
    (h : (t, outcome) ∈ World.brought loader (World.start s memory) acts) :
    ∃ key memory, (loader.start t key memory).1 = some outcome := by
  induction acts using List.reverseRecOn with
  | nil => cases h
  | append_singleton acts a ih =>
      rw [brought_append] at h
      rcases List.mem_append.mp h with hold | hnew
      · exact ih hold
      · exact exists_start_of_brought? (prompt_run hsettles s memory acts) (Option.mem_toList.mp hnew)

/-- When loads end as a script says, a tile is known to be missing only if the script says so. -/
theorem outcome_of_missing (hbuild : build layer config convert listening = .ok first)
    (script : Script P) (heeds : Bool) (memory : Tile → Nat) (acts : List (Act P)) {s : Source P}
    (hsource : (World.run (Loader.ofScript script heeds) (World.start first memory)
      acts).state.source = some s) {t : Tile} (h : t ∈ s.loading.missing) :
    ∃ n, script.outcome t n = .missing := by
  obtain ⟨_, loads, hstart⟩ := exists_start_of_brought (settles_ofScript script heeds) first memory
    (brought_of_missing hbuild _ memory acts hsource h)
  exact ⟨loads t, Option.some.inj hstart⟩

/-- Whatever was called, and whatever was done about it, a drain comes to an end if the loads of
every tile stop failing at some point, however many rounds it is allowed beyond those that it
needs. Unless a pause was called last, the tiles of the last view in the last window of levels are
on screen then, none of them waits, loads or is to be tried again, and those that are not missing
are published, each once, and no others. No message, task, timer or load is left. -/
theorem drain_completes (hbuild : build layer config convert listening = .ok first)
    (script : Script P) (heeds : Bool) (memory : Tile → Nat) (acts : List (Act P))
    (hkept : Act.release ∉ acts) (hactive : lastPaused acts = false) :
    let loader := Loader.ofScript script heeds
    let w := World.run loader (World.start first memory) acts
    let window := { first with lowest := lastLowest acts, highest := lastHighest acts }
    ∃ rounds last final,
      (∀ more, World.drive? loader (rounds + more) w .drain = some (none, last)) ∧
      last.state.source = some final ∧
      (∀ view, lastView acts = some view →
        final.loading.visible = Loading.placements (window.viewTiles view)) ∧
      final.loading.queue = ∅ ∧ final.loading.inFlight = ∅ ∧
      (∀ t ∈ final.loading.visible, ¬final.loading.Stands t .backingOff) ∧
      (final.published.map Resident.tile).Nodup ∧
      (∀ t, t ∈ final.published.map Resident.tile ↔
        t ∈ final.loading.visible ∧ t ∉ final.loading.missing) ∧
      last.state.mailbox.queue = [] ∧ last.scheduler.ready = [] ∧
      last.scheduler.delayed = [] ∧ last.scheduler.futures = [] := by
  intro loader w window
  have hsettles : loader.Settles _ := settles_ofScript script heeds
  have hslots : 1 ≤ config.maxLoads := maxLoads_pos (build_spec hbuild).1
  have hasked : (asked acts).paused = false := by
    rw [asked_eq]
    exact hactive
  obtain ⟨s, hsource⟩ := exists_source_run loader first memory acts hkept
  have hstart : World.Attended loader first.setup (config.maxLoads, BackoffPolicy.ofConfig config)
      (asked acts) w s :=
    ⟨hsource, orderly_run hbuild loader memory acts hsource,
      prompt_run hsettles first memory acts, owed_run loader first memory acts⟩
  obtain ⟨mid, between, hreaches, hmid, hquiet, -⟩ := exists_quiet hsettles hstart
  obtain ⟨last, final, hrest, hlast, hdone, hdelayed⟩ :=
    exists_drained hsettles hslots hasked hmid hquiet
  obtain ⟨rounds, hrounds⟩ :=
    (hreaches.trans hrest).drain? (round_nil loader hdone.1 hdone.2 hdelayed)
  have hdrive : ∀ more, World.drive? loader (rounds + more) w .drain = some (none, last) := by
    intro more
    simp only [World.drive?, Behaviour.drive?, hrounds more, Option.map_some]
  have hfaithful : final.Faithful := by
    obtain ⟨all, hall⟩ := exists_acts_of_drive? loader first memory acts (hdrive 0)
    exact (informed_run hbuild loader memory all (hall ▸ hlast.source_eq)).faithful
  have hsettled := hlast.orderly.settled
  obtain ⟨hpaused, -, hqueue⟩ := loading_of_quiet hlast hdone hslots hasked
  have hall : ∀ t ∈ final.loading.visible, _ :=
    fun t => done_of_drained hlast hdone hdelayed hslots hasked
  refine ⟨rounds, last, final, hdrive, hlast.source_eq, ?_, hqueue, inFlight_of_quiet hlast hdone,
    fun t ht => (hall t ht).2, ?_, ?_, queue_of_quiet hlast hdone, hdone.1, hdelayed, hdone.2⟩
  · intro view hview
    have hwishes := wishes_of_quiet hlast hdone
    rw [asked_eq, hview] at hwishes
    obtain ⟨hwanted, hlowest, hhighest, -⟩ := Wishes.mk.inj hwishes
    rw [(hsettled.shows hpaused view hwanted).1]
    simp only [viewTiles, gridView, convertedBounds?, hsettled.setup_eq, hlowest, hhighest, window]
  · rw [hfaithful.published_tiles]
    exact Std.ExtTreeMap.nodup_keys
  · exact hfaithful.mem_published_iff hsettled.consistent fun t ht => (hall t ht).1

/-- A script by which the first load of every tile fails and all others bring the tile. -/
def failsOnce : Script Unit where
  outcome _ n := if n = 0 then .failed .timeout else .loaded ()
  failures _ := 1
  settles t n hn := by
    have hlater : n ≠ 0 := Nat.ne_of_gt hn
    simp [hlater, Outcome.isFailed]

/-- A tile that fails once is published in the end, though its source was paused in between. -/
theorem drain_completes_after_failures :
    let w := World.run (Loader.ofScript failsOnce true) (World.start small fun _ => 0)
      [.call (.show smallView), .run 0, .call .pause, .poll 0, .call .resume]
    ∃ rounds last final, World.drive? (Loader.ofScript failsOnce true) rounds w .drain =
        some (none, last) ∧
      last.state.source = some final ∧ last.scheduler.delayed = [] ∧
      smallTile ∈ final.published.map Resident.tile := by
  intro w
  obtain ⟨rounds, last, final, hdrive, hsource, hvisible, -, -, -, -, hpublished, -, -, hdelayed,
      -⟩ := drain_completes build_small failsOnce true (fun _ => 0)
      [.call (.show smallView), .run 0, .call .pause, .poll 0, .call .resume] (by simp) rfl
  have hon : smallTile ∈ final.loading.visible := by
    rw [hvisible smallView rfl]
    decide +kernel
  have hfound : smallTile ∉ final.loading.missing := by
    intro hmissing
    obtain ⟨all, hall⟩ := exists_acts_of_drive? _ small (fun _ => 0) _ (hdrive 0)
    obtain ⟨n, hn⟩ := outcome_of_missing build_small failsOnce true (fun _ => 0) all
      (hall ▸ hsource) hmissing
    simp only [failsOnce] at hn
    split at hn <;> cases hn
  exact ⟨rounds, last, final, hdrive 0, hsource, hdelayed, (hpublished smallTile).mpr ⟨hon, hfound⟩⟩

end MapTiles.Source
