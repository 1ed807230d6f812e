import MapTiles.Proofs.Loading.Waits
import MapTiles.Proofs.Source.Ledger

/-!
A source tries a failed tile again only when its wait is over, whatever happens in between. The
wait doubles with every failure that counts, from the minimum up to the maximum, and starts anew
once the tile has arrived, is known to be missing, or everything was forgotten.
-/

namespace MapTiles.Source

variable {κ P : Type}

/-- The records of failures after a message. Only a reload and the end of a load touch them. -/
def Message.records (now : Instant) (s : Loading P) : Message P → TileMap ErrorRecord
  | .reload => ∅
  | .loaded t outcome => (s.complete t outcome now).1.errors
  | _ => s.errors

/-- A turn that starts no tile before it may be tried again. -/
structure Turn.Patient (now : Instant) (records : TileMap ErrorRecord) (t : Turn P) : Prop where
  errors_eq : t.source.loading.errors = records
  ripe : t.source.loading.Ripe now
  due : ∀ u ∈ started t.effects, ∀ record, records[u]? = some record → record.retryAt ≤ now

namespace Turn.Patient

variable {now : Instant} {records : TileMap ErrorRecord} {t : Turn P} {s : Source P}

theorem idle (hripe : s.loading.Ripe now) : (Turn.idle s).Patient now s.loading.errors :=
  ⟨rfl, hripe, nofun⟩

theorem andThen_same (h : t.Patient now records) {next : Source P → Turn P}
    (hloading : (next t.source).source.loading = t.source.loading)
    (hstarted : started (next t.source).effects = []) : (t.andThen next).Patient now records where
  errors_eq := (congrArg Loading.errors hloading).trans h.errors_eq
  ripe := by
    change (next t.source).source.loading.Ripe now
    rw [hloading]
    exact h.ripe
  due := by
    change ∀ u ∈ started (t.effects ++ (next t.source).effects), _
    rw [started_append, hstarted, List.append_nil]
    exact h.due

theorem dispatch (h : t.Patient now records) (hconsistent : t.source.loading.Consistent) :
    (t.andThen Source.dispatch).Patient now records := by
  cases hpaused : t.source.paused with
  | true =>
      apply h.andThen_same
      all_goals rw [dispatch_of_paused hpaused, Turn.idle]
      rfl
  | false =>
      obtain ⟨hqueued, hleft⟩ := Loading.dispatch_queued hconsistent t.source.loading.queue.size
      simp only [Turn.andThen, dispatch_of_active hpaused]
      refine ⟨(Loading.errors_dispatchAll _).trans h.errors_eq,
        h.ripe.of_subset hleft (Loading.errors_dispatchAll _), ?_⟩
      intro u hu record hrecord
      rw [started_append, started_loads] at hu
      rcases List.mem_append.mp hu with hearlier | hstarted
      · exact h.due u hearlier record hrecord
      · obtain ⟨r, hr, rfl⟩ := List.mem_map.mp hstarted
        exact h.ripe r.tile (hqueued r hr) record (h.errors_eq ▸ hrecord)

theorem settle (h : t.Patient now records) (hconsistent : t.source.loading.Consistent) :
    (t.settle now).Patient now records := by
  refine (h.dispatch hconsistent).andThen_same (loading_scheduleRetry _ now) ?_
  rcases scheduleRetry_cases (t.andThen Source.dispatch).source now with
    ⟨hidle, -⟩ | ⟨due, -, -, -, hset⟩
  · rw [hidle]
    rfl
  · rw [hset]
    rfl

theorem notifyIfChanged (h : t.Patient now records) :
    (t.andThen Source.notifyIfChanged).Patient now records := by
  rcases notifyIfChanged_cases t.source with ⟨hidle, -⟩ | ⟨-, -, htold⟩
  · apply h.andThen_same
    all_goals rw [hidle, Turn.idle]
    rfl
  · apply h.andThen_same
    all_goals rw [htold]
    dsimp only
    split <;> rfl

theorem showView (h : (Turn.idle s).Patient now records) (hconsistent : s.loading.Consistent)
    (view : WantedView) : (s.showView now view).Patient now records := by
  obtain ⟨published, changed, hmoved⟩ := s.moved_source now view
  rw [showView_eq]
  refine notifyIfChanged (settle ⟨?_, ?_, ?_⟩ ?_)
  · rw [hmoved]
    exact (Loading.errors_updateVisible ..).trans h.errors_eq
  · rw [hmoved]
    exact h.ripe.updateVisible (Nat.le_refl now) _
  · rw [show started (s.moved now view).effects = [] from started_cancels ..]
    exact nofun
  · rw [hmoved]
    exact hconsistent.updateVisible _ now

theorem takeOutcome (hripe : s.loading.Ripe now) (hconsistent : s.loading.Consistent) (t : Tile)
    (outcome : Outcome P) :
    (s.takeOutcome now t outcome).Patient now (s.loading.complete t outcome now).1.errors := by
  obtain ⟨published, changed, flushQueued, htaken⟩ := s.taken_source now t outcome
  rw [takeOutcome_eq]
  refine settle ⟨?_, ?_, ?_⟩ ?_
  · rw [htaken]
  · rw [htaken]
    exact hripe.complete hconsistent t outcome now
  · rw [started_taken]
    exact nofun
  · rw [htaken]
    exact hconsistent.complete t outcome now

end Turn.Patient

/-- Taking note of a message queues nothing. -/
theorem patient_noted {s : Source P} {now : Instant} (hripe : s.loading.Ripe now)
    {message : Message P} (hnone : message.outcome? = none) :
    (Turn.idle (s.noted message)).Patient now (message.records now s.loading) := by
  cases message with
  | pause =>
      simp only [noted, pause]
      split
      · exact .idle hripe
      · exact ⟨rfl, .clearQueue s.loading now, List.forall_mem_nil _⟩
  | reload =>
      simp only [noted]
      split
      all_goals exact ⟨rfl, .reset s.loading now, List.forall_mem_nil _⟩
  | loaded t outcome => cases hnone
  | _ => exact ⟨rfl, hripe, List.forall_mem_nil _⟩

/-- No message makes a source start a tile before it may be tried again. -/
theorem patient_handle {s : Source P} {now : Instant} (hripe : s.loading.Ripe now)
    (hconsistent : s.loading.Consistent) (message : Message P) :
    (s.handle now message).Patient now (message.records now s.loading) := by
  have hnoted : message.outcome? = none →
      (Turn.idle (s.noted message)).Patient now (message.records now s.loading) :=
    patient_noted hripe
  have hhandled := handling now s message
  generalize s.handle now message = turn at hhandled ⊢
  cases hhandled with
  | rests _ hkind => exact hnoted (Message.outcome_of_rests hkind)
  | blank _ hkind => exact hnoted (Message.outcome_of_steers hkind)
  | goesOn => exact .idle hripe
  | answers slot question => exact ⟨rfl, hripe, nofun⟩
  | shows _ view hkind =>
      have hshows := hnoted (Message.outcome_of_shows hkind)
      exact hshows.showView (consistent_noted hconsistent message) view
  | notifies _ hkind =>
      apply Turn.Patient.notifyIfChanged (t := .idle _)
      rcases hkind with rfl | ⟨rfl, -⟩
      all_goals exact hnoted rfl
  | takes t outcome => exact .takeOutcome hripe hconsistent t outcome
  | retries =>
      refine Turn.Patient.settle (t := .idle _) ⟨?_, hripe.enqueueDue (Nat.le_refl now), nofun⟩ ?_
      · exact Loading.errors_enqueueDue s.loading now
      · exact hconsistent.enqueueDue now

/-- The failures of a tile that count for its next wait. -/
structure Streak where
  failures : Nat
  /-- When the last of them was taken. -/
  last : Instant

/-- What the end of a load makes of the failures that counted before. -/
def Streak.after (now : Instant) (previous : Option Streak) : Completion → Option Streak
  | .stored => none
  | .missing => none
  | .failed _ => some ⟨(previous.map Streak.failures).getD 0 + 1, now⟩
  | .discarded => previous
  | .unknown => previous

/-- The failures of a tile that count after an act, given those before it. -/
def World.counted (w : World κ P) (a : Act P) (t : Tile) (previous : Option Streak) :
    Option Streak :=
  match World.delivered? w a, World.taken? w a with
  | some (.reload, _), _ => none
  | some (_, now), some (u, _, completion) =>
    if u = t then Streak.after now previous completion else previous
  | _, _ => previous

/-- The failures of a tile in a run since it arrived, was known to be missing or everything was
forgotten. Outcomes that were thrown away do not count. -/
def World.streak (loader : Loader κ P) (w : World κ P) (acts : List (Act P)) (t : Tile) :
    Option Streak :=
  (World.trace loader w acts).foldl (fun streak (w, a) => World.counted w a t streak) none

/-- Whether a record says what the failures of its tile say. -/
def Streak.Explains (p : BackoffPolicy) : Option Streak → Option ErrorRecord → Prop
  | none, none => True
  | some streak, some record =>
    0 < streak.failures ∧ record.lastFailure = streak.last ∧ record.delay = p.wait streak.failures
  | _, _ => False

theorem streak_append (loader : Loader κ P) (w : World κ P) (acts : List (Act P)) (a : Act P)
    (t : Tile) :
    World.streak loader w (acts ++ [a]) t =
      World.counted (World.run loader w acts) a t (World.streak loader w acts t) := by
  simp [World.streak, trace_append]

/-- The record of the next failure follows the failures before it. -/
theorem Streak.Explains.failed {p : BackoffPolicy} (hlongest : p.max ≤ Duration.longest)
    {streak : Option Streak} {record : Option ErrorRecord} (h : Streak.Explains p streak record)
    (now : Instant) :
    Streak.Explains p (some ⟨(streak.map Streak.failures).getD 0 + 1, now⟩)
      (some (p.recordFailure record now)) := by
  cases streak with
  | none =>
      cases record with
      | none => exact ⟨Nat.one_pos, rfl, p.nextDelay_none⟩
      | some _ => exact h.elim
  | some streak =>
      cases record with
      | none => exact h.elim
      | some record =>
          obtain ⟨hsome, -, hdelay⟩ := h
          refine ⟨Nat.succ_pos _, rfl, ?_⟩
          change p.nextDelay (some record.delay) = p.wait (streak.failures + 1)
          rw [hdelay, p.nextDelay_wait hlongest hsome]

/-- The end of a load keeps record and failures together. -/
theorem Streak.Explains.complete {p : BackoffPolicy} (hlongest : p.max ≤ Duration.longest)
    {s : Loading P} (hpolicy : s.backoff = p) {streak : Option Streak} {t : Tile}
    (h : Streak.Explains p streak s.errors[t]?) (outcome : Outcome P) (now : Instant) :
    Streak.Explains p (Streak.after now streak (s.complete t outcome now).2)
      (s.complete t outcome now).1.errors[t]? := by
  rw [Loading.getElem?_errors_complete, if_pos rfl]
  cases hcompletion : (s.complete t outcome now).2 with
  | failed record =>
      obtain rfl := s.failed_eq t outcome now hcompletion
      rw [hpolicy]
      exact h.failed hlongest now
  | stored => trivial
  | missing => trivial
  | discarded => exact h
  | unknown => exact h

/-- What holds of the waits of a source, given the failures that count. -/
structure World.Patient (p : BackoffPolicy) (streak : Tile → Option Streak) (w : World κ P)
    (s : Source P) : Prop where
  explains : ∀ t, Streak.Explains p (streak t) s.loading.errors[t]?
  ripe : s.loading.Ripe w.scheduler.now

namespace World.Patient

variable {p : BackoffPolicy} {streak : Tile → Option Streak} {w after : World κ P} {s : Source P}

/-- Without a message that is handled nothing counts. -/
theorem waits (h : World.Patient p streak w s) {a : Act P}
    (hdelivered : World.delivered? w a = none)
    (hnow : w.scheduler.now ≤ after.scheduler.now) :
    World.Patient p (fun t => World.counted w a t (streak t)) after s where
  explains t := by
    simp only [World.counted, hdelivered]
    exact h.explains t
  ripe := h.ripe.mono hnow

/-- A message that is handled counts if it takes an outcome or forgets everything. -/
theorem turn (h : World.Patient p streak w s) (hlongest : p.max ≤ Duration.longest)
    (hpolicy : s.loading.backoff = p) {a : Act P} {message : Message P} {now : Instant}
    (hsource : w.state.source = some s)
    (hdelivered : World.delivered? w a = some (message, now)) (t : Tile) :
    Streak.Explains p (World.counted w a t (streak t)) (message.records now s.loading)[t]? := by
  have htaken := taken_of_delivered hsource hdelivered
  have hbefore := h.explains t
  cases message with
  | reload =>
      simp only [World.counted, hdelivered, Message.records]
      trivial
  | loaded u outcome =>
      simp only [World.counted, hdelivered, htaken, Message.outcome?, Option.map_some,
        Message.records]
      split
      case isTrue hsame =>
        subst hsame
        exact hbefore.complete hlongest hpolicy outcome now
      case isFalse hother =>
        rw [Loading.getElem?_errors_complete, if_neg hother]
        exact hbefore
  | _ =>
      simp only [World.counted, hdelivered, htaken, Message.outcome?, Option.map_none,
        Message.records]
      exact hbefore

/-- Every act keeps the waits, and starts only tiles that may be tried again. -/
theorem act (h : World.Patient p streak w s) (hlongest : p.max ≤ Duration.longest)
    (hpolicy : s.loading.backoff = p) (hconsistent : s.loading.Consistent) {heeds : Bool}
    {a : Act P} (hstep : Step heeds w a after) (hsource : w.state.source = some s)
    {next : Source P} (hafter : after.state.source = some next) :
    World.Patient p (fun t => World.counted w a t (streak t)) after next ∧
      ∀ t ∈ (World.requested after).drop (World.requested w).length,
        ∀ record, next.loading.errors[t]? = some record →
          record.retryAt ≤ after.scheduler.now := by
  have hquiet : after.state.events = w.state.events →
      (World.requested after).drop (World.requested w).length = [] := by
    intro hevents
    simp [World.requested, hevents]
  cases hstep with
  | quiet _ hbefore hsame _ _ _ hdelivered _ _ hevents hnow =>
      obtain rfl := Option.some.inj (hsource.symm.trans hbefore)
      obtain rfl := Option.some.inj (hafter.symm.trans hsame)
      rw [hquiet hevents]
      exact ⟨h.waits hdelivered hnow, nofun⟩
  | post _ _ hbefore hsame _ _ _ hdelivered _ _ hevents hnow =>
      obtain rfl := Option.some.inj (hsource.symm.trans hbefore)
      obtain rfl := Option.some.inj (hafter.symm.trans hsame)
      rw [hquiet hevents]
      exact ⟨h.waits hdelivered hnow, nofun⟩
  | turn _ message _ t hbefore hturn hsame _ _ _ hdelivered _ _ _ hevents hnow =>
      obtain rfl := Option.some.inj (hsource.symm.trans hbefore)
      obtain rfl := Option.some.inj (hafter.symm.trans hsame)
      have hturned : t.Patient after.scheduler.now
          (message.records after.scheduler.now s.loading) :=
        hturn ▸ patient_handle (h.ripe.mono hnow) hconsistent message
      rw [requested_started hevents, List.drop_left, hturned.errors_eq]
      refine ⟨⟨fun u => ?_, hturned.ripe⟩, hturned.due⟩
      rw [hturned.errors_eq]
      exact h.turn hlongest hpolicy hsource hdelivered u

end World.Patient

theorem minBackoff_le {config : Config} (h : config.fault? = none) :
    config.minBackoff ≤ config.maxBackoff :=
  (Config.fault?_eq_none_iff.mp h).minBackoff_le

/-- Settings that keep the rules give the waits their own bounds. -/
theorem max_ofConfig {config : Config} (h : config.fault? = none) :
    (BackoffPolicy.ofConfig config).max = config.maxBackoff :=
  Nat.max_eq_left (minBackoff_le h)

variable {layer : Layer} {config : Config} {convert : Converter} {listening : Bool}
  {first : Source P}

theorem patient_run (hbuild : build layer config convert listening = .ok first)
    (hlongest : config.maxBackoff ≤ Duration.longest) (loader : Loader κ P) (memory : κ)
    (acts : List (Act P)) {s : Source P}
    (hsource : (World.run loader (World.start first memory) acts).state.source = some s) :
    World.Patient (BackoffPolicy.ofConfig config)
      (World.streak loader (World.start first memory) acts)
      (World.run loader (World.start first memory) acts) s := by
  refine holds_run hbuild loader memory (motive := fun acts w s => World.Patient
    (BackoffPolicy.ofConfig config) (World.streak loader (World.start first memory) acts) w s)
    ?_ ?_ acts hsource
  · obtain ⟨-, rfl⟩ := build_spec hbuild
    exact ⟨fun t => trivial, nofun⟩
  · rintro acts a _ before after rfl hbefore hafter horderly hstep hpatient
    have hpolicy : before.loading.backoff = BackoffPolicy.ofConfig config :=
      congrArg Prod.snd horderly.settled.limits_eq
    rw [funext (streak_append loader (World.start first memory) acts a)]
    have hmax := max_ofConfig (build_spec hbuild).1
    exact (hpatient.act (hmax ▸ hlongest) hpolicy horderly.settled.consistent hstep hbefore
      hafter).1

/-- A tile is started no earlier than its failures allow. After so many in a row it waits the
minimum, doubled as often less one but up to the maximum, from the last of them on. -/
theorem backoff_respected (hbuild : build layer config convert listening = .ok first)
    (hlongest : config.maxBackoff ≤ Duration.longest) (loader : Loader κ P) (memory : κ)
    (acts : List (Act P)) (a : Act P) {s : Source P}
    (hsource : (World.run loader (World.start first memory) (acts ++ [a])).state.source = some s)
    {t : Tile}
    (hstarted : t ∈ (World.requested (World.run loader (World.start first memory) (acts ++ [a]))).drop
      (World.requested (World.run loader (World.start first memory) acts)).length)
    {streak : Streak}
    (hstreak : World.streak loader (World.start first memory) (acts ++ [a]) t = some streak) :
    streak.last + min config.maxBackoff (config.minBackoff * 2 ^ (streak.failures - 1)) ≤
      (World.run loader (World.start first memory) (acts ++ [a])).scheduler.now := by
  rw [run_append] at hsource hstarted ⊢
  cases hbefore : (World.run loader (World.start first memory) acts).state.source with
  | none => cases (source_act_none loader a hbefore).symm.trans hsource
  | some before =>
      have horderly := orderly_run hbuild loader memory acts hbefore
      have hpolicy : before.loading.backoff = BackoffPolicy.ofConfig config :=
        congrArg Prod.snd horderly.settled.limits_eq
      have hmax := max_ofConfig (build_spec hbuild).1
      obtain ⟨hpatient, hdue⟩ := (patient_run hbuild hlongest loader memory acts hbefore).act
        (hmax ▸ hlongest) hpolicy horderly.settled.consistent
        (step_act loader horderly.posted a hsource) hbefore hsource
      have hexplains := hpatient.explains t
      rw [← streak_append, hstreak] at hexplains
      cases hrecord : s.loading.errors[t]? with
      | none =>
          rw [hrecord] at hexplains
          exact hexplains.elim
      | some record =>
          rw [hrecord] at hexplains
          obtain ⟨-, hlast, hdelay⟩ := hexplains
          have hretry := hdue t hstarted record hrecord
          rw [ErrorRecord.retryAt, hlast, hdelay, BackoffPolicy.wait, hmax] at hretry
          exact hretry

/-- A message that says to try again starts a tile that waits alone. -/
theorem started_retry {s : Source P} {now : Instant} {r : Request} (hactive : s.paused = false)
    (hqueue : (s.loading.enqueueDue now).1.queue.toList = [r])
    (hfree : (s.loading.enqueueDue now).1.inFlight.size < (s.loading.enqueueDue now).1.maxLoads) :
    r.tile ∈ started (s.handle now .retry).effects := by
  let queued : Source P :=
    { s with retryTimer := none, loading := (s.loading.enqueueDue now).1 }
  have hhandled : s.handle now .retry = queued.dispatch.andThen (scheduleRetry now) := by
    simp [handle, retry, hactive, queued]
  have hactive : queued.paused = false := hactive
  have hdispatch : queued.loading.dispatchAll.1 = [r] := by
    rw [Loading.dispatchAll_single hqueue hfree]
  rw [hhandled, dispatch_of_active hactive, hdispatch]
  exact List.mem_cons_self

/-- A tile whose first load failed at once is started again when its wait is over. -/
theorem backoff_respected_after_failure :
    let acts : List (Act Unit) := [.call (.show smallView), .run 0, .finish 0 (.failed .timeout),
      .poll 0, .run 0, .fire 0]
    Config.standard.minBackoff ≤
      (World.run Loader.manual (World.start small ()) (acts ++ [.run 0])).scheduler.now := by
  intro acts
  have hrun := run_small [.finish 0 (.failed .timeout), .poll 0, .run 0, .fire 0]
  generalize hw : World.run Loader.manual (World.start small ()) acts = w at hrun
  have hfailed : w.state.source.any (fun s => !s.paused &&
      decide ((s.loading.enqueueDue w.scheduler.now).1.queue.toList = [⟨0, smallTile⟩]) &&
      decide ((s.loading.enqueueDue w.scheduler.now).1.inFlight.size <
        (s.loading.enqueueDue w.scheduler.now).1.maxLoads)) = true := by
    rw [hrun]
    decide +kernel
  have hready : w.scheduler.ready = [.deliver] := by
    rw [hrun]
    decide +kernel
  have hwaiting : w.state.mailbox.queue.map (fun e => e.content.timer (some 0)) = [none] := by
    rw [hrun]
    decide +kernel
  have hstreak : (World.streak Loader.manual (World.start small ()) (acts ++ [.run 0])
      smallTile).any (fun k => k.failures = 1 && k.last = 0) = true := by
    have htrace := trace_small [.finish 0 (.failed .timeout), .poll 0, .run 0, .fire 0, .run 0]
    unfold World.streak
    rw [show World.trace Loader.manual (World.start small ()) (acts ++ [.run 0]) = _ from htrace]
    decide +kernel
  obtain ⟨s, hsource, hs⟩ := (Option.any_eq_true _ _).mp hfailed
  simp only [Bool.and_eq_true, decide_eq_true_eq, Bool.not_eq_true'] at hs
  obtain ⟨⟨hactive, hqueue⟩, hfree⟩ := hs
  have hstarted := started_retry hactive hqueue hfree
  obtain ⟨streak, hcounted, hstreak⟩ := (Option.any_eq_true _ _).mp hstreak
  simp only [Bool.and_eq_true, decide_eq_true_eq] at hstreak
  obtain ⟨e, hmail, hcontent⟩ : ∃ e, w.state.mailbox.queue = [e] ∧ e.content = .retry := by
    obtain ⟨e, rest, hmail, htimer, hrest⟩ := List.map_eq_cons_iff.mp hwaiting
    rw [List.map_eq_nil_iff.mp hrest] at hmail
    refine ⟨e, hmail, ?_⟩
    -- no other message clears the timer
    generalize e.content = content at htimer ⊢
    cases content with
    | retry => rfl
    | _ => cases htimer
  let handled : World Unit Unit := { w with scheduler := { w.scheduler with ready := [] } }
  have hlast : World.run Loader.manual (World.start small ()) (acts ++ [.run 0]) =
      World.deliver Loader.manual handled := by
    rw [run_append, hw]
    simp [World.act, World.chosen?, Scheduler.readyAt?, hready, World.work, behaviour, handled]
  have hdone := performed_deliver (w := handled) Loader.manual hsource hmail
  have hrequested := requested_started hdone.events_eq
  rw [← hlast, hcontent] at hrequested
  have hnew : smallTile ∈ (World.requested (World.run Loader.manual (World.start small ())
      (acts ++ [.run 0]))).drop (World.requested (World.run Loader.manual (World.start small ())
        acts)).length := by
    rw [hrequested, hw]
    change smallTile ∈ (World.requested w ++ _).drop (World.requested w).length
    rw [List.drop_left]
    exact hstarted
  have hholds := backoff_respected build_small (by decide) Loader.manual () acts (.run 0)
    (hlast ▸ hdone.source_eq) hnew hcounted
  rw [hstreak.1, hstreak.2] at hholds
  exact Nat.le_trans (by decide) hholds

end MapTiles.Source
