import MapTiles.Proofs.Source.Patience
import MapTiles.Proofs.Source.Timers

/-!
How far a source looks ahead. No time comes up in a run that is later than the present one by more
than the longest wait. So a clock that can tell that time lets every act come to its end.
-/

namespace MapTiles.Loading

variable {P : Type} {s : Loading P}

theorem mem_retryTimes_iff (s : Loading P) (time : Instant) :
    time ∈ s.retryTimes ↔
      ∃ (t : Tile) (record : ErrorRecord), s.errors[t]? = some record ∧ record.retryAt = time := by
  simp [retryTimes, Std.ExtTreeMap.mem_toList_iff_getElem?_eq_some]

theorem retryTimes_congr {next : Loading P} (herrors : next.errors = s.errors) :
    next.retryTimes = s.retryTimes := by
  rw [retryTimes, retryTimes, herrors]

/-- A load that ends adds no attempt that is later than after the longest wait. -/
theorem retryTimes_complete_le {limit : Instant} (h : ∀ time ∈ s.retryTimes, time ≤ limit) (t : Tile)
    (outcome : Outcome P) {now : Instant} (hmax : now + s.backoff.max ≤ limit) :
    ∀ time ∈ (s.complete t outcome now).1.retryTimes, time ≤ limit := by
  intro time htime
  obtain ⟨u, record, hrecord, rfl⟩ := (mem_retryTimes_iff _ _).mp htime
  have hold (hold : s.errors[u]? = some record) : record.retryAt ≤ limit :=
    h _ ((mem_retryTimes_iff s _).mpr ⟨u, record, hold, rfl⟩)
  rw [getElem?_errors_complete] at hrecord
  split at hrecord
  case isFalse => exact hold hrecord
  case isTrue =>
    cases hcompletion : (s.complete t outcome now).2 with
    | stored => simp [hcompletion, Completion.record] at hrecord
    | missing => simp [hcompletion, Completion.record] at hrecord
    | discarded => exact hold (by simpa [hcompletion, Completion.record] using hrecord)
    | unknown => exact hold (by simpa [hcompletion, Completion.record] using hrecord)
    | failed failed =>
        simp only [hcompletion, Completion.record, Option.some.injEq] at hrecord
        rw [← hrecord, failed_eq s t outcome now hcompletion]
        exact Nat.le_trans (Nat.add_le_add_left (s.backoff.nextDelay_le_max _) now) hmax

end MapTiles.Loading

namespace MapTiles.Source

variable {κ P : Type} {w : World κ P} {s : Source P}

theorem retryTimes_noted_le {limit : Instant} (h : ∀ time ∈ s.loading.retryTimes, time ≤ limit)
    (message : Message P) : ∀ time ∈ (s.noted message).loading.retryTimes, time ≤ limit := by
  rcases loading_noted_cases s message with hsame | ⟨-, hcleared⟩ | ⟨-, hreset⟩
  · rwa [hsame]
  · rwa [hcleared]
  · intro time htime
    obtain ⟨t, record, hrecord, -⟩ := (Loading.mem_retryTimes_iff _ _).mp (hreset ▸ htime)
    simp [Loading.reset] at hrecord

/-- A message adds no attempt that is later than after the longest wait. -/
theorem retryTimes_handle_le {limit : Instant} (h : ∀ time ∈ s.loading.retryTimes, time ≤ limit)
    {now : Instant} (hmax : now + s.loading.backoff.max ≤ limit) (message : Message P) :
    ∀ time ∈ (s.handle now message).source.loading.retryTimes, time ≤ limit := by
  cases message with
  | loaded t outcome =>
      change ∀ time ∈ (s.takeOutcome now t outcome).source.loading.retryTimes, time ≤ limit
      rw [takeOutcome_keeps Loading.retryTimes fun _ =>
        Loading.retryTimes_congr (Loading.errors_dispatchAll _)]
      exact Loading.retryTimes_complete_le h t outcome hmax
  | _ =>
      rw [handle_keeps Loading.retryTimes
        (fun _ => Loading.retryTimes_congr (Loading.errors_dispatchAll _))
        (fun _ tiles now => Loading.retryTimes_congr (Loading.errors_updateVisible _ tiles now))
        (fun _ now => Loading.retryTimes_congr (Loading.errors_enqueueDue _ now)) s now rfl]
      exact retryTimes_noted_le h _

/-- Only the times that come up when a message is handled, and the timers that it sets, move the
furthest time on. -/
theorem furthest_deliver_le (loader : Loader κ P) {limit : Instant}
    (hbefore : w.scheduler.furthest ≤ limit)
    (hturn : ∀ s message, w.state.source = some s → (World.waiting w).head? = some message →
      (∀ time ∈ s.told w.scheduler.now message (s.handle w.scheduler.now message).source,
        time ≤ limit) ∧
      ∀ delay, Effect.wake delay ∈ (s.handle w.scheduler.now message).effects →
        w.scheduler.now + delay ≤ limit) :
    (World.deliver loader w).scheduler.furthest ≤ limit := by
  cases hqueue : w.state.mailbox.queue with
  | nil => simpa [World.deliver, Mailbox.pop?, hqueue] using hbefore
  | cons e back =>
      cases hsource : w.state.source with
      | none =>
          simp only [World.deliver, Mailbox.pop?, hqueue, World.apply, System.modify, hsource]
          cases e.content <;> split <;> exact hbefore
      | some s =>
          obtain ⟨htold, hwakes⟩ := hturn s e.content hsource (by simp [World.waiting, hqueue])
          have hturned : (World.turned w s e back).scheduler.furthest ≤ limit :=
            (w.scheduler.furthest_reckon_le_iff _ limit).mpr ⟨hbefore, htold⟩
          exact (performed_deliver loader hsource hqueue).furthest_le limit hturned hwakes

theorem furthest_chosen {a : Act P} {task : Task} {rest : Scheduler Task (Load P)}
    (h : World.chosen? w a = some (task, rest)) : rest.furthest = w.scheduler.furthest := by
  cases a with
  | run n =>
      obtain ⟨_, -, hrest⟩ := Option.map_eq_some_iff.mp h
      cases hrest
      rfl
  | fire n =>
      obtain ⟨_, -, hrest⟩ := Option.map_eq_some_iff.mp h
      cases hrest
      rfl
  | _ => cases h

/-- What holds of a delivery holds of an act that makes the source handle a message. No other act
moves the furthest time on. -/
theorem furthest_act_le (loader : Loader κ P) (a : Act P) {limit : Instant}
    (hbefore : w.scheduler.furthest ≤ limit)
    (hturn : ∀ s message now, w.state.source = some s →
      World.delivered? w a = some (message, now) →
      (∀ time ∈ s.told now message (s.handle now message).source, time ≤ limit) ∧
        ∀ delay, Effect.wake delay ∈ (s.handle now message).effects → now + delay ≤ limit) :
    (World.act loader w a).scheduler.furthest ≤ limit := by
  have hsend (left : World κ P) (message : Message P) (hleft : left.scheduler.furthest ≤ limit) :
      (World.send left message).scheduler.furthest ≤ limit := by
    unfold World.send
    split
    · rwa [furthest_push]
    · exact hleft
  have hwork : (World.work loader w (World.chosen? w a)).scheduler.furthest ≤ limit := by
    cases hchosen : World.chosen? w a with
    | none => exact hbefore
    | some chosen =>
        obtain ⟨task, rest⟩ := chosen
        have hrest : rest.furthest ≤ limit := furthest_chosen hchosen ▸ hbefore
        cases task with
        | wake => exact hsend { w with scheduler := rest } .retry hrest
        | deliver =>
            refine furthest_deliver_le loader hrest fun s message hsource hfirst => ?_
            refine hturn s message rest.now hsource ?_
            have hhead : (World.waiting w).head? = some message := hfirst
            simp [World.delivered?, hchosen, hhead]
  cases a with
  | call c => exact hsend w c.message hbefore
  | ask question =>
      rw [World.act, World.ask, furthest_push]
      exact hbefore
  | release => exact hbefore
  | wait time => exact hbefore
  | run n => exact hwork
  | fire n => exact hwork
  | finish number outcome => exact hbefore
  | poll n =>
      simp only [World.act]
      split
      · exact hbefore
      · exact hsend _ _ hbefore

/-- A source asks for no time but the present one. -/
theorem of_mem_askedTime {now time : Instant} {message : Message P}
    (h : time ∈ (s.askedTime? now message).toList) : time = now := by
  obtain ⟨-, hnow⟩ := Option.ite_none_right_eq_some.mp (Option.mem_toList.mp h)
  exact (Option.some.inj hnow).symm

/-- No time has come up that is later than the present one by more than a duration, and no attempt at
a failed tile is. -/
structure World.Reaches (longest : Duration) (w : World κ P) : Prop where
  furthest_le : w.scheduler.furthest ≤ w.scheduler.now + longest
  retries_le : ∀ s, w.state.source = some s → ∀ time ∈ s.loading.retryTimes,
    time ≤ w.scheduler.now + longest

variable {layer : Layer} {config : Config} {convert : Converter} {listening : Bool}
  {first : Source P}

theorem reaches_start (hbuild : build layer config convert listening = .ok first) (memory : κ) :
    World.Reaches config.maxBackoff (World.start first memory) := by
  refine ⟨Nat.zero_le _, ?_⟩
  rintro _ ⟨⟩ time htime
  obtain ⟨t, record, hrecord, -⟩ := (Loading.mem_retryTimes_iff _ _).mp htime
  rw [(build_spec hbuild).2] at hrecord
  simp [start, Loading.ofConfig, Loading.start] at hrecord

/-- The times that come up when a message is handled are the present one and the times of the next
attempts, for which the timers are set. -/
theorem World.Reaches.act (hconfig : config.fault? = none) {setup : Setup} {wishes : Wishes}
    (horderly : ∀ s, w.state.source = some s → World.Orderly setup
      (config.maxLoads, BackoffPolicy.ofConfig config) wishes w s)
    (h : World.Reaches config.maxBackoff w) (loader : Loader κ P) (a : Act P) :
    World.Reaches config.maxBackoff (World.act loader w a) := by
  let limit := (World.act loader w a).scheduler.now + config.maxBackoff
  have hlimit : w.scheduler.now + config.maxBackoff ≤ limit :=
    Nat.add_le_add_right (now_le_act loader w a) _
  have hfurthest := Nat.le_trans h.furthest_le hlimit
  have hretries : ∀ s, w.state.source = some s → ∀ time ∈ s.loading.retryTimes, time ≤ limit :=
    fun s hsource time htime => Nat.le_trans (h.retries_le s hsource time htime) hlimit
  cases move_act loader (fun s hsource => (horderly s hsource).posted) a with
  | gone hafter =>
      refine ⟨furthest_act_le loader a hfurthest fun s message now hsource hdelivered => ?_,
        fun s hsource => ?_⟩
      · obtain rfl := eq_release_of_gone hsource hafter
        cases hdelivered
      · rw [hafter] at hsource
        cases hsource
  | rests s hbefore hafter hdelivered =>
      refine ⟨furthest_act_le loader a hfurthest fun _ message now _ hsome => ?_,
        fun next hnext => ?_⟩
      · rw [hdelivered] at hsome
        cases hsome
      · obtain rfl := Option.some.inj (hafter.symm.trans hnext)
        exact hretries s hbefore
  | handles s message rest hbefore hwaiting hdelivered hafter =>
      have hsettled := (horderly s hbefore).settled
      have hmax : s.loading.backoff.max = config.maxBackoff :=
        (congrArg (fun limits => limits.2.max) hsettled.limits_eq).trans (max_ofConfig hconfig)
      let now := (World.act loader w a).scheduler.now
      have hlater : ∀ time ∈ (s.handle now message).source.loading.retryTimes, time ≤ limit :=
        retryTimes_handle_le (hretries s hbefore) (Nat.le_of_eq (by rw [hmax])) message
      refine ⟨furthest_act_le loader a hfurthest fun _ _ _ hsource hsome => ?_,
        fun next hnext => ?_⟩
      · obtain rfl := Option.some.inj (hbefore.symm.trans hsource)
        cases hdelivered.symm.trans hsome
        refine ⟨fun time htime => ?_, fun delay hdelay => ?_⟩
        · rcases List.mem_append.mp htime with hasked | hretry
          · rw [of_mem_askedTime hasked]
            exact Nat.le_add_right _ _
          · exact hlater time hretry
        · obtain ⟨t, record, hbacks, hdue⟩ :=
            (arms_handle hsettled (minBackoff_pos hconfig) _ message).exists_backsOff hdelay
          rw [hdue]
          exact hlater _ ((Loading.mem_retryTimes_iff _ _).mpr ⟨t, record, hbacks.1, rfl⟩)
      · obtain rfl := Option.some.inj (hafter.symm.trans hnext)
        exact hlater

theorem reaches_run (hbuild : build layer config convert listening = .ok first)
    (loader : Loader κ P) (memory : κ) (acts : List (Act P)) :
    World.Reaches config.maxBackoff (World.run loader (World.start first memory) acts) := by
  induction acts using List.reverseRecOn with
  | nil => exact reaches_start hbuild memory
  | append_singleton acts a ih =>
      rw [run_append]
      exact ih.act (build_spec hbuild).1
        (fun _ hsource => orderly_run hbuild loader memory acts hsource) loader a

/-- What acts do one after the other with a clock that can tell times up to `latest`. There is nothing
after an act that needs a later time. -/
def World.run? (latest : Instant) (loader : Loader κ P) (w : World κ P) (acts : List (Act P)) :
    Option (World κ P) :=
  acts.foldlM (fun w a => (World.act loader w a).within? latest) w

theorem run?_append (latest : Instant) (loader : Loader κ P) (w : World κ P) (acts : List (Act P))
    (a : Act P) :
    World.run? latest loader w (acts ++ [a]) =
      (World.run? latest loader w acts).bind fun w => (World.act loader w a).within? latest := by
  simp [World.run?]

theorem furthest_le_of_run? {latest : Instant} {loader : Loader κ P} {w last : World κ P}
    {acts : List (Act P)} (hbefore : w.scheduler.furthest ≤ latest)
    (h : World.run? latest loader w acts = some last) : last.scheduler.furthest ≤ latest := by
  cases acts using List.reverseRecOn with
  | nil => exact Option.some.inj h ▸ hbefore
  | append_singleton acts a =>
      rw [run?_append] at h
      obtain ⟨mid, -, hact⟩ := Option.bind_eq_some_iff.mp h
      obtain ⟨hle, hsame⟩ := Option.ite_none_right_eq_some.mp hact
      exact Option.some.inj hsame ▸ hle

/-- As long as the clock can tell the times that come up it has no part in what acts do. -/
theorem eq_run_of_run? {latest : Instant} {loader : Loader κ P} {w last : World κ P}
    {acts : List (Act P)} (h : World.run? latest loader w acts = some last) :
    last = World.run loader w acts := by
  induction acts using List.reverseRecOn generalizing last with
  | nil => exact (Option.some.inj h).symm
  | append_singleton acts a ih =>
      rw [run?_append] at h
      obtain ⟨mid, hmid, hact⟩ := Option.bind_eq_some_iff.mp h
      rw [run_append, ← ih hmid]
      exact (Option.some.inj (Option.ite_none_right_eq_some.mp hact).2).symm

/-- Acts break off only once the clock cannot tell the time after the longest wait from the present
one. -/
theorem lt_of_run?_eq_none (hbuild : build layer config convert listening = .ok first)
    (loader : Loader κ P) (memory : κ) (acts : List (Act P)) {latest : Instant}
    (h : World.run? latest loader (World.start first memory) acts = none) :
    latest < (World.run loader (World.start first memory) acts).scheduler.now +
      config.maxBackoff := by
  induction acts using List.reverseRecOn with
  | nil => cases h
  | append_singleton acts a ih =>
      have hreaches := reaches_run hbuild loader memory (acts ++ [a])
      rw [run_append] at hreaches ⊢
      rw [run?_append] at h
      cases hmid : World.run? latest loader (World.start first memory) acts with
      | none =>
          exact Nat.lt_of_lt_of_le (ih hmid) (Nat.add_le_add_right (now_le_act loader _ a) _)
      | some mid =>
          obtain rfl := eq_run_of_run? hmid
          rw [hmid, Option.bind_some, System.within?, ite_eq_right_iff] at h
          have hlate : latest < _ := Nat.lt_of_not_le fun hle => nomatch h hle
          exact Nat.lt_of_lt_of_le hlate hreaches.furthest_le

end MapTiles.Source
