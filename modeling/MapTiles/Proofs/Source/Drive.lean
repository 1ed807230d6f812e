import MapTiles.Proofs.Scheduler.Rounds
import MapTiles.Proofs.Source.Run

/-!
Driving a world is a run of acts. So whatever holds after any acts in any order holds after the
scheduler did the work in its own order.
-/

namespace MapTiles.Source

variable {κ P : Type}

/-- Whether acts lead from one world to another. -/
def World.Leads (loader : Loader κ P) (w last : World κ P) : Prop :=
  ∃ acts, World.run loader w acts = last

/-- The world with other futures. -/
def World.withFutures (w : World κ P) (futures : List (Load P)) : World κ P :=
  { w with scheduler := { w.scheduler with futures := futures } }

namespace World.Leads

variable {loader : Loader κ P} {w mid last : World κ P}

theorem refl (w : World κ P) : World.Leads loader w w :=
  ⟨[], rfl⟩

theorem trans (hfirst : World.Leads loader w mid) (hrest : World.Leads loader mid last) :
    World.Leads loader w last := by
  obtain ⟨first, rfl⟩ := hfirst
  obtain ⟨rest, rfl⟩ := hrest
  exact ⟨first ++ rest, List.foldl_append⟩

theorem act (loader : Loader κ P) (w : World κ P) (a : Act P) :
    World.Leads loader w (World.act loader w a) :=
  ⟨[a], rfl⟩

theorem advanceTo (time : Instant) :
    World.Leads loader w { w with scheduler := w.scheduler.advanceTo time } := by
  have hclock : ∀ now : Nat, max now (now + (time - now)) = max now time := by omega
  have hwait : World.act loader w (.wait (time - w.scheduler.now)) =
      { w with scheduler := w.scheduler.advanceTo time } := by
    simp only [World.act, Scheduler.advanceTo, hclock]
  rw [← hwait]
  exact act loader _ _

theorem runReady? (h : (behaviour loader).runReady? w = some last) :
    World.Leads loader w last := by
  obtain ⟨⟨task, rest⟩, htaken, rfl⟩ := Option.map_eq_some_iff.mp h
  rw [Scheduler.takeReady?_eq] at htaken
  have hrun : World.act loader w (.run 0) =
      (behaviour loader).run task { w with scheduler := rest } := by
    simp [World.act, World.chosen?, htaken, World.work]
  have hact := act loader w (.run 0)
  rwa [hrun] at hact

theorem runDelayed? {limit : Option Instant}
    (h : (behaviour loader).runDelayed? limit w = some last) : World.Leads loader w last := by
  obtain ⟨⟨task, rest⟩, htaken, rfl⟩ := Option.map_eq_some_iff.mp h
  have hfire : World.act loader w (.fire 0) =
      (behaviour loader).run task { w with scheduler := rest } := by
    simp [World.act, World.chosen?, Scheduler.takeDelayed?_eq_some htaken, World.work]
  have hact := act loader w (.fire 0)
  rwa [hfire] at hact

/-- Messages do not touch the futures. -/
private theorem send_withFutures (w : World κ P) (futures : List (Load P)) (message : Message P) :
    World.send (w.withFutures futures) message =
      World.withFutures (World.send w message) futures := by
  unfold World.send World.push
  split <;> rename_i hthere
  · rw [if_pos (by exact hthere)]
    dsimp only
    split <;> rename_i howed
    · rw [if_pos (by exact howed)]
      rfl
    · rw [if_neg (by exact howed)]
      rfl
  · rw [if_neg (by exact hthere)]

/-- Asking a load that has ended takes it from the futures and sends its outcome. -/
private theorem act_poll (loader : Loader κ P) (w : World κ P) (kept rest : List (Load P))
    {load : Load P} {outcome : Outcome P} (hknown : load.outcome = some outcome) :
    World.act loader (World.withFutures w (kept ++ load :: rest)) (.poll kept.length) =
      World.withFutures (World.send w (.loaded load.tile outcome)) (kept ++ rest) := by
  have herased : (kept ++ load :: rest).eraseIdx kept.length = kept ++ rest := by
    simp [List.eraseIdx_append_of_length_le]
  have hbrought : World.brought? (World.withFutures w (kept ++ load :: rest))
      (.poll kept.length) = some (load.tile, outcome) := by
    simp [World.brought?, World.withFutures, hknown]
  simp only [World.act, hbrought]
  rw [← send_withFutures]
  simp only [World.withFutures, herased]

/-- Asking each of the futures in turn is a run of polls. `kept` are those that were asked before
and stayed. -/
private theorem pollEach (loader : Loader κ P) (rest kept : List (Load P)) (w : World κ P) :
    ∃ pending completed after,
      (behaviour loader).pollEach rest (World.withFutures w []) =
        (pending, completed, World.withFutures after []) ∧
      World.Leads loader (World.withFutures w (kept ++ rest))
        (World.withFutures after (kept ++ pending)) := by
  induction rest generalizing kept w with
  | nil => exact ⟨[], false, w, rfl, refl _⟩
  | cons load rest ih =>
      cases hknown : load.outcome with
      | none =>
          obtain ⟨pending, completed, after, hpolled, hleads⟩ := ih (kept ++ [load]) w
          have hpoll : (behaviour loader).poll load (World.withFutures w []) =
              (some load, World.withFutures w []) := by
            simp [behaviour, hknown]
          refine ⟨load :: pending, completed, after, ?_, ?_⟩
          · simp only [Behaviour.pollEach, hpoll, hpolled]
          · simpa using hleads
      | some outcome =>
          let sent := World.send w (.loaded load.tile outcome)
          obtain ⟨pending, completed, after, hpolled, hleads⟩ := ih kept sent
          have hpoll : (behaviour loader).poll load (World.withFutures w []) =
              (none, World.withFutures sent []) := by
            simp [behaviour, hknown, sent, send_withFutures]
          refine ⟨pending, true, after, ?_, ?_⟩
          · simp only [Behaviour.pollEach, hpoll, hpolled]
          · refine trans ?_ hleads
            rw [← act_poll loader w kept rest hknown]
            exact act loader _ _

theorem pollFutures (loader : Loader κ P) (w : World κ P) :
    World.Leads loader w ((behaviour loader).pollFutures w).2 := by
  obtain ⟨pending, completed, after, hpolled, hleads⟩ :=
    pollEach loader w.scheduler.futures [] w
  have hasked : ((behaviour loader).pollFutures w).2 = World.withFutures after pending := by
    unfold Behaviour.pollFutures
    change (let (pending, completed, after) :=
      (behaviour loader).pollEach w.scheduler.futures (World.withFutures w [])
      (completed, World.withFutures after (pending ++ after.scheduler.futures))).2 = _
    rw [hpolled]
    simp [World.withFutures]
  rw [hasked]
  exact hleads

theorem round (loader : Loader κ P) (limit : Option Instant) (w : World κ P) :
    World.Leads loader w ((behaviour loader).round limit w).2 := by
  unfold Behaviour.round
  cases hready : (behaviour loader).runReady? w with
  | some next => exact runReady? hready
  | none =>
      have hpolled := pollFutures loader w
      dsimp only
      split
      · exact hpolled
      · split
        case h_1 next hdelayed => exact hpolled.trans (runDelayed? hdelayed)
        case h_2 => exact hpolled

theorem drain? {limit : Option Instant} {rounds : Nat}
    (h : (behaviour loader).drain? limit rounds w = some last) : World.Leads loader w last := by
  induction rounds generalizing w with
  | zero => cases h
  | succ rounds ih =>
      have hround := round loader limit w
      unfold Behaviour.drain? at h
      split at h
      case h_1 next hnext =>
        rw [hnext] at hround
        exact hround.trans (ih h)
      case h_2 next hnext =>
        rw [hnext] at hround
        exact Option.some.inj h ▸ hround

theorem drainUntil? {time : Instant} {rounds : Nat}
    (h : (behaviour loader).drainUntil? time rounds w = some last) : World.Leads loader w last :=
  (advanceTo time).trans (drain? h)

theorem step? {rounds : Nat} {moved : Bool}
    (h : (behaviour loader).step? rounds w = some (moved, last)) : World.Leads loader w last := by
  obtain ⟨settled, hsettled, hrest⟩ := Option.bind_eq_some_iff.mp h
  have hfirst := drain? hsettled
  cases hdue : settled.scheduler.nextDue? with
  | none =>
      rw [hdue] at hrest
      cases hrest
      exact hfirst
  | some due =>
      rw [hdue] at hrest
      obtain ⟨final, hfinal, hmoved⟩ := Option.map_eq_some_iff.mp hrest
      cases hmoved
      exact hfirst.trans (drainUntil? hfinal)

end World.Leads

private theorem pollEach_ended (loader : Loader κ P) (loads : List (Load P)) (w : World κ P)
    (hended : ∀ load ∈ loads, load.outcome.isSome = true) :
    ∃ after, (behaviour loader).pollEach loads (World.withFutures w []) =
        ([], !loads.isEmpty, World.withFutures after []) ∧
      World.run loader (World.withFutures w loads) (List.replicate loads.length (.poll 0)) =
        World.withFutures after [] := by
  induction loads generalizing w with
  | nil => exact ⟨w, rfl, rfl⟩
  | cons load rest ih =>
      obtain ⟨outcome, hknown⟩ := Option.isSome_iff_exists.mp (hended load List.mem_cons_self)
      obtain ⟨after, hpolled, hrun⟩ := ih (World.send w (.loaded load.tile outcome))
        fun other hother => hended other (List.mem_cons_of_mem load hother)
      have hpoll : (behaviour loader).poll load (World.withFutures w []) =
          (none, World.withFutures (World.send w (.loaded load.tile outcome)) []) := by
        simp [behaviour, hknown, World.Leads.send_withFutures]
      refine ⟨after, ?_, ?_⟩
      · simp only [Behaviour.pollEach, hpoll, hpolled]
        rfl
      · rw [← hrun]
        exact congrArg (fun next => World.run loader next (List.replicate rest.length (.poll 0)))
          (World.Leads.act_poll loader w [] rest hknown)

/-- If every load has ended, asking all of them is to ask the first one as often as there are
loads. -/
theorem pollFutures_ended (loader : Loader κ P) (w : World κ P)
    (hended : ∀ load ∈ w.scheduler.futures, load.outcome.isSome = true) :
    (behaviour loader).pollFutures w = (!w.scheduler.futures.isEmpty,
      World.run loader w (List.replicate w.scheduler.futures.length (.poll 0))) := by
  obtain ⟨after, hpolled, hrun⟩ := pollEach_ended loader w.scheduler.futures w hended
  have hsame : World.withFutures w w.scheduler.futures = w := rfl
  rw [hsame] at hrun
  rw [hrun]
  unfold Behaviour.pollFutures
  change (let (pending, completed, after) :=
    (behaviour loader).pollEach w.scheduler.futures (World.withFutures w [])
    (completed, World.withFutures after (pending ++ after.scheduler.futures))) = _
  rw [hpolled]
  rfl

/-- The next delayed task is run. -/
theorem runDelayed?_cons (loader : Loader κ P) {w : World κ P} {d : Delayed Task}
    {rest : List (Delayed Task)} (hdelayed : w.scheduler.delayed = d :: rest) :
    (behaviour loader).runDelayed? none w = some (World.act loader w (.fire 0)) := by
  simp [Behaviour.runDelayed?, Scheduler.takeDelayed?, World.act, World.chosen?,
    Scheduler.delayedAt?, hdelayed, World.work]

/-- A round runs the first ready task. -/
theorem round_ready (loader : Loader κ P) {w : World κ P} {task : Task} {rest : List Task}
    (hready : w.scheduler.ready = task :: rest) :
    (behaviour loader).round none w = (true, World.act loader w (.run 0)) := by
  simp [Behaviour.round, Behaviour.runReady?_cons hready, World.act, World.chosen?,
    Scheduler.readyAt?, hready, World.work]

/-- Without a ready task a round asks all loads. -/
theorem round_futures (loader : Loader κ P) {w : World κ P} (hready : w.scheduler.ready = [])
    (hended : ∀ load ∈ w.scheduler.futures, load.outcome.isSome = true)
    (hfutures : w.scheduler.futures ≠ []) :
    (behaviour loader).round none w =
      (true, World.run loader w (List.replicate w.scheduler.futures.length (.poll 0))) := by
  simp [Behaviour.round, Behaviour.runReady?_nil hready, pollFutures_ended loader w hended, hfutures]

private theorem pollFutures_nil (loader : Loader κ P) {w : World κ P}
    (hfutures : w.scheduler.futures = []) : (behaviour loader).pollFutures w = (false, w) := by
  rw [pollFutures_ended loader w (by simp [hfutures]), hfutures]
  rfl

/-- Without a load either, a round runs the next timer. -/
theorem round_delayed (loader : Loader κ P) {w : World κ P} {d : Delayed Task}
    {rest : List (Delayed Task)} (hready : w.scheduler.ready = [])
    (hfutures : w.scheduler.futures = []) (hdelayed : w.scheduler.delayed = d :: rest) :
    (behaviour loader).round none w = (true, World.act loader w (.fire 0)) := by
  simp [Behaviour.round, Behaviour.runReady?_nil hready, pollFutures_nil loader hfutures,
    runDelayed?_cons loader hdelayed]

/-- Without a timer either, there is no progress. -/
theorem round_nil (loader : Loader κ P) {w : World κ P} (hready : w.scheduler.ready = [])
    (hfutures : w.scheduler.futures = []) (hdelayed : w.scheduler.delayed = []) :
    (behaviour loader).round none w = (false, w) := by
  simp [Behaviour.round, Behaviour.runReady?_nil hready, pollFutures_nil loader hfutures,
    Behaviour.runDelayed?, Scheduler.takeDelayed?, hdelayed]

/-- Every way to drive a world is a run of acts. -/
theorem leads_of_drive? (loader : Loader κ P) (rounds : Nat) (w : World κ P) (way : Drive)
    {moved : Option Bool} {last : World κ P}
    (h : World.drive? loader rounds w way = some (moved, last)) : World.Leads loader w last := by
  unfold World.drive? Behaviour.drive? at h
  cases way with
  | step =>
      obtain ⟨⟨stepped, final⟩, hstep, hfinal⟩ := Option.map_eq_some_iff.mp h
      cases hfinal
      exact .step? hstep
  | drain =>
      obtain ⟨final, hdrain, hfinal⟩ := Option.map_eq_some_iff.mp h
      cases hfinal
      exact .drain? hdrain
  | _ =>
      obtain ⟨final, hdrain, hfinal⟩ := Option.map_eq_some_iff.mp h
      cases hfinal
      exact .drainUntil? hdrain

end MapTiles.Source
