import MapTiles.Proofs.Scheduler.Rounds
import MapTiles.Proofs.Source.Burden
import MapTiles.Proofs.Source.Drive

/-!
What a drain does between two timers. Every task that runs and every load that is asked takes away
a message from outside, or else some of the work that is left. So the tasks and loads are used up,
and then nothing is left but timers.
-/

namespace MapTiles.Source

variable {κ P : Type}

/-- What holds of a world whose source is there and whose loads end at once. -/
structure World.Attended (loader : Loader κ P) (setup : Setup) (limits : Nat × BackoffPolicy)
    (wanted : Wishes) (w : World κ P) (s : Source P) : Prop where
  source_eq : w.state.source = some s
  orderly : World.Orderly setup limits wanted w s
  prompt : World.Prompt loader w
  owed : World.Owed w

/-- Nothing is left but timers. -/
def World.Quiet (w : World κ P) : Prop :=
  w.scheduler.ready = [] ∧ w.scheduler.futures = []

/-- The world with other ready tasks. -/
def World.withReady (w : World κ P) (ready : List Task) : World κ P :=
  { w with scheduler := { w.scheduler with ready := ready } }

/-- Less is left than before, first of all of the messages from outside. -/
def World.Lighter (left : κ → Tile → Nat) (w : World κ P) (s : Source P) (after : World κ P)
    (next : Source P) : Prop :=
  World.calls after < World.calls w ∨
    World.calls after = World.calls w ∧
      World.demand left after next ≤ World.demand left w s ∧
      8 * World.demand left after next + World.effort after <
        8 * World.demand left w s + World.effort w

section Act

variable {loader : Loader κ P} {left : κ → Tile → Nat} {setup : Setup}
  {limits : Nat × BackoffPolicy} {wanted : Wishes} {w : World κ P} {s next : Source P}

theorem attended_act (hsettles : loader.Settles left)
    (h : World.Attended loader setup limits wanted w s) {a : Act P} (hgrant : a.grant = id)
    (hnext : (World.act loader w a).state.source = some next) :
    World.Attended loader setup limits wanted (World.act loader w a) next where
  source_eq := hnext
  orderly := by
    have hbefore : ∀ before, w.state.source = some before →
        World.Orderly setup limits wanted w before := by
      intro before hsource
      rw [← Option.some.inj (h.source_eq.symm.trans hsource)]
      exact h.orderly
    have horderly := World.Orderly.act (step_act loader h.orderly.posted a hnext) hbefore hnext
    rwa [hgrant] at horderly
  prompt := prompt_act hsettles h.prompt a
  owed := owed_act loader h.owed a

/-- The source is still there after a task or a load. -/
theorem exists_attended_act (hsettles : loader.Settles left)
    (h : World.Attended loader setup limits wanted w s) (a : Act P) (hgrant : a.grant = id)
    (hkept : a ≠ .release) :
    ∃ next, World.Attended loader setup limits wanted (World.act loader w a) next := by
  obtain ⟨next, hnext⟩ := source_act_some loader a hkept h.source_eq
  exact ⟨next, attended_act hsettles h hgrant hnext⟩

end Act

section Deliver

variable {loader : Loader κ P} {left : κ → Tile → Nat} {w : World κ P} {s : Source P}
  {e : Envelope (Message P)} {back : List (Envelope (Message P))}

theorem waiting_deliver (loader : Loader κ P) (hsource : w.state.source = some s)
    (hqueue : w.state.mailbox.queue = e :: back) :
    World.waiting (World.deliver loader w) = back.map Envelope.content ++
      List.replicate (flushes (s.handle w.scheduler.now e.content).effects) .flush := by
  rw [World.waiting, (performed_deliver loader hsource hqueue).queue_eq, List.map_append,
    List.map_replicate, content_envelope]
  rfl

theorem effort_deliver (loader : Loader κ P) (hsource : w.state.source = some s)
    (hqueue : w.state.mailbox.queue = e :: back) :
    World.effort (World.deliver loader w) + e.content.weight ≤
      World.effort w + cost (s.handle w.scheduler.now e.content).effects + 1 := by
  rw [deliver_eq loader hsource hqueue]
  have htaken : World.effort (World.turned w s e back) + e.content.weight = World.effort w := by
    have hwaiting : World.waiting w = e.content :: World.waiting (World.turned w s e back) := by
      simp [World.waiting, World.turned, hqueue]
    simp only [World.effort, hwaiting, List.map_cons, List.sum_cons]
    simp only [World.turned, Scheduler.reckon]
    omega
  have hdone := effort_foldl loader (World.turned w s e back)
    (s.handle w.scheduler.now e.content).effects
  generalize List.foldl (World.perform loader) (World.turned w s e back) _ = done at hdone ⊢
  split
  · omega
  · rw [effort_addTask, Task.weight]
    omega

theorem exists_launched_deliver (hsettles : loader.Settles left)
    (hsource : w.state.source = some s) (hqueue : w.state.mailbox.queue = e :: back) :
    ∃ ended, World.Launched left (s.handle w.scheduler.now e.content).effects w
      (World.deliver loader w) ended := by
  obtain ⟨ended, hlaunched⟩ := exists_launched_foldl hsettles
    (World.turned w s e back) (s.handle w.scheduler.now e.content).effects
  refine ⟨ended, ?_⟩
  rw [deliver_eq loader hsource hqueue]
  split
  all_goals exact ⟨hlaunched.flown_eq, hlaunched.tiles_eq, hlaunched.left_le, hlaunched.lowers⟩

/-- The delivery of a message from within. -/
theorem handled_deliver (hsettles : loader.Settles left) {setup : Setup}
    {limits : Nat × BackoffPolicy} {wanted : Wishes} {next : Source P}
    (hsource : w.state.source = some s) (hconsistent : s.loading.Consistent)
    (hafter : World.Attended loader setup limits wanted (World.deliver loader w) next)
    (hqueue : w.state.mailbox.queue = e :: back) (hinternal : e.content.internal = true)
    (hfinished : ∀ u ∈ e.content.finished, u ∈ s.loading.inFlight) :
    next = (s.handle w.scheduler.now e.content).source ∧
      ∃ ended, World.Handled left w s e.content (World.deliver loader w)
        (s.handle w.scheduler.now e.content) ended := by
  have hperformed := performed_deliver loader hsource hqueue
  have hwaiting : World.waiting w = e.content :: back.map Envelope.content := by
    simp [World.waiting, hqueue]
  obtain ⟨ended, hlaunched⟩ := exists_launched_deliver hsettles hsource hqueue
  obtain rfl := Option.some.inj (hafter.source_eq.symm.trans hperformed.source_eq)
  refine ⟨rfl, ended, ?_⟩
  exact {
    frugal := frugal_handle hconsistent _ hinternal
    launched := hlaunched
    flying_eq := hperformed.flying_eq
    outcomes_eq := by
      rw [outcomes_left (waiting_deliver loader hsource hqueue), ← outcomes_cons hwaiting]
    finished := hfinished
    consistent := hafter.orderly.settled.consistent
    accounted := hafter.orderly.accounted }

end Deliver

section Post

variable {left : κ → Tile → Nat} {w taken : World κ P} {s : Source P} {message : Message P}

/-- Posting an outcome that was taken from the loads changes nothing in what is needed. -/
theorem demand_post (hview : message.view? = none) (hstate : taken.state = w.state)
    (hflown : (message.outcome?.toList ++ World.flown taken).Perm (World.flown w)) :
    World.demand left (World.push taken message) s = World.demand left w s := by
  have hmemory : (World.push taken message).state.memory = w.state.memory := by
    rw [memory_push, hstate]
  have houtcomes : World.outcomes (World.push taken message) =
      World.outcomes w ++ message.outcome?.toList := by
    have hwaiting : World.waiting taken = World.waiting w := by rw [World.waiting, hstate]; rfl
    rw [World.outcomes, waiting_push hview, hwaiting, List.filterMap_append]
    cases hmessage : message.outcome? <;> simp [World.outcomes, hmessage]
  have hperm : (World.flown (World.push taken message) ++
      World.outcomes (World.push taken message)).Perm (World.flown w ++ World.outcomes w) := by
    rw [flown_push, houtcomes]
    refine List.Perm.trans ?_ (hflown.append_right (World.outcomes w))
    rw [List.append_assoc, ← List.append_assoc]
    exact List.perm_append_comm
  have hpromised : ∀ u, World.Promised (World.push taken message) u ↔ World.Promised w u :=
    fun u => exists_congr fun outcome => and_congr_left fun _ => hperm.mem_iff
  refine Finset.sum_congr rfl fun u _ => ?_
  have hsame : World.Promised (World.push taken message) u = World.Promised w u :=
    propext (hpromised u)
  unfold World.needs
  rw [hmemory]
  congr 1
  rw [hsame]

theorem calls_push (hinternal : message.internal = true) (hview : message.view? = none) :
    World.calls (World.push w message) = World.calls w := by
  simp [World.calls, waiting_push hview, hinternal]

/-- A message that is posted in place of more work leaves less to do. -/
theorem lighter_post (hinternal : message.internal = true) (hview : message.view? = none)
    (hstate : taken.state = w.state)
    (hflown : (message.outcome?.toList ++ World.flown taken).Perm (World.flown w))
    (heffort : World.effort taken + message.weight + 1 < World.effort w) :
    World.Lighter left w s (World.push taken message) s := by
  have hpushed := effort_push (w := taken) hview
  have hcalls : World.calls taken = World.calls w := by
    rw [World.calls, World.waiting, hstate]
    rfl
  refine .inr ⟨(calls_push hinternal hview).trans hcalls, ?_, ?_⟩
  · rw [demand_post hview hstate hflown]
  · rw [demand_post hview hstate hflown]
    omega

end Post

section Lighter

variable {loader : Loader κ P} {left : κ → Tile → Nat} {setup : Setup}
  {limits : Nat × BackoffPolicy} {wanted : Wishes} {w : World κ P} {s next : Source P}

theorem World.Lighter.trans {left : κ → Tile → Nat} {w mid after : World κ P} {s t u : Source P}
    (hfirst : World.Lighter left w s mid t) (hrest : World.Lighter left mid t after u) :
    World.Lighter left w s after u := by
  unfold World.Lighter at *
  omega

theorem effort_withReady {task : Task} {rest : List Task}
    (hready : w.scheduler.ready = task :: rest) :
    World.effort w = World.effort (World.withReady w rest) + task.weight := by
  have hwaiting : World.waiting (World.withReady w rest) = World.waiting w := rfl
  have hfutures : (World.withReady w rest).scheduler.futures = w.scheduler.futures := rfl
  have hleft : (World.withReady w rest).scheduler.ready = rest := rfl
  simp only [World.effort, hready, hwaiting, hfutures, hleft, List.map_cons, List.sum_cons]
  omega

/-- The delivery of a message leaves less to do. -/
theorem lighter_deliver (hsettles : loader.Settles left)
    (h : World.Attended loader setup limits wanted w s) {rest : List Task}
    (hready : w.scheduler.ready = .deliver :: rest)
    (hnext : World.Attended loader setup limits wanted
      (World.deliver loader (World.withReady w rest)) next) :
    World.Lighter left w s (World.deliver loader (World.withReady w rest)) next := by
  have heffort := effort_withReady hready
  have hsource : (World.withReady w rest).state.source = some s := h.source_eq
  cases hqueue : w.state.mailbox.queue with
  | nil =>
      have hidle : World.deliver loader (World.withReady w rest) = World.withReady w rest := by
        simp [World.deliver, Mailbox.pop?, World.withReady, hqueue]
      rw [hidle] at hnext ⊢
      obtain rfl := Option.some.inj (hsource.symm.trans hnext.source_eq)
      refine .inr ⟨rfl, Nat.le_refl _, ?_⟩
      rw [heffort]
      exact Nat.lt_succ_self _
  | cons e back =>
      have hwaiting : World.waiting w = e.content :: back.map Envelope.content := by
        simp [World.waiting, hqueue]
      have hcalls : World.calls w = World.calls (World.deliver loader (World.withReady w rest)) +
          if !e.content.internal then 1 else 0 := by
        rw [World.calls, World.calls, hwaiting, waiting_deliver loader hsource hqueue,
          List.countP_cons]
        simp [Message.internal]
      cases hinternal : e.content.internal with
      | false =>
          left
          rw [hcalls, hinternal]
          exact Nat.lt_succ_self _
      | true =>
          obtain ⟨rfl, ended, hhandled⟩ := handled_deliver hsettles hsource
            h.orderly.settled.consistent hnext hqueue hinternal
            (h.orderly.running_of_waiting hwaiting)
          have hspent := effort_deliver loader hsource hqueue
          have hcost := hhandled.frugal.cost_lt
          have hpaid : _ ≤ World.demand left w s := hhandled.demand_le
          refine .inr ⟨?_, ?_, ?_⟩
          · rw [hcalls, hinternal]
            rfl
          · omega
          · rw [heffort, Task.weight]
            omega

/-- A ready task leaves less to do. -/
theorem lighter_run (hsettles : loader.Settles left)
    (h : World.Attended loader setup limits wanted w s)
    {task : Task} {rest : List Task} (hready : w.scheduler.ready = task :: rest)
    (hnext : World.Attended loader setup limits wanted (World.act loader w (.run 0)) next) :
    World.Lighter left w s (World.act loader w (.run 0)) next := by
  have hact : World.act loader w (.run 0) =
      (behaviour loader).run task (World.withReady w rest) := by
    simp [World.act, World.chosen?, Scheduler.readyAt?, hready, World.work, World.withReady]
  have hsource : (World.withReady w rest).state.source = some s := h.source_eq
  cases task with
  | deliver =>
      rw [hact] at hnext ⊢
      exact lighter_deliver hsettles h hready hnext
  | wake =>
      have hsent : World.act loader w (.run 0) = World.push (World.withReady w rest) .retry :=
        hact.trans (send_eq_push hsource .retry)
      have hsame := hnext.source_eq
      rw [hsent, source_push, hsource] at hsame
      obtain rfl := Option.some.inj hsame
      rw [hsent]
      refine lighter_post rfl rfl rfl (.refl _) ?_
      rw [effort_withReady hready]
      exact Nat.lt_succ_self _

/-- A load that is asked leaves less to do, and the other loads stay. -/
theorem lighter_poll (hsettles : loader.Settles left)
    (h : World.Attended loader setup limits wanted w s)
    {load : Load P} {rest : List (Load P)} (hfutures : w.scheduler.futures = load :: rest) :
    let after := World.act loader w (.poll 0)
    World.Attended loader setup limits wanted after s ∧ World.Lighter left w s after s ∧
      after.scheduler.futures = rest := by
  obtain ⟨outcome, houtcome⟩ :=
    Option.isSome_iff_exists.mp (h.prompt.ended load (hfutures ▸ List.mem_cons_self))
  let taken : World κ P := { w with scheduler := { w.scheduler with futures := rest } }
  have hact : World.act loader w (.poll 0) =
      World.push taken (.loaded load.tile outcome) := by
    rw [← send_eq_push (w := taken) h.source_eq]
    simp [World.act, World.brought?, hfutures, houtcome, taken]
  have hsource : (World.act loader w (.poll 0)).state.source = some s := by
    rw [hact, source_push]
    exact h.source_eq
  refine ⟨attended_act hsettles h rfl hsource, ?_, ?_⟩
  · rw [hact]
    refine lighter_post rfl rfl rfl ?_ ?_
    · simp [World.flown, hfutures, houtcome, taken, Message.outcome?]
    · have hwaiting : World.waiting taken = World.waiting w := rfl
      have hready : taken.scheduler.ready = w.scheduler.ready := rfl
      have hlength : w.scheduler.futures.length = taken.scheduler.futures.length + 1 := by
        rw [hfutures, List.length_cons]
      simp only [World.effort, hwaiting, hready, hlength, Message.weight]
      omega
  · rw [hact]
    unfold World.push
    dsimp only
    split <;> rfl

/-- Loads that are asked one after the other leave less to do. -/
theorem lighter_polls (hsettles : loader.Settles left)
    (h : World.Attended loader setup limits wanted w s)
    {load : Load P} {rest : List (Load P)} (hfutures : w.scheduler.futures = load :: rest) :
    let after := World.run loader w (List.replicate (rest.length + 1) (.poll 0))
    World.Attended loader setup limits wanted after s ∧ World.Lighter left w s after s := by
  induction rest generalizing w load with
  | nil =>
      obtain ⟨hnext, hlighter, -⟩ := lighter_poll hsettles h hfutures
      exact ⟨hnext, hlighter⟩
  | cons second rest ih =>
      obtain ⟨hnext, hlighter, hleft⟩ := lighter_poll hsettles h hfutures
      obtain ⟨hlast, hrest⟩ := ih hnext hleft
      exact ⟨hlast, hlighter.trans hrest⟩

/-- As long as a task is ready or a load flies, a round leaves less to do. -/
theorem exists_lighter (hsettles : loader.Settles left)
    (h : World.Attended loader setup limits wanted w s) (hbusy : ¬World.Quiet w) :
    ∃ after next, (behaviour loader).Reaches none w after ∧
      World.Attended loader setup limits wanted after next ∧ World.Lighter left w s after next := by
  cases hready : w.scheduler.ready with
  | cons task rest =>
      obtain ⟨next, hnext⟩ := exists_attended_act hsettles h (.run 0) rfl nofun
      exact ⟨_, next, .of_round (round_ready loader hready), hnext,
        lighter_run hsettles h hready hnext⟩
  | nil =>
      cases hfutures : w.scheduler.futures with
      | nil => exact absurd ⟨hready, hfutures⟩ hbusy
      | cons load rest =>
          have hround := round_futures loader hready h.prompt.ended (by simp [hfutures])
          rw [hfutures, List.length_cons] at hround
          exact ⟨_, s, .of_round hround, lighter_polls hsettles h hfutures⟩

/-- A drain comes to a point at which nothing is left but timers. If no message from outside waits,
the tiles on screen then need no more loads than before. -/
theorem exists_quiet (hsettles : loader.Settles left) {w : World κ P} {s : Source P}
    (h : World.Attended loader setup limits wanted w s) :
    ∃ after next, (behaviour loader).Reaches none w after ∧
      World.Attended loader setup limits wanted after next ∧ World.Quiet after ∧
      (World.calls w = 0 → World.demand left after next ≤ World.demand left w s) := by
  by_cases hquiet : World.Quiet w
  · exact ⟨w, s, .refl w, h, hquiet, fun _ => Nat.le_refl _⟩
  · obtain ⟨mid, between, hreaches, hmid, hlighter⟩ := exists_lighter hsettles h hquiet
    obtain ⟨after, next, hrest, hafter, hdone, hdemand⟩ := exists_quiet hsettles hmid
    refine ⟨after, next, hreaches.trans hrest, hafter, hdone, fun hnone => ?_⟩
    rcases hlighter with hfewer | ⟨hsame, hless, -⟩
    · omega
    · exact Nat.le_trans (hdemand (hsame.trans hnone)) hless
termination_by (World.calls w, 8 * World.demand left w s + World.effort w)
decreasing_by
  rcases hlighter with hfewer | ⟨hsame, -, hless⟩
  · exact Prod.Lex.left _ _ hfewer
  · rw [hsame]
    exact Prod.Lex.right _ hless

end Lighter

end MapTiles.Source
