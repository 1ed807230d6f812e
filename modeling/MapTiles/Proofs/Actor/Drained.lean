import MapTiles.Proofs.Actor.Questions

/-!
An actor that is drained. As long as messages wait a delivery is owed, and each delivery leaves less
to do, so that a drain goes on until nothing waits. What it does is a run of deliveries.
-/

namespace MapTiles.Actor

variable {T R : Type} {w : World T R} {h : Held T R}

/-- Whether a delivery is owed if a message waits. No other task is ever added. -/
structure World.Served (w : World T R) : Prop where
  delayed_eq : w.scheduler.delayed = []
  owed : w.state.mailbox.queue ≠ [] → w.scheduler.ready ≠ []

/-- The number of rounds that are needed at most: one for each delivery, and as many again for those
that find nothing. -/
def World.burden (w : World T R) : Nat :=
  w.scheduler.ready.length + 2 * w.state.mailbox.queue.length

theorem served_start (object : T) : World.Served (World.start (R := R) object) :=
  ⟨rfl, fun h => absurd rfl h⟩

theorem served_push (hserved : World.Served w) (e : Envelope (Delivery T R)) :
    World.Served (World.push w e) := by
  unfold World.push
  dsimp only
  split
  case isTrue =>
    refine ⟨hserved.delayed_eq, fun _ => ?_⟩
    exact List.append_ne_nil_of_right_ne_nil _ (List.cons_ne_nil _ _)
  case isFalse howed =>
    refine ⟨hserved.delayed_eq, fun _ => hserved.owed fun hnil => howed ?_⟩
    exact List.isEmpty_iff.mpr hnil

@[simp] theorem scheduler_apply (w : World T R) (message : Delivery T R) :
    (World.apply w message).scheduler = w.scheduler := by
  cases message with
  | tell act => rfl
  | ask slot act =>
      simp only [World.apply]
      split <;> rfl

theorem scheduler_deliver {e : Envelope (Delivery T R)} {back : List (Envelope (Delivery T R))}
    (hqueue : w.state.mailbox.queue = e :: back) : (World.deliver w).scheduler =
      if back.isEmpty then w.scheduler else w.scheduler.addTask 0 () := by
  simp only [World.deliver, Mailbox.pop?, hqueue]
  split
  · rw [scheduler_apply]
    rfl
  · rw [System.addTask, scheduler_apply]
    rfl

theorem queue_deliver (w : World T R) :
    (World.deliver w).state.mailbox.queue = w.state.mailbox.queue.tail := by
  cases hqueue : w.state.mailbox.queue with
  | nil => rw [deliver_of_empty hqueue, hqueue, List.tail_nil]
  | cons e back =>
      cases hobject : w.state.object with
      | none => rw [state_deliver_gone hqueue hobject, List.tail_cons]
      | some found => rw [state_deliver_there hqueue hobject, List.tail_cons]

theorem served_deliver (hdelayed : w.scheduler.delayed = []) :
    World.Served (World.deliver w) := by
  cases hqueue : w.state.mailbox.queue with
  | nil =>
      rw [deliver_of_empty hqueue]
      exact ⟨hdelayed, fun h => absurd hqueue h⟩
  | cons e back =>
      have hscheduler := scheduler_deliver hqueue
      have hleft := queue_deliver w
      rw [hqueue, List.tail_cons] at hleft
      cases back with
      | nil => exact ⟨hscheduler ▸ hdelayed, fun h => absurd hleft h⟩
      | cons next rest =>
          refine ⟨hscheduler ▸ hdelayed, fun _ => ?_⟩
          rw [hscheduler]
          exact List.append_ne_nil_of_right_ne_nil _ (List.cons_ne_nil _ _)

theorem served_act (hserved : World.Served h.world) (a : Act T R) :
    World.Served (h.act a).world := by
  cases step_act h a with
  | rests hworld => rwa [hworld]
  | tells identifier duplication act hworld =>
      rw [hworld, World.tell]
      split
      · exact hserved
      · exact served_push hserved _
  | asks identifier act hworld =>
      let opened := h.world.modify fun x => { x with slots := x.slots ++ [.waiting] }
      rw [hworld]
      exact served_push (w := opened) ⟨hserved.delayed_eq, hserved.owed⟩ _
  | releases hworld =>
      rw [hworld]
      exact ⟨hserved.delayed_eq, hserved.owed⟩
  | loses _ hworld =>
      rw [hworld]
      exact ⟨hserved.delayed_eq, fun h => absurd rfl h⟩
  | delivers rest hdelayed hworld =>
      rw [hworld]
      exact served_deliver (hdelayed.trans hserved.delayed_eq)

theorem served_run (object : T) (acts : List (Act T R)) :
    World.Served ((Held.start object).run acts).world := by
  induction acts using List.reverseRecOn with
  | nil => exact served_start object
  | append_singleton acts a ih =>
      rw [run_append]
      exact served_act ih a

theorem act_of_ready {rest : List Unit} (hready : h.world.scheduler.ready = () :: rest) :
    (h.act (.run 0)).world = World.deliver
      { h.world with scheduler := { h.world.scheduler with ready := rest } } := by
  simp [Held.act, World.chosen?, Scheduler.readyAt?, hready, behaviour]

theorem burden_deliver (w : World T R) : World.burden (World.deliver w) ≤ World.burden w := by
  cases hqueue : w.state.mailbox.queue with
  | nil => exact Nat.le_of_eq (congrArg World.burden (deliver_of_empty hqueue))
  | cons e back =>
      have hadded : (World.deliver w).scheduler.ready.length ≤ w.scheduler.ready.length + 1 := by
        rw [scheduler_deliver hqueue]
        split <;> simp [Scheduler.addTask]
      simp only [World.burden, queue_deliver, hqueue, List.tail_cons, List.length_cons]
      omega

/-- A delivery leaves less to do than there was before. -/
theorem burden_act {rest : List Unit} (hready : h.world.scheduler.ready = () :: rest) :
    World.burden (h.act (.run 0)).world < World.burden h.world := by
  rw [act_of_ready hready]
  refine Nat.lt_of_le_of_lt (burden_deliver _) ?_
  simp [World.burden, hready]

/-- A round of a drain runs the first delivery that is owed. -/
theorem round_of_ready {rest : List Unit} (hready : h.world.scheduler.ready = () :: rest) :
    behaviour.round none h.world = (true, (h.act (.run 0)).world) := by
  rw [act_of_ready hready]
  simp [Behaviour.round, Behaviour.runReady?, Scheduler.takeReady?, hready, behaviour]

theorem round_of_idle (hserved : World.Served h.world) (hready : h.world.scheduler.ready = []) :
    behaviour.round none h.world = (false, h.world) := by
  have hfutures : h.world.scheduler.futures = [] := Subsingleton.elim _ _
  have hasked : behaviour.pollFutures h.world = (false, h.world) := by
    simp only [Behaviour.pollFutures, hfutures, Behaviour.pollEach, List.nil_append]
    rw [← hfutures]
  simp [Behaviour.round, Behaviour.runReady?, Scheduler.takeReady?, hready, hasked,
    Behaviour.runDelayed?, Scheduler.takeDelayed?, hserved.delayed_eq]

/-- A drain within enough rounds is a run of deliveries after which none is owed. -/
theorem drain_eq (rounds : Nat) (hserved : World.Served h.world)
    (henough : World.burden h.world < rounds) :
    ∃ k, behaviour.drain? none rounds h.world =
        some (h.run (List.replicate k (.run 0))).world ∧
      (h.run (List.replicate k (.run 0))).world.scheduler.ready = [] := by
  induction rounds generalizing h with
  | zero => exact absurd henough (Nat.not_lt_zero _)
  | succ rounds ih =>
      rw [Behaviour.drain?]
      cases hready : h.world.scheduler.ready with
      | nil =>
          rw [round_of_idle hserved hready]
          exact ⟨0, rfl, hready⟩
      | cons task rest =>
          rw [round_of_ready hready]
          have hless := Nat.lt_of_lt_of_le (burden_act hready) (Nat.le_of_lt_succ henough)
          obtain ⟨k, hdrained, hnone⟩ := ih (served_act hserved (.run 0)) hless
          exact ⟨k + 1, hdrained, hnone⟩

theorem asked_deliveries (k : Nat) : h.asked (List.replicate k (.run 0)) = [] := by
  induction k generalizing h with
  | zero => rfl
  | succ k ih => exact ih

/-- Once no delivery is owed, every question has ended. -/
theorem resolved_of_idle (object : T) (acts : List (Act T R))
    (hready : ((Held.start object).run acts).world.scheduler.ready = []) {n : Nat}
    {act : T → R × T} (hasked : ((Held.start object).asked acts)[n]? = some act) :
    Resolved object ((Held.start object).executed acts)
      ((Held.start object).run acts).world.state n act := by
  have hempty : ((Held.start object).run acts).world.state.waiting = [] := by
    by_contra hwaits
    exact (served_run object acts).owed (fun hnil => hwaits (by simp [waiting, hnil])) hready
  cases (sound_run object acts).fate n act hasked with
  | waits hwaits _ =>
      rw [hempty] at hwaits
      cases hwaits
  | resolved _ hresolved => exact hresolved

theorem drive_drain (w : World T R) : World.drive w .drain =
    ((behaviour.drain? none (World.burden w + 1) w).map fun last => (none, last)).getD
      (none, w) := rfl

/-- Draining an actor is a run of deliveries, after which every question has ended. -/
theorem resolved_of_drain (object : T) (acts : List (Act T R)) :
    ∃ k, let all := acts ++ List.replicate k (.run 0)
      World.drive ((Held.start object).run acts).world .drain =
          (none, ((Held.start object).run all).world) ∧
        ∀ n act, ((Held.start object).asked acts)[n]? = some act →
          Resolved object ((Held.start object).executed all)
            ((Held.start object).run all).world.state n act := by
  obtain ⟨k, hdrained, hready⟩ := drain_eq _ (served_run object acts) (Nat.lt_add_one _)
  rw [← run_append] at hdrained hready
  refine ⟨k, ?_, fun n act hasked => resolved_of_idle object _ hready ?_⟩
  · rw [drive_drain, hdrained]
    rfl
  · rwa [asked_append, asked_deliveries, List.append_nil]

end MapTiles.Actor
