import MapTiles.Proofs.Scheduler.Order
import MapTiles.Scheduler.Script

/-!
What a script does on the spot. Performing an item that goes on at once is the same as doing what it
goes on with, so a script comes down to a list of deeds, each of which adds at most one task or
future, or one line to the log.
-/

namespace MapTiles.Script

/-- Something that a script does on the spot. -/
inductive Deed where
  | note (name : String)
  | task (delay : Duration) (job : Job)
  | spawn (name : String) (channels : List String) (follow : List Action)
  | send (channel : String)
  | drop (channel : String)

mutual

def Action.deeds : Action → List Deed
  | .task name delay follow => [.task delay ⟨name, follow⟩]
  | .perform name follow => .note name :: deedsAll follow
  | .spawn name channels follow => [.spawn name channels follow]
  | .send channel => [.send channel]
  | .drop channel => [.drop channel]

def deedsAll : List Action → List Deed
  | [] => []
  | a :: rest => a.deeds ++ deedsAll rest

end

def Deed.run : Deed → World → World
  | .note name, w => World.note w name
  | .task delay job, w => System.addTask w delay job
  | .spawn name channels follow, w => World.spawn w name channels follow
  | .send channel, w => (World.useSender w channel .sent).2.2
  | .drop channel, w => (World.useSender w channel .dropped).2.2

def execute (deeds : List Deed) (w : World) : World :=
  deeds.foldl (fun w deed => deed.run w) w

mutual

theorem Action.run_eq (a : Action) (w : World) : a.run w = execute a.deeds w := by
  cases a with
  | perform name follow => exact runAll_eq follow (World.note w name)
  | _ => rfl

theorem runAll_eq (script : List Action) (w : World) :
    runAll script w = execute (deedsAll script) w := by
  cases script with
  | nil => rfl
  | cons a rest =>
      rw [runAll, deedsAll, execute, List.foldl_append, Action.run_eq a w]
      exact runAll_eq rest _

end

/-- A world that holds some futures in front of the others. -/
def World.holding (w : World) (futures : List Waiting) : World :=
  { w with scheduler := { w.scheduler with futures := futures ++ w.scheduler.futures } }

/-- A deed does the same in a world that holds more futures. -/
theorem Deed.run_holding (deed : Deed) (w : World) (futures : List Waiting) :
    deed.run (w.holding futures) = (deed.run w).holding futures := by
  cases deed with
  | note name => rfl
  | task delay job =>
      simp only [Deed.run, System.addTask, Scheduler.addTask, World.holding]
      split <;> rfl
  | spawn name channels follow =>
      simp [Deed.run, World.spawn, System.spawn, Scheduler.spawn, System.modify, World.holding]
  | send channel =>
      simp only [Deed.run, World.useSender, World.holding]
      split <;> rfl
  | drop channel =>
      simp only [Deed.run, World.useSender, World.holding]
      split <;> rfl

theorem execute_holding (deeds : List Deed) (w : World) (futures : List Waiting) :
    execute deeds (w.holding futures) = (execute deeds w).holding futures := by
  induction deeds generalizing w with
  | nil => rfl
  | cons deed rest ih =>
      rw [execute, List.foldl_cons, deed.run_holding]
      exact ih (deed.run w)

/-- The future as a job: what it does once it is complete. -/
def Waiting.job (f : Waiting) : Job :=
  ⟨f.name, f.follow⟩

namespace Deed

/-- The task that a deed makes ready. -/
def ready? : Deed → Option Job
  | task delay job => if delay = 0 then some job else none
  | note _ | spawn _ _ _ | send _ | drop _ => none

/-- The task that a deed delays, and when it is due. -/
def delayed? (now : Instant) : Deed → Option (Instant × Job)
  | task delay job => if delay = 0 then none else some (now + delay, job)
  | note _ | spawn _ _ _ | send _ | drop _ => none

/-- The future that a deed adds, as a job. -/
def spawned? : Deed → Option Job
  | spawn name _ follow => some ⟨name, follow⟩
  | note _ | task _ _ | send _ | drop _ => none

/-- The number of signals that a deed opens. -/
def opens : Deed → Nat
  | spawn _ channels _ => channels.length
  | note _ | task _ _ | send _ | drop _ => 0

def line? (now : Instant) : Deed → Option (String × Instant)
  | note name => some (name, now)
  | task _ _ | spawn _ _ _ | send _ | drop _ => none

end Deed

/-- Delayed tasks with the numbers that they get in the order in which they are added. -/
def numbered (first : Nat) (tasks : List (Instant × Job)) : List (Delayed Job) :=
  tasks.zipIdx first |>.map fun entry => ⟨entry.1.1, entry.2, entry.1.2⟩

@[simp] theorem numbered_nil (first : Nat) : numbered first [] = [] := rfl

theorem numbered_append (first : Nat) (front back : List (Instant × Job)) :
    numbered first (front ++ back) =
      numbered first front ++ numbered (first + front.length) back := by
  rw [numbered, List.zipIdx_append, List.map_append]
  rfl

theorem map_task_numbered (first : Nat) (tasks : List (Instant × Job)) :
    (numbered first tasks).map Delayed.task = tasks.map Prod.snd := by
  conv_rhs => rw [← List.zipIdx_map_fst first tasks]
  rw [numbered, List.map_map, List.map_map]
  rfl

/-- The number of signals that deeds open. -/
def opened : List Deed → Nat
  | [] => 0
  | deed :: rest => deed.opens + opened rest

@[simp] theorem opened_nil : opened [] = 0 := rfl

theorem opened_append (front back : List Deed) :
    opened (front ++ back) = opened front + opened back := by
  induction front with
  | nil => exact (Nat.zero_add _).symm
  | cons deed rest ih => rw [List.cons_append, opened, opened, ih, Nat.add_assoc]

/-- The futures that deeds add, when the next signal that is opened gets the number `first`. Each
waits on the channels that it names, with a signal of its own for each of them. -/
def futuresFrom (first : Nat) : List Deed → List Waiting
  | [] => []
  | .spawn name channels follow :: rest =>
    ⟨name, channels.zipIdx first, follow⟩ :: futuresFrom (first + channels.length) rest
  | .note _ :: rest | .task _ _ :: rest | .send _ :: rest | .drop _ :: rest =>
    futuresFrom first rest

theorem futuresFrom_append (first : Nat) (front back : List Deed) :
    futuresFrom first (front ++ back) =
      futuresFrom first front ++ futuresFrom (first + opened front) back := by
  induction front generalizing first with
  | nil => rfl
  | cons deed rest ih =>
      cases deed with
      | spawn name channels follow =>
          rw [List.cons_append, futuresFrom, futuresFrom, ih, opened, Deed.opens,
            Nat.add_assoc, List.cons_append]
      | _ =>
          rw [List.cons_append, futuresFrom, futuresFrom, ih, opened, Deed.opens, Nat.zero_add]

theorem map_job_futuresFrom (first : Nat) (deeds : List Deed) :
    (futuresFrom first deeds).map Waiting.job = deeds.filterMap Deed.spawned? := by
  induction deeds generalizing first with
  | nil => rfl
  | cons deed rest ih =>
      cases deed with
      | spawn name channels follow =>
          rw [futuresFrom, List.map_cons, ih]
          rfl
      | _ => exact ih first

/-- What deeds add to the work of a world. -/
structure World.Adds (deeds : List Deed) (w after : World) : Prop where
  ready_eq : after.scheduler.ready = w.scheduler.ready ++ deeds.filterMap Deed.ready?
  delayed_perm : after.scheduler.delayed.Perm (w.scheduler.delayed ++
    numbered w.scheduler.added (deeds.filterMap (Deed.delayed? w.scheduler.now)))
  added_eq : after.scheduler.added =
    w.scheduler.added + (deeds.filterMap (Deed.delayed? w.scheduler.now)).length
  furthest_le_iff : ∀ latest, after.scheduler.furthest ≤ latest ↔ w.scheduler.furthest ≤ latest ∧
    ∀ d ∈ deeds.filterMap (Deed.delayed? w.scheduler.now), d.1 ≤ latest
  futures_eq : after.scheduler.futures =
    w.scheduler.futures ++ futuresFrom w.state.signals.length deeds
  signals_eq : after.state.signals.length = w.state.signals.length + opened deeds
  log_eq : after.state.log = w.state.log ++ deeds.filterMap (Deed.line? w.scheduler.now)
  now_eq : after.scheduler.now = w.scheduler.now
  ordered : w.scheduler.Ordered → after.scheduler.Ordered

namespace World.Adds

variable {w v after : World} {deed : Deed} {deeds : List Deed}

theorem refl (w : World) : World.Adds [] w w where
  ready_eq := (List.append_nil _).symm
  delayed_perm := by simp
  added_eq := rfl
  furthest_le_iff := by simp
  futures_eq := (List.append_nil _).symm
  signals_eq := rfl
  log_eq := (List.append_nil _).symm
  now_eq := rfl
  ordered := id

/-- Sending and dropping signals adds nothing. -/
theorem useSender (w : World) (channel : String) (signal : Signal) :
    (World.useSender w channel signal).2.2.scheduler = w.scheduler ∧
      (World.useSender w channel signal).2.2.state.log = w.state.log ∧
      (World.useSender w channel signal).2.2.state.signals.length = w.state.signals.length := by
  unfold World.useSender
  split
  · exact ⟨rfl, rfl, rfl⟩
  · refine ⟨rfl, rfl, ?_⟩
    dsimp only [System.modify]
    split
    · exact List.length_set
    · rfl

/-- A deed that does not touch the waiting work nor the log. -/
theorem same (hready : deed.ready? = none) (hdelayed : ∀ now, deed.delayed? now = none)
    (hspawned : ∀ first, futuresFrom first [deed] = []) (hopens : deed.opens = 0)
    (hline : ∀ now, deed.line? now = none) (hscheduler : after.scheduler = w.scheduler)
    (hlog : after.state.log = w.state.log)
    (hsignals : after.state.signals.length = w.state.signals.length) :
    World.Adds [deed] w after where
  ready_eq := by simp [hready, hscheduler]
  delayed_perm := by simp [hdelayed, hscheduler]
  added_eq := by simp [hdelayed, hscheduler]
  furthest_le_iff := by simp [hdelayed, hscheduler]
  futures_eq := by simp [hspawned, hscheduler]
  signals_eq := by simp [opened, hopens, hsignals]
  log_eq := by simp [hline, hlog]
  now_eq := by rw [hscheduler]
  ordered := by rw [hscheduler]; exact id

theorem run (deed : Deed) (w : World) : World.Adds [deed] w (deed.run w) := by
  cases deed with
  | note name =>
      refine ⟨?_, .of_eq (List.append_nil _).symm, rfl, ?_, (List.append_nil _).symm, rfl, rfl, rfl,
        id⟩
      all_goals simp [Deed.run, World.note, System.modify, Deed.ready?, Deed.delayed?]
  | task delay job =>
      have hordered : w.scheduler.Ordered → (w.scheduler.addTask delay job).Ordered :=
        fun h => h.addTask delay job
      by_cases hready : delay = 0
      · subst hready
        refine ⟨?_, ?_, ?_, ?_, (List.append_nil _).symm, rfl, ?_, rfl, hordered⟩
        all_goals simp [Deed.run, System.addTask, Scheduler.addTask, Deed.ready?, Deed.delayed?,
          Deed.line?]
      · have hadded : w.scheduler.addTask delay job = { w.scheduler with
            delayed := Scheduler.insertDelayed
              ⟨w.scheduler.now + delay, w.scheduler.added, job⟩ w.scheduler.delayed
            added := w.scheduler.added + 1
            furthest := max w.scheduler.furthest (w.scheduler.now + delay) } := if_neg hready
        have hdelayed : [Deed.task delay job].filterMap (Deed.delayed? w.scheduler.now) =
            [(w.scheduler.now + delay, job)] := by simp [Deed.delayed?, hready]
        refine ⟨?_, ?_, ?_, ?_, ?_, ?_, ?_, ?_, hordered⟩
        case refine_2 =>
          have hinserted := Scheduler.insertDelayed_perm
            ⟨w.scheduler.now + delay, w.scheduler.added, job⟩ w.scheduler.delayed
          rw [hdelayed]
          simp only [Deed.run, System.addTask, hadded]
          exact hinserted.trans (List.perm_append_singleton _ _).symm
        case refine_4 =>
          intro latest
          rw [hdelayed, List.forall_mem_singleton]
          simp only [Deed.run, System.addTask, hadded]
          exact Nat.max_le
        all_goals simp [Deed.run, System.addTask, hadded, Deed.ready?, Deed.delayed?, Deed.line?,
          futuresFrom, opened, Deed.opens, hready]
  | spawn name channels follow =>
      refine ⟨?_, .of_eq (List.append_nil _).symm, rfl, ?_, rfl, ?_, ?_, rfl,
        fun h => ⟨h.sorted, h.numbered⟩⟩
      all_goals simp [Deed.run, World.spawn, System.spawn, Scheduler.spawn, System.modify,
        Deed.ready?, Deed.delayed?, Deed.line?, opened, Deed.opens]
  | send channel =>
      obtain ⟨hscheduler, hlog, hsignals⟩ := useSender w channel .sent
      exact same rfl (fun _ => rfl) (fun _ => rfl) rfl (fun _ => rfl) hscheduler hlog hsignals
  | drop channel =>
      obtain ⟨hscheduler, hlog, hsignals⟩ := useSender w channel .dropped
      exact same rfl (fun _ => rfl) (fun _ => rfl) rfl (fun _ => rfl) hscheduler hlog hsignals

theorem trans {more : List Deed} (hfirst : World.Adds deeds w v) (hrest : World.Adds more v after) :
    World.Adds (deeds ++ more) w after where
  ready_eq := by
    rw [hrest.ready_eq, hfirst.ready_eq, List.filterMap_append, List.append_assoc]
  delayed_perm := by
    rw [List.filterMap_append, numbered_append, ← List.append_assoc, ← hfirst.added_eq,
      ← hfirst.now_eq]
    refine hrest.delayed_perm.trans (List.Perm.append_right _ ?_)
    rw [hfirst.now_eq]
    exact hfirst.delayed_perm
  added_eq := by
    rw [hrest.added_eq, hfirst.added_eq, hfirst.now_eq, List.filterMap_append, List.length_append,
      Nat.add_assoc]
  furthest_le_iff latest := by
    rw [hrest.furthest_le_iff, hfirst.furthest_le_iff, hfirst.now_eq, List.filterMap_append,
      List.forall_mem_append, and_assoc]
  futures_eq := by
    rw [hrest.futures_eq, hfirst.futures_eq, hfirst.signals_eq, futuresFrom_append,
      List.append_assoc]
  signals_eq := by
    rw [hrest.signals_eq, hfirst.signals_eq, opened_append, Nat.add_assoc]
  log_eq := by
    rw [hrest.log_eq, hfirst.log_eq, hfirst.now_eq, List.filterMap_append, List.append_assoc]
  now_eq := hrest.now_eq.trans hfirst.now_eq
  ordered h := hrest.ordered (hfirst.ordered h)

theorem execute (deeds : List Deed) (w : World) : World.Adds deeds w (Script.execute deeds w) := by
  induction deeds generalizing w with
  | nil => exact refl w
  | cons deed rest ih => exact (run deed w).trans (ih (deed.run w))

end World.Adds

end MapTiles.Script
