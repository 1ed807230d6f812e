import MapTiles.Proofs.Scheduler.Ledger
import Mathlib.Algebra.GroupWithZero.Nat

/-!
The work of a scripted world, piece by piece. A piece of work is a call of the owner, a task that
runs, or a future that ends. Each is recorded with the time at which it is done. What has waited in
the meantime is what waited before or was added, less what was taken up.
-/

namespace MapTiles.Script

/-- What makes a world work. -/
inductive Origin where
  | owner (a : Action)
  | ready (job : Job)
  | delayed (d : Delayed Job)
  | complete (f : Waiting)
  | dropped (f : Waiting)

/-- A piece of work and the time at which it is done. -/
structure Work where
  origin : Origin
  time : Instant

namespace Work

/-- What is done on the spot. -/
def deeds (k : Work) : List Deed :=
  match k.origin with
  | .owner a => a.deeds
  | .ready job => .note job.name :: deedsAll job.follow
  | .delayed d => .note d.task.name :: deedsAll d.task.follow
  | .complete f => .note f.name :: deedsAll f.follow
  | .dropped f => [.note (f.name ++ " dropped")]

/-- The ready task that runs. -/
def ready? (k : Work) : Option Job :=
  match k.origin with
  | .ready job => some job
  | _ => none

/-- The delayed task that runs. -/
def delayed? (k : Work) : Option (Delayed Job) :=
  match k.origin with
  | .delayed d => some d
  | _ => none

/-- The future that ends. -/
def ended? (k : Work) : Option Waiting :=
  match k.origin with
  | .complete f => some f
  | .dropped f => some f
  | _ => none

/-- The tasks that become ready, in order. -/
def readied (k : Work) : List Job :=
  k.deeds.filterMap Deed.ready?

/-- The tasks that are delayed, in order, and when they are due. -/
def postponed (k : Work) : List (Instant × Job) :=
  k.deeds.filterMap (Deed.delayed? k.time)

/-- The futures that are added, as jobs. -/
def spawned (k : Work) : List Job :=
  k.deeds.filterMap Deed.spawned?

def lines (k : Work) : List (String × Instant) :=
  k.deeds.filterMap (Deed.line? k.time)

/-- What was waiting and is taken up. A call of the owner takes nothing. -/
def taken (k : Work) : List Job :=
  k.ready?.toList ++ (k.delayed?.toList.map Delayed.task ++ k.ended?.toList.map Waiting.job)

/-- A future ends only if the ledger says so. It is complete if all that it waits for was sent, and
it is dropped if the first that was not sent was dropped. -/
def Heard (ledger : Ledger) (k : Work) : Prop :=
  match k.origin with
  | .complete f => ledger.unsent? f.waits = none
  | .dropped f => ledger.unsent? f.waits = some .dropped
  | .owner _ | .ready _ | .delayed _ => True

end Work

/-- What a list of pieces of work takes from those that waited is what each of them takes. -/
theorem filterMap_works {β : Type} (f : Work → Option β) (k : Work) (works : List Work) :
    (k :: works).filterMap f = (f k).toList ++ works.filterMap f := by
  cases hk : f k <;> simp [hk]

/-- The ledger after several pieces of work. -/
def Ledger.after (ledger : Ledger) (works : List Work) : Ledger :=
  ledger.enterAll (works.flatMap Work.deeds)

theorem Ledger.after_append (ledger : Ledger) (works more : List Work) :
    ledger.after (works ++ more) = (ledger.after works).after more := by
  rw [Ledger.after, List.flatMap_append, Ledger.enterAll_append]
  rfl

/-- Whether all futures that end in several pieces of work end as the ledger has it, which is kept
from each piece to the next. -/
def Ledger.Hears : Ledger → List Work → Prop
  | _, [] => True
  | ledger, k :: rest => k.Heard ledger ∧ Ledger.Hears (ledger.enterAll k.deeds) rest

theorem Ledger.Hears.append {ledger : Ledger} {works more : List Work} (h : ledger.Hears works)
    (hmore : (ledger.after works).Hears more) : ledger.Hears (works ++ more) := by
  induction works generalizing ledger with
  | nil => exact hmore
  | cons k rest ih =>
      refine ⟨h.1, ih h.2 ?_⟩
      rwa [Ledger.after, List.flatMap_cons, Ledger.enterAll_append] at hmore

/-- What work has made of a world. -/
structure World.Ran (w : World) (works : List Work) (after : World) : Prop where
  /-- The tasks that ran and those that are still ready are those that became ready, in the order in
  which they did. -/
  ready_eq : works.filterMap Work.ready? ++ after.scheduler.ready =
    w.scheduler.ready ++ works.flatMap Work.readied
  /-- Each delayed task ran or waits, under the number that it got. -/
  delayed_perm : (works.filterMap Work.delayed? ++ after.scheduler.delayed).Perm
    (w.scheduler.delayed ++ numbered w.scheduler.added (works.flatMap Work.postponed))
  added_eq : after.scheduler.added =
    w.scheduler.added + (works.flatMap Work.postponed).length
  /-- No time came up but those at which delayed tasks are due. -/
  furthest_le_iff : ∀ latest, after.scheduler.furthest ≤ latest ↔ w.scheduler.furthest ≤ latest ∧
    ∀ d ∈ works.flatMap Work.postponed, d.1 ≤ latest
  /-- Each future ended or waits, on the channels that it was added with. -/
  futures_perm : (works.filterMap Work.ended? ++ after.scheduler.futures).Perm
    (w.scheduler.futures ++ futuresFrom w.state.signals.length (works.flatMap Work.deeds))
  signals_eq : after.state.signals.length =
    w.state.signals.length + opened (works.flatMap Work.deeds)
  log_eq : after.state.log = w.state.log ++ works.flatMap Work.lines
  now_le : w.scheduler.now ≤ after.scheduler.now
  times : ∀ k ∈ works, w.scheduler.now ≤ k.time ∧ k.time ≤ after.scheduler.now
  /-- The clock never goes back. -/
  onward : works.Pairwise fun k next => k.time ≤ next.time
  ordered : w.scheduler.Ordered → after.scheduler.Ordered

/-- What is left of a world when a piece of work is taken up. -/
structure World.Takes (w : World) (k : Work) (rest : World) : Prop where
  ready_eq : w.scheduler.ready = k.ready?.toList ++ rest.scheduler.ready
  delayed_eq : w.scheduler.delayed = k.delayed?.toList ++ rest.scheduler.delayed
  added_eq : rest.scheduler.added = w.scheduler.added
  furthest_eq : rest.scheduler.furthest = w.scheduler.furthest
  futures_perm : w.scheduler.futures.Perm (k.ended?.toList ++ rest.scheduler.futures)
  signals_eq : rest.state.signals.length = w.state.signals.length
  log_eq : rest.state.log = w.state.log
  now_le : w.scheduler.now ≤ k.time
  now_eq : rest.scheduler.now = k.time

namespace World.Ran

variable {w v after : World} {works more : List Work} {k : Work}

theorem refl (w : World) : World.Ran w [] w where
  ready_eq := (List.append_nil _).symm
  delayed_perm := .of_eq (List.append_nil _).symm
  added_eq := rfl
  furthest_le_iff := by simp
  futures_perm := .of_eq (List.append_nil _).symm
  signals_eq := rfl
  log_eq := (List.append_nil _).symm
  now_le := Nat.le_refl _
  times _ h := nomatch h
  onward := .nil
  ordered := id

theorem trans (hfirst : World.Ran w works v) (hrest : World.Ran v more after) :
    World.Ran w (works ++ more) after where
  ready_eq := by
    rw [List.filterMap_append, List.append_assoc, hrest.ready_eq, ← List.append_assoc,
      hfirst.ready_eq, List.flatMap_append, List.append_assoc]
  delayed_perm := by
    rw [List.filterMap_append, List.append_assoc, List.flatMap_append, numbered_append,
      ← hfirst.added_eq]
    refine (hrest.delayed_perm.append_left _).trans ?_
    rw [← List.append_assoc, ← List.append_assoc]
    exact hfirst.delayed_perm.append_right _
  added_eq := by
    rw [hrest.added_eq, hfirst.added_eq, List.flatMap_append, List.length_append, Nat.add_assoc]
  furthest_le_iff latest := by
    rw [hrest.furthest_le_iff, hfirst.furthest_le_iff, List.flatMap_append,
      List.forall_mem_append, and_assoc]
  futures_perm := by
    rw [List.filterMap_append, List.append_assoc, List.flatMap_append, futuresFrom_append,
      ← hfirst.signals_eq]
    refine (hrest.futures_perm.append_left _).trans ?_
    rw [← List.append_assoc, ← List.append_assoc]
    exact hfirst.futures_perm.append_right _
  signals_eq := by
    rw [hrest.signals_eq, hfirst.signals_eq, List.flatMap_append, opened_append, Nat.add_assoc]
  log_eq := by
    rw [hrest.log_eq, hfirst.log_eq, List.flatMap_append, List.append_assoc]
  now_le := Nat.le_trans hfirst.now_le hrest.now_le
  times k hk := by
    rcases List.mem_append.mp hk with hearly | hlate
    · obtain ⟨hlow, hhigh⟩ := hfirst.times k hearly
      exact ⟨hlow, Nat.le_trans hhigh hrest.now_le⟩
    · obtain ⟨hlow, hhigh⟩ := hrest.times k hlate
      exact ⟨Nat.le_trans hfirst.now_le hlow, hhigh⟩
  onward := List.pairwise_append.mpr ⟨hfirst.onward, hrest.onward, fun k hk next hnext =>
    Nat.le_trans (hfirst.times k hk).2 (hrest.times next hnext).1⟩
  ordered h := hrest.ordered (hfirst.ordered h)

/-- A piece of work takes one thing that waits, if any, and adds what it does on the spot. -/
theorem of_takes {rest : World} (htakes : World.Takes w k rest)
    (hadds : World.Adds k.deeds rest after) : World.Ran w [k] after where
  ready_eq := by
    rw [filterMap_works, hadds.ready_eq, htakes.ready_eq, List.flatMap_singleton,
      List.append_assoc, List.append_assoc]
    rfl
  delayed_perm := by
    rw [filterMap_works, List.flatMap_singleton, htakes.delayed_eq, List.append_assoc,
      List.append_assoc]
    refine List.Perm.append_left _ ?_
    rw [← htakes.added_eq, Work.postponed, ← htakes.now_eq]
    exact hadds.delayed_perm
  added_eq := by
    rw [hadds.added_eq, htakes.added_eq, htakes.now_eq, List.flatMap_singleton]
    rfl
  furthest_le_iff latest := by
    rw [hadds.furthest_le_iff, htakes.furthest_eq, htakes.now_eq, List.flatMap_singleton]
    rfl
  futures_perm := by
    rw [filterMap_works, hadds.futures_eq, htakes.signals_eq, List.flatMap_singleton,
      List.filterMap_nil, List.append_nil, ← List.append_assoc]
    exact htakes.futures_perm.symm.append_right _
  signals_eq := by
    rw [hadds.signals_eq, htakes.signals_eq, List.flatMap_singleton]
  log_eq := by
    rw [hadds.log_eq, htakes.log_eq, htakes.now_eq, List.flatMap_singleton]
    rfl
  now_le := by
    rw [hadds.now_eq, htakes.now_eq]
    exact htakes.now_le
  times other hother := by
    obtain rfl := List.mem_singleton.mp hother
    rw [hadds.now_eq, htakes.now_eq]
    exact ⟨htakes.now_le, Nat.le_refl _⟩
  onward := List.pairwise_singleton _ _
  ordered h := by
    obtain ⟨hsorted, hnumbered⟩ := h
    rw [htakes.delayed_eq] at hsorted hnumbered
    refine hadds.ordered ⟨(List.pairwise_append.mp hsorted).2.1, fun d hd => ?_⟩
    rw [htakes.added_eq]
    exact hnumbered d (List.mem_append_right _ hd)

end World.Ran

/-- What work has made of a world, with the ledger kept. -/
structure World.Does (w : World) (works : List Work) (after : World) : Prop
    extends World.Ran w works after where
  tells : ∀ ledger : Ledger, ledger.Tells w →
    ledger.Hears works ∧ (ledger.after works).Tells after

namespace World.Does

variable {w v after : World} {works more : List Work} {k : Work}

theorem refl (w : World) : World.Does w [] w :=
  ⟨.refl w, fun _ h => ⟨trivial, h⟩⟩

theorem trans (hfirst : World.Does w works v) (hrest : World.Does v more after) :
    World.Does w (works ++ more) after := by
  refine ⟨hfirst.toRan.trans hrest.toRan, fun ledger h => ?_⟩
  obtain ⟨hhears, hmid⟩ := hfirst.tells ledger h
  obtain ⟨hlater, hafter⟩ := hrest.tells _ hmid
  exact ⟨hhears.append hlater, ledger.after_append works more ▸ hafter⟩

/-- A piece of work takes one thing that waits, if any, and does its deeds. -/
theorem of_takes {rest : World} (htakes : World.Takes w k rest)
    (htells : ∀ ledger : Ledger, ledger.Tells w → k.Heard ledger ∧ ledger.Tells rest) :
    World.Does w [k] (execute k.deeds rest) := by
  refine ⟨.of_takes htakes (.execute k.deeds rest), fun ledger h => ?_⟩
  obtain ⟨hheard, hrest⟩ := htells ledger h
  refine ⟨⟨hheard, trivial⟩, ?_⟩
  rw [Ledger.after, List.flatMap_singleton]
  exact hrest.execute k.deeds

end World.Does

/-- An item that its owner performs is a piece of work that takes nothing. -/
theorem World.does_owner (a : Action) (w : World) :
    World.Does w [⟨.owner a, w.scheduler.now⟩] (a.run w) := by
  have htakes : World.Takes w ⟨.owner a, w.scheduler.now⟩ w :=
    ⟨rfl, rfl, rfl, rfl, .refl _, rfl, rfl, Nat.le_refl _, rfl⟩
  rw [a.run_eq]
  exact .of_takes htakes fun _ h => ⟨trivial, h⟩

section Poll

/-- What a future comes to that does not wait. -/
def Waiting.ending (f : Waiting) (w : World) : Origin :=
  match stillOpen w.state.signals f.waits with
  | [] => .complete f
  | _ => .dropped f

/-- Whether a future waits for a signal that was neither sent nor dropped, when those before it were
sent. -/
def World.Waits (w : World) (f : Waiting) : Prop :=
  ∃ wait rest, stillOpen w.state.signals f.waits = wait :: rest ∧
    w.state.signals[wait.2]? = some .pending

/-- The futures that end when each of them is asked once, in order. -/
def polled : List Waiting → World → List Work
  | [], _ => []
  | f :: rest, w =>
    match poll f w with
    | (some _, next) => polled rest next
    | (none, next) => ⟨f.ending w, w.scheduler.now⟩ :: polled rest next

variable {w : World} {f : Waiting} {ledger : Ledger}

/-- A future that waits does so in the ledger. -/
theorem Ledger.Tells.unsent?_of_waits (h : ledger.Tells w) (hf : f ∈ w.scheduler.futures)
    (hwaits : World.Waits w f) : ledger.unsent? f.waits = some .pending := by
  obtain ⟨wait, rest, hopen, hpending⟩ := hwaits
  rw [Ledger.unsent?_eq (h.waits f hf), hopen]
  exact hpending

/-- A future that does not wait has heard of all that it waits for, or that the first of it that was
not sent was dropped. -/
theorem Ledger.Tells.heard_of_ends (h : ledger.Tells w) (hf : f ∈ w.scheduler.futures)
    (hends : ¬World.Waits w f) (time : Instant) : Work.Heard ledger ⟨f.ending w, time⟩ := by
  have hunsent := Ledger.unsent?_eq (h.waits f hf)
  unfold Waiting.ending
  cases hopen : stillOpen w.state.signals f.waits with
  | nil =>
      rw [hopen] at hunsent
      exact hunsent
  | cons wait rest =>
      rw [hopen] at hunsent
      have hmem : wait ∈ f.waits := by
        have hleft : wait ∈ stillOpen w.state.signals f.waits := hopen ▸ List.mem_cons_self
        exact (List.dropWhile_sublist _).subset hleft
      obtain ⟨signal, hledger, hsignal⟩ := h.waits f hf wait hmem
      have hheard : ledger.unsent? f.waits = some signal := hunsent.trans hsignal
      cases signal with
      | pending => exact absurd ⟨wait, rest, hopen, hsignal⟩ hends
      | sent => exact absurd rfl (Ledger.ne_sent_of_unsent? hheard)
      | dropped => exact hheard
      | unheard => exact absurd rfl (h.answers _ (List.mem_of_getElem? hledger))

/-- A future that ended no longer hears its signals; all else is as before. -/
structure World.Deafens (f : Waiting) (w deaf : World) : Prop where
  scheduler_eq : deaf.scheduler = w.scheduler
  senders_eq : deaf.state.senders = w.state.senders
  log_eq : deaf.state.log = w.state.log
  length_eq : deaf.state.signals.length = w.state.signals.length
  signals_eq : ∀ n, n ∉ f.waits.map Prod.snd → deaf.state.signals[n]? = w.state.signals[n]?

/-- Signals that are no longer heard leave the others alone. -/
theorem foldl_unheard (waits : List (String × Nat)) (signals : List Signal) :
    let after := waits.foldl (fun s later => s.set later.2 .unheard) signals
    after.length = signals.length ∧ ∀ n, n ∉ waits.map Prod.snd → after[n]? = signals[n]? := by
  induction waits generalizing signals with
  | nil => exact ⟨rfl, fun _ _ => rfl⟩
  | cons wait rest ih =>
      obtain ⟨hlength, hrest⟩ := ih (signals.set wait.2 .unheard)
      refine ⟨hlength.trans List.length_set, fun n hn => ?_⟩
      rw [List.map_cons, List.mem_cons, not_or] at hn
      exact (hrest n hn.2).trans (List.getElem?_set_ne (Ne.symm hn.1))

/-- A future waits and does nothing, or it ends and does its deeds. -/
theorem poll_cases (f : Waiting) (w : World) :
    poll f w = (some f, w) ∧ World.Waits w f ∨
      ¬World.Waits w f ∧ ∃ deaf : World, World.Deafens f w deaf ∧
        poll f w = (none, execute (Work.deeds ⟨f.ending w, w.scheduler.now⟩) deaf) := by
  unfold poll Waiting.ending World.Waits
  cases hopen : stillOpen w.state.signals f.waits with
  | nil =>
      refine .inr ⟨by simp, w, ⟨rfl, rfl, rfl, rfl, fun _ _ => rfl⟩, ?_⟩
      rw [runAll_eq]
      rfl
  | cons wait rest =>
      by_cases hpending : w.state.signals[wait.2]? = some .pending
      · exact .inl ⟨if_pos hpending, wait, rest, rfl, hpending⟩
      · obtain ⟨hlength, hothers⟩ := foldl_unheard rest w.state.signals
        have hmine : ∀ n, n ∉ f.waits.map Prod.snd → n ∉ rest.map Prod.snd := by
          have hsublist : (wait :: rest).Sublist f.waits := hopen ▸ List.dropWhile_sublist _
          intro n hn hrest
          exact hn ((hsublist.map Prod.snd).subset (List.mem_cons_of_mem _ hrest))
        refine .inr ⟨fun hwaits => ?_, w.modify fun x =>
          { x with signals := rest.foldl (fun s later => s.set later.2 .unheard) x.signals },
          ⟨rfl, rfl, rfl, hlength, ?_⟩, if_neg hpending⟩
        · obtain ⟨_, _, hsame, hstill⟩ := hwaits
          cases hsame
          exact hpending hstill
        · exact fun n hn => hothers n (hmine n hn)

/-- A future that ends is taken from those that are held. -/
theorem takes_ending {deaf : World} (kept rest : List Waiting) (hdeaf : World.Deafens f w deaf) :
    World.Takes (w.holding (kept ++ f :: rest)) ⟨f.ending w, w.scheduler.now⟩
      (deaf.holding (kept ++ rest)) := by
  have hended : Work.ended? ⟨f.ending w, w.scheduler.now⟩ = some f ∧
      Work.ready? ⟨f.ending w, w.scheduler.now⟩ = none ∧
        Work.delayed? ⟨f.ending w, w.scheduler.now⟩ = none := by
    unfold Waiting.ending
    split <;> exact ⟨rfl, rfl, rfl⟩
  obtain ⟨hsome, hready, hdelayed⟩ := hended
  have hscheduler := hdeaf.scheduler_eq
  refine ⟨?_, ?_, ?_, ?_, ?_, hdeaf.length_eq, hdeaf.log_eq, Nat.le_refl _, ?_⟩
  case refine_5 =>
    rw [hsome]
    simp only [World.holding, hscheduler, List.append_assoc, List.cons_append]
    exact List.perm_middle
  all_goals simp [World.holding, hscheduler, hready, hdelayed]

/-- Asking futures, one after the other, while others are kept. -/
theorem does_pollEach (futures : List Waiting) (w : World) :
    ∃ (pending : List Waiting) (completed : Bool) (after : World),
      behaviour.pollEach futures w = (pending, completed, after) ∧
      (∀ kept, World.Does (w.holding (kept ++ futures)) (polled futures w)
        (after.holding (kept ++ pending))) ∧
      after.scheduler.now = w.scheduler.now ∧
      (polled futures w = [] ∧ completed = false ∧ after = w ∧ pending = futures ∧
          (∀ f ∈ futures, World.Waits w f) ∨
        polled futures w ≠ [] ∧ completed = true) := by
  induction futures generalizing w with
  | nil => exact ⟨[], false, w, rfl, fun _ => .refl _, rfl, .inl ⟨rfl, rfl, rfl, rfl, nofun⟩⟩
  | cons f rest ih =>
      rcases poll_cases f w with ⟨hpoll, hwaits⟩ | ⟨hends, deaf, hdeaf, hpoll⟩
      · obtain ⟨pending, completed, after, heach, hdoes, hnow, hcases⟩ := ih w
        have hworks : polled (f :: rest) w = polled rest w := by
          rw [polled, hpoll]
        rw [hworks]
        refine ⟨f :: pending, completed, after, ?_, fun kept => ?_, hnow, ?_⟩
        · simp only [Behaviour.pollEach, behaviour, hpoll]
          rw [← behaviour, heach]
        · have hkept := hdoes (kept ++ [f])
          simpa only [List.append_assoc, List.singleton_append] using hkept
        · refine hcases.imp_left ?_
          rintro ⟨hnone, hfalse, rfl, rfl, hall⟩
          exact ⟨hnone, hfalse, rfl, rfl, List.forall_mem_cons.mpr ⟨hwaits, hall⟩⟩
      · let k : Work := ⟨f.ending w, w.scheduler.now⟩
        obtain ⟨pending, completed, after, heach, hdoes, hnow, -⟩ := ih (execute k.deeds deaf)
        have hworks : polled (f :: rest) w = k :: polled rest (execute k.deeds deaf) := by
          rw [polled, hpoll]
        rw [hworks]
        refine ⟨pending, true, after, ?_, fun kept => ?_, ?_, .inr ⟨List.cons_ne_nil _ _, rfl⟩⟩
        · simp only [Behaviour.pollEach, behaviour, hpoll]
          rw [← behaviour, heach]
        · have hfirst : World.Does (w.holding (kept ++ f :: rest)) [k]
              ((execute k.deeds deaf).holding (kept ++ rest)) := by
            rw [← execute_holding]
            refine .of_takes (takes_ending kept rest hdeaf) fun ledger h => ?_
            have hf : f ∈ (w.holding (kept ++ f :: rest)).scheduler.futures := by
              simp [World.holding]
            refine ⟨h.heard_of_ends hf hends _, h.ended ?_ hdeaf.senders_eq hdeaf.length_eq
              hdeaf.signals_eq⟩
            simp only [World.holding, hdeaf.scheduler_eq, List.append_assoc, List.cons_append]
            exact List.perm_middle
          exact hfirst.trans (hdoes kept)
        · rw [hnow, (World.Adds.execute k.deeds deaf).now_eq, hdeaf.scheduler_eq]

/-- What is recorded for asked futures is that they ended. -/
theorem ended_polled {futures : List Waiting} {w : World} {k : Work} (hk : k ∈ polled futures w) :
    k.ended?.isSome = true := by
  induction futures generalizing w with
  | nil => cases hk
  | cons f rest ih =>
      unfold polled at hk
      split at hk
      · exact ih hk
      · rcases List.mem_cons.mp hk with rfl | hlater
        · unfold Waiting.ending
          split <;> rfl
        · exact ih hlater

end Poll

section Size

/-- The number of tasks and futures that jobs are and can bring about. -/
def total (jobs : List Job) : Nat :=
  (jobs.map fun job => sizeAll job.follow + 1).sum

@[simp] theorem total_nil : total [] = 0 := rfl

@[simp] theorem total_cons (job : Job) (jobs : List Job) :
    total (job :: jobs) = sizeAll job.follow + 1 + total jobs := rfl

@[simp] theorem total_append (front back : List Job) :
    total (front ++ back) = total front + total back := by
  simp [total]

theorem total_perm {jobs others : List Job} (h : jobs.Perm others) : total jobs = total others :=
  (h.map _).sum_nat

theorem World.size_eq (w : World) : w.size = total w.scheduler.ready +
    total (w.scheduler.delayed.map Delayed.task) +
      total (w.scheduler.futures.map Waiting.job) := by
  simp only [total, List.map_map]
  rfl

/-- The number of tasks and futures that a deed can bring about. -/
def Deed.size : Deed → Nat
  | .task _ job => sizeAll job.follow + 1
  | .spawn _ _ follow => sizeAll follow + 1
  | .note _ | .send _ | .drop _ => 0

mutual

theorem Action.size_eq (a : Action) : (a.deeds.map Deed.size).sum = a.size := by
  cases a with
  | perform name follow =>
      rw [Action.deeds, List.map_cons, List.sum_cons, sizeAll_eq follow, Action.size, Deed.size,
        Nat.zero_add]
  | _ => simp [Action.deeds, Action.size, Deed.size]

theorem sizeAll_eq (script : List Action) :
    ((deedsAll script).map Deed.size).sum = sizeAll script := by
  cases script with
  | nil => rfl
  | cons a rest =>
      rw [deedsAll, List.map_append, List.sum_append, Action.size_eq a, sizeAll_eq rest, sizeAll]

end

/-- Deeds bring about as much as they are worth. -/
theorem total_deeds (deeds : List Deed) (now : Instant) :
    total (deeds.filterMap Deed.ready?) +
        total ((deeds.filterMap (Deed.delayed? now)).map Prod.snd) +
          total (deeds.filterMap Deed.spawned?) = (deeds.map Deed.size).sum := by
  induction deeds with
  | nil => rfl
  | cons deed rest ih =>
      rw [List.map_cons, List.sum_cons, ← ih]
      cases deed with
      | task delay job =>
          simp only [List.filterMap_cons, Deed.ready?, Deed.delayed?, Deed.spawned?, Deed.size]
          by_cases hready : delay = 0
          · simp only [hready, if_pos, total_cons]
            omega
          · simp only [hready, if_false, List.map_cons, total_cons]
            omega
      | spawn name channels follow =>
          simp only [List.filterMap_cons, Deed.ready?, Deed.delayed?, Deed.spawned?, Deed.size,
            total_cons]
          omega
      | _ =>
          simp only [List.filterMap_cons, Deed.ready?, Deed.delayed?, Deed.spawned?, Deed.size,
            Nat.zero_add]

/-- A piece of work adds less than it takes. -/
theorem Work.total_lt {k : Work} (htaken : k.taken ≠ []) :
    total k.readied + total (k.postponed.map Prod.snd) + total k.spawned < total k.taken := by
  rw [Work.readied, Work.postponed, Work.spawned, total_deeds]
  obtain ⟨origin, time⟩ := k
  cases origin with
  | owner a => exact absurd rfl htaken
  | dropped f => exact Nat.zero_lt_succ _
  | _ =>
      simp only [Work.deeds, List.map_cons, List.sum_cons, sizeAll_eq, Deed.size, Nat.zero_add]
      exact Nat.lt_succ_self _

theorem total_works {works : List Work} (htaken : ∀ k ∈ works, k.taken ≠ []) :
    total (works.flatMap Work.readied) + total ((works.flatMap Work.postponed).map Prod.snd) +
        total (works.flatMap Work.spawned) + works.length ≤
      total (works.filterMap Work.ready?) +
        total ((works.filterMap Work.delayed?).map Delayed.task) +
          total ((works.filterMap Work.ended?).map Waiting.job) := by
  induction works with
  | nil => exact Nat.le_refl 0
  | cons k rest ih =>
      have hfirst := Work.total_lt (htaken k List.mem_cons_self)
      have hrest := ih fun other hother => htaken other (List.mem_cons_of_mem k hother)
      simp only [Work.taken, total_append] at hfirst
      simp only [List.flatMap_cons, filterMap_works, List.map_append, total_append,
        List.length_cons]
      omega

/-- Work lowers the number of tasks and futures that are to come. -/
theorem World.Ran.size_le {w after : World} {works : List Work} (h : World.Ran w works after)
    (htaken : ∀ k ∈ works, k.taken ≠ []) : after.size + works.length ≤ w.size := by
  have hready := congrArg total h.ready_eq
  have hdelayed := total_perm (h.delayed_perm.map Delayed.task)
  have hfutures := total_perm (h.futures_perm.map Waiting.job)
  have hworks := total_works htaken
  have hspawned : (works.flatMap Work.deeds).filterMap Deed.spawned? = works.flatMap Work.spawned :=
    List.filterMap_flatMap
  simp only [total_append, List.map_append, map_task_numbered] at hready hdelayed hfutures
  rw [map_job_futuresFrom, hspawned] at hfutures
  rw [World.size_eq, World.size_eq]
  omega

end Size

end MapTiles.Script
