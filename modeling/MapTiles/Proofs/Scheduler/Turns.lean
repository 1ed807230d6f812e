import MapTiles.Proofs.Scheduler.Rounds
import MapTiles.Proofs.Scheduler.Works

/-!
Rounds of a scripted world. A round with progress does some work: it runs the first ready task, or
ends futures, or runs the first delayed task. The latter only happens if no task is ready and every
future waits for a signal. Every piece of work uses up at least one task or future that was to come,
so a world cannot go on for more rounds than it has of them.
-/

namespace MapTiles.Script

/-- The first delayed task, unless it is due after the limit. -/
def World.overdue (limit : Option Instant) (w : World) : List Work :=
  match w.scheduler.delayed with
  | d :: _ =>
    if limit.any fun l => decide (l < d.due) then []
    else [⟨.delayed d, max w.scheduler.now d.due⟩]
  | [] => []

/-- The work of a round. -/
def World.works (limit : Option Instant) (w : World) : List Work :=
  match w.scheduler.ready with
  | job :: _ => [⟨.ready job, w.scheduler.now⟩]
  | [] =>
    match polled w.scheduler.futures
        { w with scheduler := { w.scheduler with futures := [] } } with
    | [] => w.overdue limit
    | ended => ended

/-- What a round comes to. -/
inductive World.Round (limit : Option Instant) (w : World) : List Work → Bool → World → Prop
  | ready (job : Job) (after : World) (hready : w.scheduler.ready.head? = some job)
      (hdoes : World.Does w [⟨.ready job, w.scheduler.now⟩] after)
      (hnow : after.scheduler.now = w.scheduler.now) :
      Round limit w [⟨.ready job, w.scheduler.now⟩] true after
  | futures (ended : List Work) (after : World) (hready : w.scheduler.ready = [])
      (hsome : ended ≠ []) (hended : ∀ k ∈ ended, k.ended?.isSome = true)
      (hdoes : World.Does w ended after)
      (hnow : after.scheduler.now = w.scheduler.now) : Round limit w ended true after
  | delayed (d : Delayed Job) (later : List (Delayed Job)) (after : World)
      (hready : w.scheduler.ready = []) (hwaits : ∀ f ∈ w.scheduler.futures, World.Waits w f)
      (hdelayed : w.scheduler.delayed = d :: later)
      (hlimit : ∀ l, limit = some l → d.due ≤ l)
      (hdoes : World.Does w [⟨.delayed d, max w.scheduler.now d.due⟩] after)
      (hnow : after.scheduler.now = max w.scheduler.now d.due) :
      Round limit w [⟨.delayed d, max w.scheduler.now d.due⟩] true after
  | idle (hready : w.scheduler.ready = []) (hwaits : ∀ f ∈ w.scheduler.futures, World.Waits w f)
      (hdelayed : ∀ d later, w.scheduler.delayed = d :: later → ∃ l, limit = some l ∧ l < d.due) :
      Round limit w [] false w

variable {limit : Option Instant} {w : World}

/-- Taking a task and running it. -/
theorem does_task {k : Work} {rest : World} {job : Job} (htakes : World.Takes w k rest)
    (hdeeds : k.deeds = .note job.name :: deedsAll job.follow)
    (htells : ∀ ledger : Ledger, ledger.Tells w → k.Heard ledger ∧ ledger.Tells rest) :
    World.Does w [k] (behaviour.run job rest) ∧
      (behaviour.run job rest).scheduler.now = k.time := by
  have hrun : behaviour.run job rest = execute k.deeds rest := by
    rw [hdeeds, behaviour]
    exact runAll_eq job.follow _
  rw [hrun]
  exact ⟨.of_takes htakes htells, (World.Adds.execute k.deeds rest).now_eq.trans htakes.now_eq⟩

theorem overdue_cases (limit : Option Instant) (w : World) :
    (w.overdue limit = [] ∧ behaviour.runDelayed? limit w = none ∧
        ∀ d later, w.scheduler.delayed = d :: later → ∃ l, limit = some l ∧ l < d.due) ∨
      ∃ (d : Delayed Job) (later : List (Delayed Job)) (after : World),
        w.scheduler.delayed = d :: later ∧ (∀ l, limit = some l → d.due ≤ l) ∧
        w.overdue limit = [⟨.delayed d, max w.scheduler.now d.due⟩] ∧
        behaviour.runDelayed? limit w = some after ∧
        World.Does w [⟨.delayed d, max w.scheduler.now d.due⟩] after ∧
        after.scheduler.now = max w.scheduler.now d.due := by
  unfold World.overdue Behaviour.runDelayed? Scheduler.takeDelayed?
  cases hdelayed : w.scheduler.delayed with
  | nil => exact .inl ⟨rfl, rfl, nofun⟩
  | cons d later =>
      by_cases hlimit : (limit.any fun l => decide (l < d.due)) = true
      · refine .inl ⟨if_pos hlimit, by simp [hlimit], fun e rest hsame => ?_⟩
        obtain ⟨l, hl, hlate⟩ := (Option.any_eq_true _ _).mp hlimit
        obtain ⟨rfl, -⟩ := List.cons.inj hsame
        exact ⟨l, hl, of_decide_eq_true hlate⟩
      · have htakes : World.Takes w ⟨.delayed d, max w.scheduler.now d.due⟩ { w with
            scheduler := Scheduler.advanceTo { w.scheduler with delayed := later } d.due } :=
          ⟨rfl, hdelayed, rfl, rfl, .refl _, rfl, rfl, Nat.le_max_left _ _, rfl⟩
        obtain ⟨hdoes, hnow⟩ := does_task htakes rfl fun _ h =>
          ⟨trivial, h.of_perm (.refl _) rfl rfl⟩
        refine .inr ⟨d, later, _, rfl, fun l hl => ?_, if_neg hlimit, ?_, hdoes, hnow⟩
        · subst hl
          simpa using hlimit
        · dsimp only
          rw [if_neg hlimit]
          rfl

theorem round_cases (limit : Option Instant) (w : World) :
    World.Round limit w (w.works limit) (behaviour.round limit w).1 (behaviour.round limit w).2 := by
  unfold Behaviour.round World.works
  cases hready : w.scheduler.ready with
  | cons job rest =>
      have htakes : World.Takes w ⟨.ready job, w.scheduler.now⟩
          { w with scheduler := { w.scheduler with ready := rest } } :=
        ⟨hready, rfl, rfl, rfl, .refl _, rfl, rfl, Nat.le_refl _, rfl⟩
      obtain ⟨hdoes, hnow⟩ := does_task htakes rfl fun _ h =>
        ⟨trivial, h.of_perm (.refl _) rfl rfl⟩
      rw [Behaviour.runReady?_cons hready]
      exact .ready job _ (by rw [hready]; rfl) hdoes hnow
  | nil =>
      let bare : World := { w with scheduler := { w.scheduler with futures := [] } }
      obtain ⟨pending, completed, after, heach, hdoes, hnow, hcases⟩ :=
        does_pollEach w.scheduler.futures bare
      have hpolls : behaviour.pollFutures w = (completed, after.holding pending) := by
        unfold Behaviour.pollFutures
        dsimp only
        rw [heach]
        rfl
      have hwhole : bare.holding w.scheduler.futures = w := by
        simp [bare, World.holding]
      rw [Behaviour.runReady?_nil hready, hpolls]
      change World.Round limit w (match polled w.scheduler.futures bare with
        | [] => w.overdue limit
        | ended => ended) _ _
      rcases hcases with ⟨hnone, rfl, rfl, rfl, hwaits⟩ | ⟨hended, rfl⟩
      · rw [hnone, hwhole]
        rcases overdue_cases limit w with ⟨hnothing, hstop, hlater⟩ |
          ⟨d, later, after, hdelayed, hlimit, hwork, hgoes, hdone, hclock⟩
        · simp only [hstop]
          rw [hnothing]
          exact .idle hready hwaits hlater
        · simp only [hgoes]
          rw [hwork]
          exact .delayed d later after hready hwaits hdelayed hlimit hdone hclock
      · have hall := hdoes []
        rw [List.nil_append, hwhole, List.nil_append] at hall
        cases hpolled : polled w.scheduler.futures bare with
        | nil => exact absurd hpolled hended
        | cons first more =>
            rw [hpolled] at hall
            refine .futures _ _ hready (List.cons_ne_nil _ _) (fun k hk => ?_) hall hnow
            have hmem : k ∈ polled w.scheduler.futures bare := hpolled.symm ▸ hk
            exact ended_polled hmem

namespace World.Round

variable {works : List Work} {after : World}

/-- A round with progress does some work, and all of it takes up what waited. The clock moves on no
further than the limit. -/
theorem progress (h : World.Round limit w works true after) :
    World.Does w works after ∧ works ≠ [] ∧ (∀ k ∈ works, k.taken ≠ []) ∧
      ∀ l, limit = some l → after.scheduler.now ≤ max w.scheduler.now l := by
  have hstays : after.scheduler.now = w.scheduler.now → ∀ l, limit = some l →
      after.scheduler.now ≤ max w.scheduler.now l := fun hnow l _ => hnow ▸ Nat.le_max_left _ _
  cases h with
  | ready job _ _ hdoes hnow =>
      exact ⟨hdoes, List.cons_ne_nil _ _, by simp [Work.taken, Work.ready?], hstays hnow⟩
  | futures _ _ _ hsome hended hdoes hnow =>
      refine ⟨hdoes, hsome, fun k hk hnone => ?_, hstays hnow⟩
      obtain ⟨f, hf⟩ := Option.isSome_iff_exists.mp (hended k hk)
      simp [Work.taken, hf] at hnone
  | delayed d _ _ _ _ _ hlimit hdoes hnow =>
      refine ⟨hdoes, List.cons_ne_nil _ _, by simp [Work.taken, Work.delayed?], fun l hl => ?_⟩
      have hdue := hlimit l hl
      rw [hnow]
      exact Nat.max_le.mpr ⟨Nat.le_max_left _ _, Nat.le_trans hdue (Nat.le_max_right _ _)⟩

end World.Round

/-- A world in which nothing can be done up to a limit: no task is ready, every future waits for a
signal that, as the ledger has it, was neither sent nor dropped, and every delayed task is due after
the limit. -/
structure World.Idle (ledger : Ledger) (limit : Option Instant) (w : World) : Prop where
  ready : w.scheduler.ready = []
  waits : ∀ f ∈ w.scheduler.futures, ledger.unsent? f.waits = some .pending
  later : ∀ d ∈ w.scheduler.delayed, ∃ l, limit = some l ∧ l < d.due

variable {ledger : Ledger}

/-- A round without progress finds nothing that it can do. -/
theorem World.Round.stop {works : List Work} {after : World}
    (h : World.Round limit w works false after) (hordered : w.scheduler.Ordered)
    (htells : ledger.Tells w) : works = [] ∧ after = w ∧ World.Idle ledger limit w := by
  cases h with
  | idle hready hwaits hlater =>
      refine ⟨rfl, rfl, hready, fun f hf => htells.unsent?_of_waits hf (hwaits f hf), fun d hd => ?_⟩
      cases hdelayed : w.scheduler.delayed with
      | nil => cases hdelayed ▸ hd
      | cons first rest =>
          obtain ⟨l, hl, hlate⟩ := hlater first rest hdelayed
          refine ⟨l, hl, ?_⟩
          rcases List.mem_cons.mp (hdelayed ▸ hd) with rfl | hmore
          · exact hlate
          · rcases hordered.before hdelayed d hmore with hdue | ⟨hdue, -⟩
            · exact Nat.lt_trans hlate hdue
            · exact hdue ▸ hlate

/-- What holds of the work that a world does in a round, when the ledger tells what has become of all
waits before it. -/
structure World.Lawful (ledger : Ledger) (w : World) (works : List Work) : Prop where
  /-- A ready task runs if it is the first one. -/
  ready : ∀ job time, ⟨.ready job, time⟩ ∈ works → w.scheduler.ready.head? = some job
  /-- A delayed task runs if no task is ready and every future waits for a signal that was neither
  sent nor dropped, and if it comes before all other delayed tasks. When it runs, its time has
  come. -/
  delayed : ∀ d time, ⟨.delayed d, time⟩ ∈ works →
    w.scheduler.ready = [] ∧
      (∀ f ∈ w.scheduler.futures, ledger.unsent? f.waits = some .pending) ∧
      d ∈ w.scheduler.delayed ∧ (∀ e ∈ w.scheduler.delayed, e = d ∨ d.Before e) ∧ d.due ≤ time
  /-- A future is complete if all that it waits for was sent, and dropped if the first of it that was
  not sent was dropped. -/
  futures : ledger.Hears works

theorem World.Round.lawful {works : List Work} {progress : Bool} {after : World}
    (h : World.Round limit w works progress after) (hordered : w.scheduler.Ordered)
    (htells : ledger.Tells w) : World.Lawful ledger w works := by
  cases h with
  | ready job _ hready hdoes =>
      refine ⟨fun other time hmem => ?_, fun d time hmem => ?_, (hdoes.tells ledger htells).1⟩
      · cases List.mem_singleton.mp hmem
        exact hready
      · cases List.mem_singleton.mp hmem
  | futures _ _ _ _ hended hdoes =>
      refine ⟨fun job time hmem => ?_, fun d time hmem => ?_, (hdoes.tells ledger htells).1⟩
      all_goals cases hended _ hmem
  | delayed d later _ hready hwaits hdelayed _ hdoes =>
      refine ⟨fun other time hmem => ?_, fun other time hmem => ?_, (hdoes.tells ledger htells).1⟩
      · cases List.mem_singleton.mp hmem
      · cases List.mem_singleton.mp hmem
        refine ⟨hready, fun f hf => htells.unsent?_of_waits hf (hwaits f hf), ?_, fun e he => ?_,
          Nat.le_max_right _ _⟩
        · rw [hdelayed]
          exact List.mem_cons_self
        · rw [hdelayed] at he
          exact (List.mem_cons.mp he).imp_right (hordered.before hdelayed e)
  | idle => exact ⟨nofun, nofun, trivial⟩

end MapTiles.Script
