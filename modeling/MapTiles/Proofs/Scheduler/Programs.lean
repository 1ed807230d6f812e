import MapTiles.Proofs.Scheduler.Turns

/-!
Programs for a scheduler. Its owner performs items and lets it work, in any order. However often
tasks and futures bring about others, the scheduler comes to an end each time, and nothing that
could be done is left. All the while tasks keep their order, futures go by what the program sent
and dropped, and the clock does not go back. A program breaks off only if a time comes up that no
duration can tell.
-/

namespace MapTiles.Script

/-- The rounds of a drain, each as the world at its start and the work that it does. -/
def World.trail (limit : Option Instant) : Nat → World → List (World × List Work)
  | 0, _ => []
  | rounds + 1, w =>
    (w, w.works limit) ::
      match behaviour.round limit w with
      | (true, next) => trail limit rounds next
      | (false, _) => []

/-- The work of several rounds. -/
def worksOf (entries : List (World × List Work)) : List Work :=
  entries.flatMap Prod.snd

theorem worksOf_append (front back : List (World × List Work)) :
    worksOf (front ++ back) = worksOf front ++ worksOf back :=
  List.flatMap_append

/-- Whether the work of all rounds is lawful, by a ledger that is kept from each round to the next. -/
def Ledger.Governs : Ledger → List (World × List Work) → Prop
  | _, [] => True
  | ledger, (w, works) :: rest =>
    World.Lawful ledger w works ∧ Ledger.Governs (ledger.after works) rest

theorem Ledger.Governs.append {ledger : Ledger} {front back : List (World × List Work)}
    (h : ledger.Governs front) (hback : (ledger.after (worksOf front)).Governs back) :
    ledger.Governs (front ++ back) := by
  induction front generalizing ledger with
  | nil => exact hback
  | cons entry rest ih =>
      refine ⟨h.1, ih h.2 ?_⟩
      rwa [worksOf, List.flatMap_cons, Ledger.after_append] at hback

/-- What a drain comes to that starts at `w`. -/
structure World.Drained (ledger : Ledger) (limit : Option Instant) (w : World)
    (entries : List (World × List Work)) (last : World) : Prop where
  does : World.Does w (worksOf entries) last
  governs : ledger.Governs entries
  idle : World.Idle (ledger.after (worksOf entries)) limit last
  now_le : ∀ l, limit = some l → last.scheduler.now ≤ max w.scheduler.now l
  size_le : last.size ≤ w.size

variable {ledger : Ledger}

/-- A drain ends, since every round lowers the number of tasks and futures that are to come. -/
theorem drained (limit : Option Instant) (rounds : Nat) (w : World)
    (hordered : w.scheduler.Ordered) (htells : ledger.Tells w) (hrounds : w.size < rounds) :
    ∃ last, behaviour.drain? limit rounds w = some last ∧
      World.Drained ledger limit w (w.trail limit rounds) last := by
  induction rounds generalizing w ledger with
  | zero => exact absurd hrounds (Nat.not_lt_zero _)
  | succ rounds ih =>
      have hround := round_cases limit w
      rw [Behaviour.drain?, World.trail]
      generalize w.works limit = works, behaviour.round limit w = result at hround ⊢
      obtain ⟨progress, next⟩ := result
      have hlawful := hround.lawful hordered htells
      cases progress with
      | false =>
          obtain ⟨rfl, rfl, hidle⟩ := hround.stop hordered htells
          exact ⟨next, rfl, .refl next, ⟨hlawful, trivial⟩, hidle, fun l _ => Nat.le_max_left _ _,
            Nat.le_refl _⟩
      | true =>
          obtain ⟨hdoes, hsome, htaken, hclock⟩ := hround.progress
          have hsize : World.size next + works.length ≤ w.size := hdoes.size_le htaken
          have hpositive := List.length_pos_of_ne_nil hsome
          obtain ⟨last, hlast, hrest⟩ := ih next (hdoes.ordered hordered)
            (hdoes.tells ledger htells).2 (by omega)
          have hleft := hrest.size_le
          refine ⟨last, hlast, hdoes.trans hrest.does, ⟨hlawful, hrest.governs⟩, ?_, fun l hl => ?_,
            by omega⟩
          · rw [worksOf, List.flatMap_cons, Ledger.after_append]
            exact hrest.idle
          · have hlater := hrest.now_le l hl
            exact Nat.le_trans hlater (Nat.max_le.mpr ⟨hclock l hl, Nat.le_max_right _ _⟩)

/-- Moving the clock on does no work. -/
theorem World.does_advanceTo (w : World) (t : Instant) :
    World.Does w [] { w with scheduler := w.scheduler.advanceTo t } where
  ready_eq := (List.append_nil _).symm
  delayed_perm := .of_eq (List.append_nil _).symm
  added_eq := rfl
  furthest_le_iff := by simp [Scheduler.advanceTo]
  futures_perm := .of_eq (List.append_nil _).symm
  signals_eq := rfl
  log_eq := (List.append_nil _).symm
  now_le := Nat.le_max_left _ _
  times _ h := nomatch h
  onward := .nil
  ordered h := ⟨h.sorted, h.numbered⟩
  tells _ h := ⟨trivial, h.of_perm (.refl _) rfl rfl⟩

/-- The rounds of a drain up to a time. -/
def World.trailUntil (t : Instant) (rounds : Nat) (w : World) : List (World × List Work) :=
  World.trail (some t) rounds { w with scheduler := w.scheduler.advanceTo t }

theorem drained_until (t : Instant) (rounds : Nat) (w : World) (hordered : w.scheduler.Ordered)
    (htells : ledger.Tells w) (hrounds : w.size < rounds) :
    ∃ last, behaviour.drainUntil? t rounds w = some last ∧
      World.Drained ledger (some t) w (w.trailUntil t rounds) last ∧
      last.scheduler.now = max w.scheduler.now t := by
  have hmoved := w.does_advanceTo t
  obtain ⟨last, hlast, hdrained⟩ := drained (some t) rounds
    { w with scheduler := w.scheduler.advanceTo t } (hmoved.ordered hordered)
    (hmoved.tells ledger htells).2 hrounds
  have hlow : max w.scheduler.now t ≤ last.scheduler.now := hdrained.does.now_le
  have hhigh : last.scheduler.now ≤ max (max w.scheduler.now t) t := hdrained.now_le t rfl
  rw [Nat.max_assoc, Nat.max_self] at hhigh
  refine ⟨last, hlast, ⟨hmoved.trans hdrained.does, hdrained.governs, hdrained.idle,
    fun l hl => ?_, hdrained.size_le⟩, Nat.le_antisymm hhigh hlow⟩
  cases hl
  exact hhigh

/-- The rounds in which a world works when it is driven. -/
def World.story (w : World) (way : Drive) : List (World × List Work) :=
  let rounds := w.size + 1
  match way with
  | .drain => w.trail none rounds
  | .settle => w.trailUntil w.scheduler.now rounds
  | .untilTime t => w.trailUntil t rounds
  | .advance d => w.trailUntil (w.scheduler.now + d) rounds
  | .step =>
    w.trail (some w.scheduler.now) rounds ++
      match behaviour.drain? (some w.scheduler.now) rounds w with
      | none => []
      | some settled =>
        match settled.scheduler.nextDue? with
        | none => []
        | some due => World.trailUntil due rounds settled

/-- How a world is left when it was driven. `moved` is what a step tells. -/
def World.Finished (ledger : Ledger) (w : World) (way : Drive) (moved : Option Bool)
    (last : World) : Prop :=
  match way with
  | .drain => World.Idle ledger none last ∧ last.scheduler.delayed = []
  | .settle => World.Idle ledger (some w.scheduler.now) last ∧ last.scheduler.now = w.scheduler.now
  | .untilTime t =>
    World.Idle ledger (some t) last ∧ last.scheduler.now = max w.scheduler.now t
  | .advance d => World.Idle ledger (some (w.scheduler.now + d)) last ∧
      last.scheduler.now = w.scheduler.now + d
  | .step =>
    World.Idle ledger (some last.scheduler.now) last ∧
      (moved = some false ∧ last.scheduler.now = w.scheduler.now ∧ last.scheduler.delayed = [] ∨
        moved = some true ∧ w.scheduler.now < last.scheduler.now)

/-- A world that steps to the next delayed task settles first, and then works up to the time at which
that task is due. -/
theorem driven_step (w : World) (hordered : w.scheduler.Ordered) (htells : ledger.Tells w) :
    ∃ moved last, behaviour.drive? (w.size + 1) .step w = some (moved, last) ∧
      World.Does w (worksOf (w.story .step)) last ∧ ledger.Governs (w.story .step) ∧
      World.Finished (ledger.after (worksOf (w.story .step))) w .step moved last := by
  have hrounds := Nat.lt_succ_self w.size
  obtain ⟨settled, hsettled, hdrained⟩ :=
    drained (some w.scheduler.now) (w.size + 1) w hordered htells hrounds
  have hnow : settled.scheduler.now = w.scheduler.now := by
    refine Nat.le_antisymm ?_ hdrained.does.now_le
    have hhigh := hdrained.now_le w.scheduler.now rfl
    rwa [Nat.max_self] at hhigh
  have hstory : w.story .step = w.trail (some w.scheduler.now) (w.size + 1) ++
      match settled.scheduler.nextDue? with
      | none => []
      | some due => World.trailUntil due (w.size + 1) settled := by
    simp only [World.story, hsettled]
  rw [hstory]
  cases hdue : settled.scheduler.nextDue? with
  | none =>
      have hnone : settled.scheduler.delayed = [] := by
        simpa [Scheduler.nextDue?] using hdue
      rw [List.append_nil]
      refine ⟨some false, settled, ?_, hdrained.does, hdrained.governs, hnow ▸ hdrained.idle,
        .inl ⟨rfl, hnow, hnone⟩⟩
      simp [Behaviour.drive?, Behaviour.step?, hsettled, hdue]
  | some due =>
      have hsize := hdrained.size_le
      obtain ⟨last, hlast, hmore, hclock⟩ := drained_until due (w.size + 1) settled
        (hdrained.does.ordered hordered) (hdrained.does.tells ledger htells).2 (by omega)
      have hlate : w.scheduler.now < due := by
        obtain ⟨d, hd, rfl⟩ := Option.map_eq_some_iff.mp hdue
        obtain ⟨l, hl, hafter⟩ := hdrained.idle.later d (List.mem_of_head? hd)
        cases hl
        exact hafter
      have hthere : last.scheduler.now = due := by
        rw [hclock, hnow]
        exact Nat.max_eq_right (Nat.le_of_lt hlate)
      refine ⟨some true, last, ?_, ?_, hdrained.governs.append hmore.governs, ?_,
        .inr ⟨rfl, hthere ▸ hlate⟩⟩
      · simp [Behaviour.drive?, Behaviour.step?, hsettled, hdue, hlast]
      · rw [worksOf_append]
        exact hdrained.does.trans hmore.does
      · rw [worksOf_append, Ledger.after_append]
        exact hthere ▸ hmore.idle

/-- However a world is driven, it comes to an end and leaves nothing that could be done. -/
theorem driven (w : World) (hordered : w.scheduler.Ordered) (htells : ledger.Tells w)
    (way : Drive) :
    ∃ moved last, behaviour.drive? (w.size + 1) way w = some (moved, last) ∧
      World.Does w (worksOf (w.story way)) last ∧ ledger.Governs (w.story way) ∧
      World.Finished (ledger.after (worksOf (w.story way))) w way moved last := by
  have hrounds := Nat.lt_succ_self w.size
  have huntil : ∀ t, ∃ last, behaviour.drainUntil? t (w.size + 1) w = some last ∧
      World.Drained ledger (some t) w (w.trailUntil t (w.size + 1)) last ∧
      last.scheduler.now = max w.scheduler.now t := fun t =>
    drained_until t (w.size + 1) w hordered htells hrounds
  cases way with
  | drain =>
      obtain ⟨last, hlast, hdrained⟩ := drained none (w.size + 1) w hordered htells hrounds
      refine ⟨none, last, by simp [Behaviour.drive?, hlast], hdrained.does, hdrained.governs,
        hdrained.idle, List.eq_nil_iff_forall_not_mem.mpr fun d hd => ?_⟩
      obtain ⟨l, hl, -⟩ := hdrained.idle.later d hd
      cases hl
  | settle =>
      obtain ⟨last, hlast, hdrained, hnow⟩ := huntil w.scheduler.now
      exact ⟨none, last, by simp [Behaviour.drive?, hlast], hdrained.does, hdrained.governs,
        hdrained.idle, hnow.trans (Nat.max_self _)⟩
  | untilTime t =>
      obtain ⟨last, hlast, hdrained, hnow⟩ := huntil t
      exact ⟨none, last, by simp [Behaviour.drive?, hlast], hdrained.does, hdrained.governs,
        hdrained.idle, hnow⟩
  | advance d =>
      obtain ⟨last, hlast, hdrained, hnow⟩ := huntil (w.scheduler.now + d)
      exact ⟨none, last, by simp [Behaviour.drive?, hlast], hdrained.does, hdrained.governs,
        hdrained.idle, hnow.trans (Nat.max_eq_right (Nat.le_add_right _ _))⟩
  | step => exact driven_step w hordered htells

/-- What the owner of a scheduler can do. -/
inductive Command where
  | act (a : Action)
  | drive (way : Drive)

/-- What a command makes of a world. There is no result if a time comes up that no duration can
tell. -/
def World.obey? (w : World) : Command → Option World
  | .act a => w.perform? a
  | .drive way => (w.drive? way).map Prod.snd

/-- What a program makes of a world. -/
def World.obeyAll? : World → List Command → Option World
  | w, [] => some w
  | w, c :: rest => (w.obey? c).bind fun next => obeyAll? next rest

/-- What a command would make of a world if every time could be told. -/
def World.obey (w : World) : Command → World
  | .act a => a.run w
  | .drive way => ((behaviour.drive? (w.size + 1) way w).map Prod.snd).getD w

def World.obeyAll (w : World) (program : List Command) : World :=
  program.foldl World.obey w

/-- What is done at a command, each time with the world at the start. -/
def World.response (w : World) : Command → List (World × List Work)
  | .act a => [(w, [⟨.owner a, w.scheduler.now⟩])]
  | .drive way => w.story way

/-- All that is done in a program. -/
def World.history : World → List Command → List (World × List Work)
  | _, [] => []
  | w, c :: rest => w.response c ++ history (w.obey c) rest

/-- The times that come up at a command: the one up to which the clock is moved on, and those at which
the tasks that are delayed are due. -/
def World.told (w : World) (c : Command) : List Instant :=
  (match c with
    | .act _ => []
    | .drive way => (way.target? w.scheduler.now).toList) ++
    ((worksOf (w.response c)).flatMap Work.postponed).map Prod.fst

/-- All times that come up in a program. -/
def World.toldAll : World → List Command → List Instant
  | _, [] => []
  | w, c :: rest => w.told c ++ toldAll (w.obey c) rest

theorem obeyed (w : World) (hordered : w.scheduler.Ordered) (htells : ledger.Tells w)
    (c : Command) :
    World.Does w (worksOf (w.response c)) (w.obey c) ∧ ledger.Governs (w.response c) := by
  cases c with
  | act a =>
      refine ⟨w.does_owner a, ⟨⟨fun _ _ h => ?_, fun _ _ h => ?_, trivial, trivial⟩, trivial⟩⟩
      all_goals cases List.mem_singleton.mp h
  | drive way =>
      obtain ⟨moved, last, hlast, hdoes, hgoverns, -⟩ := driven w hordered htells way
      have hobeyed : w.obey (.drive way) = last := by
        simp [World.obey, hlast]
      rw [hobeyed]
      exact ⟨hdoes, hgoverns⟩

theorem history_does (program : List Command) (w : World) (hordered : w.scheduler.Ordered)
    (htells : ledger.Tells w) :
    World.Does w (worksOf (w.history program)) (w.obeyAll program) ∧
      ledger.Governs (w.history program) := by
  induction program generalizing w ledger with
  | nil => exact ⟨.refl w, trivial⟩
  | cons c rest ih =>
      obtain ⟨hdoes, hgoverns⟩ := obeyed w hordered htells c
      obtain ⟨hlater, hothers⟩ := ih (w.obey c) (hdoes.ordered hordered)
        (hdoes.tells ledger htells).2
      rw [World.history, worksOf_append]
      exact ⟨hdoes.trans hlater, hgoverns.append hothers⟩

/-- Work that starts within the times that can be told stays within them if the times at which delayed
tasks are due can be told. -/
theorem World.Does.within?_eq_some_iff {w after next : World} {works : List Work}
    (h : World.Does w works after) {latest : Instant} (hwithin : w.scheduler.furthest ≤ latest) :
    after.within? latest = some next ↔
      next = after ∧ ∀ t ∈ (works.flatMap Work.postponed).map Prod.fst, t ≤ latest := by
  rw [System.within?, Option.ite_none_right_eq_some, h.furthest_le_iff, and_iff_right hwithin,
    List.forall_mem_map, Option.some.injEq, eq_comm, and_comm]

/-- A world that is driven comes to an end unless a time comes up that cannot be told. -/
theorem drive?_cases (w : World) (hordered : w.scheduler.Ordered) (htells : ledger.Tells w)
    (hwithin : w.scheduler.furthest ≤ Duration.longest) (way : Drive) :
    ∃ moved last, w.obey (.drive way) = last ∧
      World.Finished (ledger.after (worksOf (w.story way))) w way moved last ∧
      ∀ entry, w.drive? way = some entry ↔
        entry = (moved, last) ∧ ∀ t ∈ w.told (.drive way), t ≤ Duration.longest := by
  obtain ⟨moved, last, hlast, hdoes, -, hfinished⟩ := driven w hordered htells way
  refine ⟨moved, last, by simp [World.obey, hlast], hfinished, fun entry => ?_⟩
  have htarget : ((way.target? w.scheduler.now).any fun t => decide (Duration.longest < t)) = true ↔
      ¬∀ t ∈ (way.target? w.scheduler.now).toList, t ≤ Duration.longest := by
    cases way.target? w.scheduler.now <;> simp
  rw [World.drive?, Behaviour.driveWithin?, Option.ite_none_left_eq_some, htarget, not_not, hlast, World.told,
    List.forall_mem_append]
  simp only [Option.bind_some, Option.map_eq_some_iff, hdoes.within?_eq_some_iff hwithin,
    World.response]
  constructor
  · rintro ⟨htime, _, ⟨rfl, hdue⟩, rfl⟩
    exact ⟨rfl, htime, hdue⟩
  · rintro ⟨rfl, htime, hdue⟩
    exact ⟨htime, last, ⟨rfl, hdue⟩, rfl⟩

theorem obey?_eq_some_iff (w : World) (hordered : w.scheduler.Ordered) (htells : ledger.Tells w)
    (hwithin : w.scheduler.furthest ≤ Duration.longest) (c : Command) {next : World} :
    w.obey? c = some next ↔ next = w.obey c ∧ ∀ t ∈ w.told c, t ≤ Duration.longest := by
  cases c with
  | act a => exact (w.does_owner a).within?_eq_some_iff hwithin
  | drive way =>
      obtain ⟨moved, last, hobey, -, hdrive⟩ := drive?_cases w hordered htells hwithin way
      simp only [World.obey?, Option.map_eq_some_iff, hdrive, hobey]
      constructor
      · rintro ⟨_, ⟨rfl, htold⟩, rfl⟩
        exact ⟨rfl, htold⟩
      · rintro ⟨rfl, htold⟩
        exact ⟨_, ⟨rfl, htold⟩, rfl⟩

theorem obeyAll?_eq_some_iff (program : List Command) (w : World) (hordered : w.scheduler.Ordered)
    (htells : ledger.Tells w) (hwithin : w.scheduler.furthest ≤ Duration.longest) {last : World} :
    w.obeyAll? program = some last ↔
      last = w.obeyAll program ∧ ∀ t ∈ w.toldAll program, t ≤ Duration.longest := by
  induction program generalizing w ledger with
  | nil => simp [World.obeyAll?, World.toldAll, World.obeyAll, eq_comm]
  | cons c rest ih =>
      obtain ⟨hdoes, -⟩ := obeyed w hordered htells c
      have hlater (htold : ∀ t ∈ w.told c, t ≤ Duration.longest) :
          (w.obey c).scheduler.furthest ≤ Duration.longest := by
        refine (hdoes.furthest_le_iff _).mpr ⟨hwithin, fun d hd => htold d.1 ?_⟩
        exact List.mem_append_right _ (List.mem_map.mpr ⟨d, hd, rfl⟩)
      have hrest (htold : ∀ t ∈ w.told c, t ≤ Duration.longest) :=
        ih (w.obey c) (hdoes.ordered hordered) (hdoes.tells ledger htells).2 (hlater htold)
      rw [World.obeyAll?, World.toldAll, Option.bind_eq_some_iff, List.forall_mem_append]
      simp only [obey?_eq_some_iff w hordered htells hwithin]
      constructor
      · rintro ⟨next, ⟨rfl, htold⟩, hmore⟩
        obtain ⟨hlast, hothers⟩ := (hrest htold).mp hmore
        exact ⟨hlast, htold, hothers⟩
      · rintro ⟨hlast, htold, hothers⟩
        exact ⟨_, ⟨rfl, htold⟩, (hrest htold).mpr ⟨hlast, hothers⟩⟩

/-- Whatever a program comes to, no time came up in it that cannot be told. -/
theorem within_obeyAll? (program : List Command) {w last : World}
    (hwithin : w.scheduler.furthest ≤ Duration.longest) (h : w.obeyAll? program = some last) :
    last.scheduler.furthest ≤ Duration.longest := by
  have htold {w next : World} (h : w.within? Duration.longest = some next) :
      next.scheduler.furthest ≤ Duration.longest := by
    obtain ⟨hle, hsame⟩ := Option.ite_none_right_eq_some.mp h
    exact Option.some.inj hsame ▸ hle
  induction program generalizing w with
  | nil => exact Option.some.inj h ▸ hwithin
  | cons c rest ih =>
      obtain ⟨next, hnext, hlast⟩ := Option.bind_eq_some_iff.mp h
      refine ih ?_ hlast
      cases c with
      | act a => exact htold hnext
      | drive way =>
          obtain ⟨⟨moved, driven⟩, hdriven, rfl⟩ := Option.map_eq_some_iff.mp hnext
          rw [World.drive?, Behaviour.driveWithin?] at hdriven
          obtain ⟨-, hdriven⟩ := Option.ite_none_left_eq_some.mp hdriven
          obtain ⟨_, -, hfound⟩ := Option.bind_eq_some_iff.mp hdriven
          obtain ⟨_, hfound, hsame⟩ := Option.map_eq_some_iff.mp hfound
          exact (Prod.mk.inj hsame).2 ▸ htold hfound

/-- A result that is there exactly if no time is too late is missing exactly if one is. -/
theorem eq_none_iff_exists_late {α : Type} {result : Option α} {value : α} {times : List Instant}
    {latest : Instant}
    (h : ∀ found, result = some found ↔ found = value ∧ ∀ t ∈ times, t ≤ latest) :
    result = none ↔ ∃ t ∈ times, latest < t := by
  rw [Option.eq_none_iff_forall_ne_some]
  constructor
  · intro hnone
    by_contra hall
    refine hnone value ((h value).mpr ⟨rfl, fun t ht => Nat.le_of_not_lt fun hlate => ?_⟩)
    exact hall ⟨t, ht, hlate⟩
  · rintro ⟨t, ht, hlate⟩ found hfound
    exact Nat.not_lt.mpr (((h found).mp hfound).2 t ht) hlate

/-- In every program ready tasks run in the order in which they became ready. A delayed task runs
when its time has come, if no task is ready, every future waits for a signal that was neither sent
nor dropped, and it is the next one. A future is complete only if all that it waits for was sent.
The clock never goes back. Each task and future comes to its end at most once, and none is lost.
Whenever the scheduler is driven it comes to an end, and then no task is ready, every future waits
for a signal that was neither sent nor dropped, and a delayed task is left only if it is due later
than the time up to which the scheduler was to work. What was sent and dropped is what the program
did. Only a time that no duration can tell breaks a program off. -/
theorem programs_run_in_order (program : List Command) :
    (World.start.obeyAll? program = none ↔
      ∃ t ∈ World.start.toldAll program, Duration.longest < t) ∧
    ∀ w, World.start.obeyAll? program = some w →
      let entries := World.start.history program
      World.Ran World.start (worksOf entries) w ∧ Ledger.Governs [] entries ∧
        ∀ way, let ledger := Ledger.after [] (worksOf (entries ++ w.story way))
          (w.drive? way = none ↔ ∃ t ∈ w.told (.drive way), Duration.longest < t) ∧
            ∀ moved last, w.drive? way = some (moved, last) →
              World.Finished ledger w way moved last := by
  have hprogram := @obeyAll?_eq_some_iff [] program World.start .start Ledger.tells_start
    (Nat.zero_le _)
  refine ⟨eq_none_iff_exists_late fun _ => hprogram, ?_⟩
  intro w hw entries
  have hwithin := within_obeyAll? program (Nat.zero_le _) hw
  obtain ⟨rfl, -⟩ := hprogram.mp hw
  obtain ⟨hdoes, hgoverns⟩ := history_does program World.start .start Ledger.tells_start
  refine ⟨hdoes.toRan, hgoverns, fun way => ?_⟩
  intro ledger
  obtain ⟨moved, last, -, hfinished, hdrive⟩ := drive?_cases _ (hdoes.ordered .start)
    (hdoes.tells [] Ledger.tells_start).2 hwithin way
  refine ⟨eq_none_iff_exists_late hdrive, fun moved' last' hdriven => ?_⟩
  obtain ⟨hsame, -⟩ := (hdrive _).mp hdriven
  cases hsame
  simp only [ledger, worksOf_append, Ledger.after_append]
  exact hfinished

/-- Of two futures the one for which a signal was sent is complete, and so is what it goes on with. The
other one still waits, for the second signal on the channel. -/
theorem programs_run_in_order_half_sent :
    let program : List Command := [.act (.spawn "heard" ["a"] [.task "late" 5 []]),
      .act (.spawn "waiting" ["a"] []), .act (.send "a"), .drive .drain]
    ∃ w, World.start.obeyAll? program = some w ∧
      w.state.log = [("heard", 0), ("late", 5)] ∧ w.scheduler.now = 5 ∧
      w.scheduler.futures.map (fun f => (f.name, f.waits)) = [("waiting", [("a", 1)])] ∧
      Ledger.after [] (worksOf (World.start.history program)) = [("a", .sent), ("a", .pending)] ∧
      Ledger.Governs [] (World.start.history program) := by
  intro program
  have hresult : (World.start.obeyAll? program).map (fun w => (w.state.log, w.scheduler.now,
      w.scheduler.futures.map fun f => (f.name, f.waits))) =
        some ([("heard", 0), ("late", 5)], 5, [("waiting", [("a", 1)])]) := rfl
  obtain ⟨w, hw, hsame⟩ := Option.map_eq_some_iff.mp hresult
  obtain ⟨hlog, hnow, hfutures⟩ := Prod.mk.inj hsame |>.imp_right Prod.mk.inj
  exact ⟨w, hw, hlog, hnow, hfutures, by decide +kernel,
    ((programs_run_in_order program).2 w hw).2.1⟩

/-- A task that is due later than any duration can tell breaks a program off. -/
example : World.start.obeyAll? [.act (.task "a" 1 []), .drive .drain,
    .act (.task "b" Duration.longest [])] = none := rfl

end MapTiles.Script
