import MapTiles.Proofs.Source.Orderly

/-!
The loads of a source over a whole run. A load that was started flies, or its outcome waits, or
its outcome was taken, and it was taken once.
-/

namespace MapTiles.Source

variable {κ P : Type}

/-- The outcome that an act makes the source take, and how the source takes it. -/
def World.taken? (w : World κ P) (a : Act P) : Option (Tile × Outcome P × Completion) := do
  let (message, now) ← World.delivered? w a
  let (tile, outcome) ← message.outcome?
  let s ← w.state.source
  return (tile, outcome, (s.loading.complete tile outcome now).2)

/-- The acts of a run, each with the world in which it takes place. -/
def World.trace (loader : Loader κ P) : World κ P → List (Act P) → List (World κ P × Act P)
  | _, [] => []
  | w, a :: rest => (w, a) :: trace loader (World.act loader w a) rest

/-- The outcomes that loads brought in a run, in order. -/
def World.brought (loader : Loader κ P) (w : World κ P) (acts : List (Act P)) :
    List (Tile × Outcome P) :=
  (World.trace loader w acts).filterMap fun (w, a) => World.brought? w a

/-- The outcomes that the source took in a run, in order, each with how it was taken. -/
def World.taken (loader : Loader κ P) (w : World κ P) (acts : List (Act P)) :
    List (Tile × Outcome P × Completion) :=
  (World.trace loader w acts).filterMap fun (w, a) => World.taken? w a

/-- The account of all loads of a run. -/
structure World.Balanced (brought : List (Tile × Outcome P))
    (taken : List (Tile × Outcome P × Completion)) (w : World κ P) : Prop where
  /-- A load that was started has brought its outcome or flies. -/
  requested : (World.requested w).Perm (brought.map Prod.fst ++ World.flying w)
  /-- Outcomes are taken in the order in which they were brought, each once. -/
  outcomes : brought = taken.map (fun entry => (entry.1, entry.2.1)) ++ World.outcomes w
  known : ∀ entry ∈ taken, entry.2.2 ≠ .unknown

/-- A message that is handled makes the source take the outcome that it brings. -/
theorem taken_of_delivered {w : World κ P} {a : Act P} {s : Source P} {message : Message P}
    {now : Instant} (hsource : w.state.source = some s)
    (hdelivered : World.delivered? w a = some (message, now)) :
    World.taken? w a = message.outcome?.map fun ended =>
      (ended.1, ended.2, (s.loading.complete ended.1 ended.2 now).2) := by
  cases hmessage : message.outcome? <;> simp [World.taken?, hdelivered, hmessage, hsource]

theorem trace_append (loader : Loader κ P) (w : World κ P) (acts : List (Act P)) (a : Act P) :
    World.trace loader w (acts ++ [a]) =
      World.trace loader w acts ++ [(World.run loader w acts, a)] := by
  induction acts generalizing w with
  | nil => rfl
  | cons first rest ih =>
      simp only [List.cons_append, World.trace]
      rw [ih]
      rfl

/-- The acts of a run that starts with the view of the tile. -/
theorem trace_small (acts : List (Act Unit)) :
    World.trace Loader.manual (World.start small ()) (.call (.show smallView) :: .run 0 :: acts) =
      (World.start small (), .call (.show smallView)) ::
        (World.act Loader.manual (World.start small ()) (.call (.show smallView)), .run 0) ::
          World.trace Loader.manual smallFlying acts := by
  have hflying : smallFlying = World.run Loader.manual (World.start small ())
      [.call (.show smallView), .run 0] := (run_small []).symm
  rw [hflying]
  rfl

theorem brought_append (loader : Loader κ P) (w : World κ P) (acts : List (Act P)) (a : Act P) :
    World.brought loader w (acts ++ [a]) =
      World.brought loader w acts ++ (World.brought? (World.run loader w acts) a).toList := by
  unfold World.brought
  rw [trace_append, List.filterMap_append]
  cases hbrought : World.brought? (World.run loader w acts) a <;> simp [hbrought]

theorem taken_append (loader : Loader κ P) (w : World κ P) (acts : List (Act P)) (a : Act P) :
    World.taken loader w (acts ++ [a]) =
      World.taken loader w acts ++ (World.taken? (World.run loader w acts) a).toList := by
  unfold World.taken
  rw [trace_append, List.filterMap_append]
  cases htaken : World.taken? (World.run loader w acts) a <;> simp [htaken]

namespace World.Balanced

variable {setup : Setup} {limits : Nat × BackoffPolicy} {wanted : Wishes}
  {brought : List (Tile × Outcome P)} {taken : List (Tile × Outcome P × Completion)}
  {w after : World κ P} {a : Act P}

/-- The account is kept by every act. -/
theorem act {heeds : Bool} (h : World.Balanced brought taken w) (hstep : Step heeds w a after)
    {before : Source P} (hsource : w.state.source = some before)
    (horderly : World.Orderly setup limits wanted w before) :
    World.Balanced (brought ++ (World.brought? w a).toList)
      (taken ++ (World.taken? w a).toList) after := by
  cases hstep with
  | quiet s hbefore _ _ _ hbrought hdelivered hwaiting hflying hevents _ _ =>
      have htaken : World.taken? w a = none := by
        simp [World.taken?, hdelivered]
      rw [hbrought, htaken, Option.toList_none, Option.toList_none, List.append_nil,
        List.append_nil]
      refine ⟨?_, ?_, h.known⟩
      · unfold World.requested
        rw [hevents, hflying]
        exact h.requested
      · unfold World.outcomes
        rw [hwaiting]
        exact h.outcomes
  | post s message hbefore _ _ _ hbrought hdelivered hjoins hflying hevents _ _ =>
      have htaken : World.taken? w a = none := by
        simp [World.taken?, hdelivered]
      rw [hbrought, htaken, Option.toList_none, List.append_nil]
      refine ⟨?_, ?_, h.known⟩
      · unfold World.requested
        rw [hevents, List.map_append, List.append_assoc]
        exact h.requested.trans (hflying.symm.append_left _)
      · unfold World.outcomes
        rw [hjoins.outcomes_eq, ← List.append_assoc, ← World.outcomes, ← h.outcomes]
  | turn s message rest t hbefore _ _ _ _ hbrought hdelivered hwaiting hleft hflying hevents
      _ _ _ =>
      have htaken := taken_of_delivered hbefore hdelivered
      have htook : (World.taken? w a).toList.map (fun entry => (entry.1, entry.2.1)) =
          message.outcome?.toList := by
        rw [htaken]
        cases message.outcome? <;> rfl
      rw [hbrought, Option.toList_none, List.append_nil]
      refine ⟨?_, ?_, ?_⟩
      · rw [requested_started hevents, hflying, ← List.append_assoc]
        exact h.requested.append_right _
      · rw [List.map_append, htook, outcomes_left hleft, List.append_assoc,
          ← outcomes_cons hwaiting]
        exact h.outcomes
      · intro entry hentry
        rcases List.mem_append.mp hentry with hold | hnew
        · exact h.known entry hold
        · rw [htaken, Option.mem_toList, Option.map_eq_some_iff] at hnew
          obtain ⟨ended, hended, rfl⟩ := hnew
          apply Loading.complete_ne_unknown
          obtain rfl := Option.some.inj (hsource.symm.trans hbefore)
          apply horderly.running_of_waiting hwaiting
          simp [Message.finished, hended]

end World.Balanced

variable {layer : Layer} {config : Config} {convert : Converter} {listening : Bool}
  {first : Source P}

theorem balanced_run (hbuild : build layer config convert listening = .ok first)
    (loader : Loader κ P) (memory : κ) (acts : List (Act P)) {s : Source P}
    (hsource : (World.run loader (World.start first memory) acts).state.source = some s) :
    World.Balanced (World.brought loader (World.start first memory) acts)
      (World.taken loader (World.start first memory) acts)
      (World.run loader (World.start first memory) acts) := by
  refine holds_run hbuild loader memory (motive := fun acts w _ => World.Balanced
    (World.brought loader (World.start first memory) acts)
    (World.taken loader (World.start first memory) acts) w) ?_ ?_ acts hsource
  · exact ⟨.refl _, rfl, fun _ h => nomatch h⟩
  · rintro acts a _ before after rfl hbefore - horderly hstep hbalanced
    rw [brought_append, taken_append]
    exact hbalanced.act hstep hbefore horderly

/-- The futures that are not complete and the outcomes that wait are the running loads, each once.
So no more loads fly than there are slots, and no two of the same tile. Every load that was ever
started still flies or has brought its outcome, the outcomes brought are those taken and then those
that wait, and none was taken for that of an unknown load. -/
theorem loads_accounted_for (hbuild : build layer config convert listening = .ok first)
    (loader : Loader κ P) (memory : κ) (acts : List (Act P)) {s : Source P}
    (hsource : (World.run loader (World.start first memory) acts).state.source = some s) :
    let start := World.start first memory
    let w := World.run loader start acts
    (World.flying w ++ World.landed w).Perm s.loading.inFlight.keys ∧
      (World.flying w ++ World.landed w).Nodup ∧
      w.scheduler.futures.length ≤ config.maxLoads ∧ (World.flying w).Nodup ∧
      (World.requested w).Perm ((World.brought loader start acts).map Prod.fst ++
        World.flying w) ∧
      World.brought loader start acts =
        (World.taken loader start acts).map (fun entry => (entry.1, entry.2.1)) ++
          World.outcomes w ∧
      ∀ entry ∈ World.taken loader start acts, entry.2.2 ≠ .unknown := by
  intro start w
  have horderly := orderly_run hbuild loader memory acts hsource
  have hbalanced := balanced_run hbuild loader memory acts hsource
  have hperm : (World.flying w ++ World.landed w).Perm s.loading.inFlight.keys :=
    horderly.accounted
  have hnodup : (World.flying w ++ World.landed w).Nodup :=
    hperm.nodup_iff.mpr Std.ExtTreeMap.nodup_keys
  have hslots : w.scheduler.futures.length ≤ config.maxLoads := by
    have hkeys : (World.flying w ++ World.landed w).length = s.loading.inFlight.size :=
      hperm.length_eq.trans Std.ExtTreeMap.length_keys
    have hle := horderly.settled.consistent.inFlight_le
    have hlimit : s.loading.maxLoads = config.maxLoads :=
      congrArg Prod.fst horderly.settled.limits_eq
    rw [List.length_append, World.flying, List.length_map] at hkeys
    omega
  exact ⟨hperm, hnodup, hslots, (List.nodup_append.mp hnodup).1, hbalanced.requested,
    hbalanced.outcomes, hbalanced.known⟩

/-- The load of the tile of a first view runs, and is counted among those that run. -/
theorem loads_accounted_for_first_view :
    let w := World.run Loader.manual (World.start small ()) [.call (.show smallView), .run 0]
    ∃ s, w.state.source = some s ∧ World.flying w = [smallTile] ∧
      s.loading.inFlight.keys = [smallTile] ∧ World.requested w = [smallTile] := by
  intro w
  have hw : w = smallFlying := run_small []
  have hflying : World.flying w = [smallTile] := by rw [hw]; rfl
  have hlanded : World.landed w = [] := by rw [hw]; rfl
  have hsource : (World.run Loader.manual (World.start small ())
      [.call (.show smallView), .run 0]).state.source = some smallShown := by rw [run_small]; rfl
  obtain ⟨hkeys, -, -, -, hrequested, -, -⟩ :=
    loads_accounted_for build_small Loader.manual () _ hsource
  rw [hlanded, List.append_nil, hflying] at hkeys
  have hbrought : World.brought Loader.manual (World.start small ())
      [.call (.show smallView), .run 0] = [] := rfl
  rw [hbrought, hflying] at hrequested
  exact ⟨smallShown, hw ▸ rfl, hflying, List.perm_singleton.mp hkeys.symm,
    List.perm_singleton.mp hrequested⟩

end MapTiles.Source
