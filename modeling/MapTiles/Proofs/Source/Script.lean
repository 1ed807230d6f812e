import MapTiles.Proofs.Source.Step
import Mathlib.Data.List.Induction
import Mathlib.Logic.Function.Basic

/-!
Loaders whose loads end at once. Then no load is left pending, what is delayed are timers only, and
a delivery is on its way whenever a message waits.
-/

namespace MapTiles.Source

variable {κ P : Type}

/-- The outcomes of the loads of every tile, in order. After a number of loads of a tile none of
them fails any more. -/
structure Script (P : Type) where
  outcome : Tile → Nat → Outcome P
  failures : Tile → Nat
  settles : ∀ t n, failures t ≤ n → (outcome t n).isFailed = false

/-- A loader whose loads end at once, those of each tile as the script says. It remembers how often
each tile was loaded. -/
def Loader.ofScript (script : Script P) (heeds : Bool) : Loader (Tile → Nat) P where
  start t _ loads := (some (script.outcome t (loads t)), Function.update loads t (loads t + 1))
  heeds := heeds

/-- Whether all loads end at once and each tile fails only so often. `left` bounds how often a tile
still fails. -/
structure Loader.Settles (loader : Loader κ P) (left : κ → Tile → Nat) : Prop where
  ends : ∀ t key memory, (loader.start t key memory).1.isSome = true
  lowers : ∀ t key memory outcome, (loader.start t key memory).1 = some outcome →
    outcome.isFailed = true → left (loader.start t key memory).2 t < left memory t
  left_le : ∀ t key memory u, left (loader.start t key memory).2 u ≤ left memory u

theorem settles_ofScript (script : Script P) (heeds : Bool) :
    (Loader.ofScript script heeds).Settles fun loads t => script.failures t - loads t where
  ends _ _ _ := rfl
  lowers t key loads outcome houtcome hfailed := by
    have hsame : script.outcome t (loads t) = outcome := Option.some.inj houtcome
    have hearly : loads t < script.failures t := by
      apply Nat.lt_of_not_le
      intro hlate
      have hsettled := script.settles t (loads t) hlate
      rw [hsame, hfailed] at hsettled
      cases hsettled
    simp only [Loader.ofScript, Function.update_self]
    omega
  left_le t key loads u := by
    simp only [Loader.ofScript, Function.update_apply]
    split
    case isTrue hsame =>
      subst hsame
      omega
    case isFalse => exact Nat.le_refl _

/-- Whether a load has an outcome, and one with which the loader lets loads of its tile start. -/
def Loader.Brings (loader : Loader κ P) (load : Load P) : Prop :=
  ∃ key memory outcome, load.outcome = some outcome ∧
    (loader.start load.tile key memory).1 = some outcome

/-- No load is left pending, and what is delayed are timers. -/
structure World.Prompt (loader : Loader κ P) (w : World κ P) : Prop where
  brings : ∀ load ∈ w.scheduler.futures, loader.Brings load
  timers : ∀ d ∈ w.scheduler.delayed, d.task = .wake

theorem World.Prompt.ended {loader : Loader κ P} {w : World κ P} (h : World.Prompt loader w)
    (load : Load P) (hload : load ∈ w.scheduler.futures) : load.outcome.isSome = true := by
  obtain ⟨_, _, outcome, houtcome, _⟩ := h.brings load hload
  rw [houtcome]
  rfl

/-- A delivery is on its way if a message waits. -/
def World.Owed (w : World κ P) : Prop :=
  w.state.mailbox.queue ≠ [] → Task.deliver ∈ w.scheduler.ready

theorem mem_delayed_of_chosen {w : World κ P} {a : Act P} {task : Task}
    {rest : Scheduler Task (Load P)} (h : World.chosen? w a = some (task, rest))
    {d : Delayed Task} (hd : d ∈ rest.delayed) : d ∈ w.scheduler.delayed := by
  cases a with
  | run n =>
      obtain ⟨_, -, hrest⟩ := Option.map_eq_some_iff.mp h
      cases hrest
      exact hd
  | fire n =>
      obtain ⟨_, -, hrest⟩ := Option.map_eq_some_iff.mp h
      cases hrest
      exact List.mem_of_mem_eraseIdx hd
  | _ => cases h

/-- The delivery stays on its way while another task is taken. -/
theorem mem_ready_of_chosen {w : World κ P} {a : Act P} {rest : Scheduler Task (Load P)}
    (h : World.chosen? w a = some (.wake, rest)) (hready : Task.deliver ∈ w.scheduler.ready) :
    Task.deliver ∈ rest.ready := by
  cases a with
  | run n =>
      obtain ⟨task, htask, hrest⟩ := Option.map_eq_some_iff.mp h
      cases hrest
      exact (Scheduler.mem_or_eq_of_eraseIdx htask hready).resolve_left nofun
  | fire n =>
      obtain ⟨_, -, hrest⟩ := Option.map_eq_some_iff.mp h
      obtain ⟨-, rfl⟩ := Prod.mk.inj hrest
      exact hready
  | _ => cases h

section Push

variable {loader : Loader κ P} {w : World κ P}

theorem prompt_push (h : World.Prompt loader w) (message : Message P) :
    World.Prompt loader (World.push w message) := by
  unfold World.push
  dsimp only
  split
  all_goals exact ⟨h.brings, h.timers⟩

theorem owed_push (h : World.Owed w) (message : Message P) : World.Owed (World.push w message) := by
  unfold World.push Mailbox.push
  dsimp only
  split
  case isTrue => exact fun _ => List.mem_append_right _ (List.mem_singleton_self _)
  case isFalse hwaiting => exact fun _ => h (by simpa using hwaiting)

theorem prompt_send (h : World.Prompt loader w) (message : Message P) :
    World.Prompt loader (World.send w message) := by
  unfold World.send
  split
  · exact prompt_push h message
  · exact h

theorem owed_send (h : World.Owed w) (message : Message P) : World.Owed (World.send w message) := by
  unfold World.send
  split
  · exact owed_push h message
  · exact h

end Push

section Perform

variable {loader : Loader κ P} {left : κ → Tile → Nat} (hsettles : loader.Settles left)
  {w : World κ P}

include hsettles

theorem prompt_perform (h : World.Prompt loader w) (effect : Effect) :
    World.Prompt loader (World.perform loader w effect) := by
  cases effect with
  | load t key =>
      refine ⟨fun load hload => ?_, h.timers⟩
      rcases List.mem_append.mp hload with hold | hnew
      · exact h.brings load hold
      · obtain ⟨outcome, houtcome⟩ :=
          Option.isSome_iff_exists.mp (hsettles.ends t key w.state.memory)
        rw [List.mem_singleton.mp hnew]
        exact ⟨key, w.state.memory, outcome, houtcome, houtcome⟩
  | cancel t key =>
      simp only [World.perform]
      split
      · exact ⟨h.brings, h.timers⟩
      · exact h
  | wake delay =>
      unfold World.perform System.addTask Scheduler.addTask
      dsimp only
      split
      · exact ⟨h.brings, h.timers⟩
      · refine ⟨h.brings, fun d hd => ?_⟩
        rcases (Scheduler.mem_insertDelayed_iff ..).mp hd with rfl | hold
        · rfl
        · exact h.timers d hold
  | queueFlush => exact prompt_push h .flush
  | notify => exact ⟨h.brings, h.timers⟩
  | answer slot value => exact ⟨h.brings, h.timers⟩

theorem prompt_foldl (h : World.Prompt loader w) (effects : List Effect) :
    World.Prompt loader (effects.foldl (World.perform loader) w) := by
  induction effects generalizing w with
  | nil => exact h
  | cons effect rest ih => exact ih (prompt_perform hsettles h effect)

theorem prompt_deliver (h : World.Prompt loader w) : World.Prompt loader (World.deliver loader w) := by
  unfold World.deliver
  split
  case h_1 => exact h
  case h_2 e rest _ =>
    have hdone : World.Prompt loader (World.apply loader
        (w.modify fun x => { x with mailbox := rest }) e.content) := by
      unfold World.apply
      split
      · apply prompt_foldl hsettles
        exact ⟨h.brings, h.timers⟩
      · split <;> exact ⟨h.brings, h.timers⟩
    dsimp only
    split
    · exact hdone
    · exact ⟨hdone.brings, hdone.timers⟩

theorem prompt_work (h : World.Prompt loader w) {a : Act P} :
    World.Prompt loader (World.work loader w (World.chosen? w a)) := by
  cases hchosen : World.chosen? w a with
  | none => exact h
  | some chosen =>
      obtain ⟨task, rest⟩ := chosen
      have hrest : World.Prompt loader { w with scheduler := rest } :=
        ⟨fun load hload => h.brings load ((chosen_spec hchosen).2.1 ▸ hload),
          fun d hd => h.timers d (mem_delayed_of_chosen hchosen hd)⟩
      cases task with
      | deliver => exact prompt_deliver hsettles hrest
      | wake => exact prompt_send hrest .retry

theorem prompt_act (h : World.Prompt loader w) (a : Act P) : World.Prompt loader (World.act loader w a) := by
  cases a with
  | call c => exact prompt_send h c.message
  | ask question =>
      apply prompt_push
      exact ⟨h.brings, h.timers⟩
  | release => exact ⟨h.brings, h.timers⟩
  | wait time => exact ⟨h.brings, h.timers⟩
  | run n => exact prompt_work hsettles h
  | fire n => exact prompt_work hsettles h
  | finish number outcome =>
      refine ⟨fun load hload => ?_, h.timers⟩
      obtain ⟨old, hold, rfl⟩ := List.mem_map.mp hload
      have hended : old.outcome.isNone = false := by
        rw [Option.isNone_eq_false_iff]
        exact h.ended old hold
      rw [hended, Bool.and_false]
      exact h.brings old hold
  | poll n =>
      simp only [World.act]
      split
      · exact h
      · apply prompt_send
        exact ⟨fun load hload => h.brings load (List.mem_of_mem_eraseIdx hload), h.timers⟩

end Perform

section Owed

variable {w : World κ P} (loader : Loader κ P)

theorem owed_perform (h : World.Owed w) (effect : Effect) :
    World.Owed (World.perform loader w effect) := by
  cases effect with
  | load t key => exact h
  | cancel t key =>
      simp only [World.perform]
      split <;> exact h
  | wake delay =>
      unfold World.perform System.addTask Scheduler.addTask
      dsimp only
      split
      · exact fun hwaiting => List.mem_append_left _ (h hwaiting)
      · exact h
  | queueFlush => exact owed_push h .flush
  | notify => exact h
  | answer slot value => exact h

theorem owed_foldl (h : World.Owed w) (effects : List Effect) :
    World.Owed (effects.foldl (World.perform loader) w) := by
  induction effects generalizing w with
  | nil => exact h
  | cons effect rest ih => exact ih (owed_perform loader h effect)

/-- A delivery that leaves messages behind is followed by the next one. -/
theorem owed_deliver (w : World κ P) : World.Owed (World.deliver loader w) := by
  unfold World.deliver
  split
  case h_1 hnone =>
    intro hwaiting
    cases hqueue : w.state.mailbox.queue with
    | nil => exact absurd hqueue hwaiting
    | cons e rest => simp [Mailbox.pop?, hqueue] at hnone
  case h_2 e rest _ =>
    dsimp only
    split
    case isTrue hempty =>
      have hrest : World.Owed (w.modify fun x => { x with mailbox := rest }) :=
        fun hwaiting => absurd (List.isEmpty_iff.mp hempty) hwaiting
      unfold World.apply
      split
      · apply owed_foldl
        exact hrest
      · split <;> exact hrest
    case isFalse => exact fun _ => List.mem_append_right _ (List.mem_singleton_self _)

theorem owed_work (h : World.Owed w) {a : Act P} :
    World.Owed (World.work loader w (World.chosen? w a)) := by
  cases hchosen : World.chosen? w a with
  | none => exact h
  | some chosen =>
      obtain ⟨task, rest⟩ := chosen
      cases task with
      | deliver => exact owed_deliver loader { w with scheduler := rest }
      | wake =>
          have hrest : World.Owed { w with scheduler := rest } :=
            fun hwaiting => mem_ready_of_chosen hchosen (h hwaiting)
          exact owed_send hrest .retry

theorem owed_act (h : World.Owed w) (a : Act P) : World.Owed (World.act loader w a) := by
  cases a with
  | call c => exact owed_send h c.message
  | ask question =>
      apply owed_push
      exact h
  | release => exact h
  | wait time => exact h
  | run n => exact owed_work loader h
  | fire n => exact owed_work loader h
  | finish number outcome => exact h
  | poll n =>
      simp only [World.act]
      split
      · exact h
      · apply owed_send
        exact h

end Owed

variable {loader : Loader κ P} {left : κ → Tile → Nat}

theorem prompt_run (hsettles : loader.Settles left) (s : Source P) (memory : κ)
    (acts : List (Act P)) : World.Prompt loader (World.run loader (World.start s memory) acts) := by
  induction acts using List.reverseRecOn with
  | nil => exact ⟨nofun, nofun⟩
  | append_singleton acts a ih =>
      rw [run_append]
      exact prompt_act hsettles ih a

/-- An outcome that a load brings is one with which the loader lets loads of its tile start. -/
theorem exists_start_of_brought? {w : World κ P} (h : World.Prompt loader w) {a : Act P} {t : Tile}
    {outcome : Outcome P} (hbrought : World.brought? w a = some (t, outcome)) :
    ∃ key memory, (loader.start t key memory).1 = some outcome := by
  cases a with
  | poll n =>
      obtain ⟨load, hload, hended⟩ := Option.bind_eq_some_iff.mp hbrought
      obtain ⟨found, hfound, hsame⟩ := Option.map_eq_some_iff.mp hended
      obtain ⟨rfl, rfl⟩ := Prod.mk.inj hsame
      obtain ⟨key, memory, known, hknown, hstart⟩ := h.brings load (List.mem_of_getElem? hload)
      obtain rfl := Option.some.inj (hfound.symm.trans hknown)
      exact ⟨key, memory, hstart⟩
  | _ => cases hbrought

theorem owed_run (loader : Loader κ P) (s : Source P) (memory : κ) (acts : List (Act P)) :
    World.Owed (World.run loader (World.start s memory) acts) := by
  induction acts using List.reverseRecOn with
  | nil => exact fun hwaiting => absurd rfl hwaiting
  | append_singleton acts a ih =>
      rw [run_append]
      exact owed_act loader ih a

end MapTiles.Source
