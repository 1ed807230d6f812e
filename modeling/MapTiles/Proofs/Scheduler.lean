import MapTiles.Scheduler
import Mathlib.Data.List.Perm.Basic

/-!
Taking waiting work in any order. The scheduler itself takes the first ready task and the delayed
task that is due first; what is proved of a system whose tasks are taken in any order holds of it
all the more.
-/

namespace MapTiles.Scheduler

variable {τ φ : Type}

/-- Takes any of the ready tasks. -/
def readyAt? (s : Scheduler τ φ) (n : Nat) : Option (τ × Scheduler τ φ) :=
  s.ready[n]?.map fun task => (task, { s with ready := s.ready.eraseIdx n })

/-- Takes any of the delayed tasks, and moves the clock on to its due time. -/
def delayedAt? (s : Scheduler τ φ) (n : Nat) : Option (τ × Scheduler τ φ) :=
  s.delayed[n]?.map fun d =>
    (d.task, { s with delayed := s.delayed.eraseIdx n }.advanceTo d.due)

/-- Whether a task waits that may run at a time or before. -/
def RunsBy (s : Scheduler τ φ) (task : τ) (time : Instant) : Prop :=
  task ∈ s.ready ∨ ∃ d ∈ s.delayed, d.task = task ∧ d.due ≤ time

theorem takeReady?_eq (s : Scheduler τ φ) : s.takeReady? = s.readyAt? 0 := by
  unfold takeReady? readyAt?
  cases hready : s.ready with
  | nil => rfl
  | cons task rest => rfl

/-- The scheduler takes the first delayed task or none. -/
theorem takeDelayed?_eq_some {s rest : Scheduler τ φ} {limit : Option Instant} {task : τ}
    (h : s.takeDelayed? limit = some (task, rest)) : s.delayedAt? 0 = some (task, rest) := by
  unfold takeDelayed? at h
  unfold delayedAt?
  cases hdelayed : s.delayed with
  | nil => simp [hdelayed] at h
  | cons d later =>
      simp only [hdelayed] at h
      split at h
      case isTrue => cases h
      case isFalse => exact h

theorem insertDelayed_perm (d : Delayed τ) (delayed : List (Delayed τ)) :
    (insertDelayed d delayed).Perm (d :: delayed) := by
  induction delayed with
  | nil => exact .refl _
  | cons first rest ih =>
      unfold insertDelayed
      split
      · exact .refl _
      · exact (ih.cons first).trans (.swap d first rest)

theorem mem_insertDelayed_iff (d e : Delayed τ) (delayed : List (Delayed τ)) :
    e ∈ insertDelayed d delayed ↔ e = d ∨ e ∈ delayed := by
  rw [(insertDelayed_perm d delayed).mem_iff, List.mem_cons]

theorem mem_or_eq_of_eraseIdx {α : Type} {items : List α} {n : Nat} {taken item : α}
    (htaken : items[n]? = some taken) (hitem : item ∈ items) :
    item = taken ∨ item ∈ items.eraseIdx n := by
  obtain ⟨hn, rfl⟩ := List.getElem?_eq_some_iff.mp htaken
  exact List.mem_cons.mp ((List.getElem_cons_eraseIdx_perm hn).mem_iff.mpr hitem)

theorem now_readyAt? {s rest : Scheduler τ φ} {n : Nat} {task : τ}
    (h : s.readyAt? n = some (task, rest)) : s.now ≤ rest.now := by
  obtain ⟨_, -, hrest⟩ := Option.map_eq_some_iff.mp h
  cases hrest
  exact Nat.le_refl _

theorem now_delayedAt? {s rest : Scheduler τ φ} {n : Nat} {task : τ}
    (h : s.delayedAt? n = some (task, rest)) : s.now ≤ rest.now := by
  obtain ⟨_, -, hrest⟩ := Option.map_eq_some_iff.mp h
  cases hrest
  exact Nat.le_max_left _ _

theorem futures_readyAt? {s rest : Scheduler τ φ} {n : Nat} {task : τ}
    (h : s.readyAt? n = some (task, rest)) : rest.futures = s.futures := by
  obtain ⟨_, -, hrest⟩ := Option.map_eq_some_iff.mp h
  cases hrest
  rfl

theorem futures_delayedAt? {s rest : Scheduler τ φ} {n : Nat} {task : τ}
    (h : s.delayedAt? n = some (task, rest)) : rest.futures = s.futures := by
  obtain ⟨_, -, hrest⟩ := Option.map_eq_some_iff.mp h
  cases hrest
  rfl

@[simp] theorem now_reckon (s : Scheduler τ φ) (times : List Instant) :
    (s.reckon times).now = s.now := rfl

@[simp] theorem delayed_reckon (s : Scheduler τ φ) (times : List Instant) :
    (s.reckon times).delayed = s.delayed := rfl

/-- Times that come up move the furthest one only if they are later. -/
theorem furthest_reckon_le_iff (s : Scheduler τ φ) (times : List Instant) (latest : Instant) :
    (s.reckon times).furthest ≤ latest ↔ s.furthest ≤ latest ∧ ∀ t ∈ times, t ≤ latest := by
  unfold reckon
  dsimp only
  generalize s.furthest = furthest
  induction times generalizing furthest with
  | nil => simp
  | cons t rest ih =>
      rw [List.foldl_cons, ih, Nat.max_le, List.forall_mem_cons, and_assoc]

/-- Times that came up before add nothing. -/
theorem reckon_eq_self {s : Scheduler τ φ} {times : List Instant}
    (h : ∀ t ∈ times, t ≤ s.furthest) : s.reckon times = s := by
  have hsame : (s.reckon times).furthest = s.furthest :=
    Nat.le_antisymm ((s.furthest_reckon_le_iff times _).mpr ⟨Nat.le_refl _, h⟩)
      ((s.furthest_reckon_le_iff times _).mp (Nat.le_refl _)).1
  calc s.reckon times
      = { s with furthest := (s.reckon times).furthest } := rfl
    _ = s := by rw [hsame]

theorem le_furthest_addTask (s : Scheduler τ φ) (delay : Duration) (task : τ) :
    s.furthest ≤ (s.addTask delay task).furthest := by
  unfold addTask
  split
  · exact Nat.le_refl _
  · exact Nat.le_max_left _ _

theorem furthest_addTask_le {s : Scheduler τ φ} {delay : Duration} {latest : Instant}
    (hfurthest : s.furthest ≤ latest) (hdue : s.now + delay ≤ latest) (task : τ) :
    (s.addTask delay task).furthest ≤ latest := by
  unfold addTask
  split
  · exact hfurthest
  · exact Nat.max_le.mpr ⟨hfurthest, hdue⟩

namespace RunsBy

variable {s rest : Scheduler τ φ} {task taken : τ} {time : Instant} {n : Nat}

theorem mono (h : s.RunsBy task time) {later : Instant} (htime : time ≤ later) :
    s.RunsBy task later := by
  rcases h with hready | ⟨d, hd, htask, hdue⟩
  · exact .inl hready
  · exact .inr ⟨d, hd, htask, Nat.le_trans hdue htime⟩

theorem addTask (h : s.RunsBy task time) (delay : Duration) (added : τ) :
    (s.addTask delay added).RunsBy task time := by
  unfold Scheduler.addTask
  split
  · rcases h with hready | hdelayed
    · exact .inl (List.mem_append_left _ hready)
    · exact .inr hdelayed
  · rcases h with hready | ⟨d, hd, hdue⟩
    · exact .inl hready
    · exact .inr ⟨d, (mem_insertDelayed_iff ..).mpr (.inr hd), hdue⟩

/-- An added task runs after its delay. -/
theorem of_addTask (s : Scheduler τ φ) (delay : Duration) (task : τ) :
    (s.addTask delay task).RunsBy task (s.now + delay) := by
  unfold Scheduler.addTask
  split
  · exact .inl (List.mem_append_right _ (List.mem_singleton_self task))
  · exact .inr ⟨_, (mem_insertDelayed_iff ..).mpr (.inl rfl), rfl, Nat.le_refl _⟩

/-- A waiting task goes on waiting unless it is the one that is taken. -/
theorem readyAt? (h : s.RunsBy task time) (htaken : s.readyAt? n = some (taken, rest)) :
    task = taken ∨ rest.RunsBy task time := by
  obtain ⟨found, hfound, hrest⟩ := Option.map_eq_some_iff.mp htaken
  cases hrest
  rcases h with hready | hdelayed
  · rcases mem_or_eq_of_eraseIdx hfound hready with heq | hleft
    · exact .inl heq
    · exact .inr (.inl hleft)
  · exact .inr (.inr hdelayed)

theorem delayedAt? (h : s.RunsBy task time) (htaken : s.delayedAt? n = some (taken, rest)) :
    task = taken ∨ rest.RunsBy task time := by
  obtain ⟨found, hfound, hrest⟩ := Option.map_eq_some_iff.mp htaken
  cases hrest
  rcases h with hready | ⟨d, hd, htask, hdue⟩
  · exact .inr (.inl hready)
  · rcases mem_or_eq_of_eraseIdx hfound hd with heq | hleft
    · left
      rw [← htask, heq]
    · exact .inr (.inr ⟨d, hleft, htask, hdue⟩)

end RunsBy

end MapTiles.Scheduler
