import MapTiles.Scheduler

/-!
Draining a system round by round. A round begins with the first ready task. How many rounds are
allowed does not matter once they are enough.
-/

namespace MapTiles.Behaviour

variable {τ φ σ : Type} {b : Behaviour τ φ σ} {limit : Option Instant} {s t u last : System τ φ σ}

theorem runReady?_cons {task : τ} {rest : List τ} (hready : s.scheduler.ready = task :: rest) :
    b.runReady? s =
      some (b.run task { s with scheduler := { s.scheduler with ready := rest } }) := by
  simp [runReady?, Scheduler.takeReady?, hready]

theorem runReady?_nil (hready : s.scheduler.ready = []) : b.runReady? s = none := by
  simp [runReady?, Scheduler.takeReady?, hready]

/-- Whether a drain that starts at `s` comes to `t` after some rounds, and goes on from there. -/
def Reaches (b : Behaviour τ φ σ) (limit : Option Instant) (s t : System τ φ σ) : Prop :=
  ∃ n, ∀ rounds, b.drain? limit (n + rounds) s = b.drain? limit rounds t

namespace Reaches

theorem refl (s : System τ φ σ) : b.Reaches limit s s :=
  ⟨0, fun rounds => by rw [Nat.zero_add]⟩

theorem trans (hfirst : b.Reaches limit s t) (hrest : b.Reaches limit t u) :
    b.Reaches limit s u := by
  obtain ⟨n, hn⟩ := hfirst
  obtain ⟨m, hm⟩ := hrest
  refine ⟨n + m, fun rounds => ?_⟩
  rw [Nat.add_assoc, hn, hm]

theorem of_round (h : b.round limit s = (true, t)) : b.Reaches limit s t := by
  refine ⟨1, fun rounds => ?_⟩
  rw [Nat.add_comm, drain?, h]

/-- A drain ends where a round makes no progress. -/
theorem drain? (h : b.Reaches limit s t) (hlast : b.round limit t = (false, last)) :
    ∃ rounds, ∀ more, b.drain? limit (rounds + more) s = some last := by
  obtain ⟨n, hn⟩ := h
  refine ⟨n + 1, fun more => ?_⟩
  rw [Nat.add_assoc, hn, Nat.add_comm, Behaviour.drain?, hlast]

end Reaches

end MapTiles.Behaviour
