import MapTiles.Proofs.Actor.Drained
import MapTiles.Proofs.Source.Moves

/-!
What is left when an object is given up. Nothing is executed for it any more, however many messages
wait or are still sent, and no question is left without an end. A tile source is such an object:
once it is gone, neither its loader nor its listener hears of it again.
-/

namespace MapTiles

open Actor (Held NoneAnswered Resolved executeAll)

variable {T R κ P : Type}

/-- After an object was given up no message is executed and no question is answered. When all
deliveries have run, which a drain sees to, every question has ended: it was executed once, and its
answer is that of the object as the messages executed before left it, or it was not executed, and
its slot is closed. A source that was given up starts and cancels no loads and notifies nobody. -/
theorem release_is_final (object : T) (acts : List (Actor.Act T R)) (loader : Source.Loader κ P)
    (first : Source P) (memory : κ) (before after : List (Source.Act P)) :
    let start : Held T R := Held.start object
    let h := start.run acts
    let used := Source.World.run loader (Source.World.start first memory) before
    let given := Source.World.act loader used .release
    (∀ later, let gone := start.run (acts ++ .release :: later)
      start.executed (acts ++ .release :: later) = start.executed acts ∧
        gone.world.state.object = none ∧
        NoneAnswered h.world.state.slots gone.world.state.slots) ∧
    (∀ left, h.world.state.object = some left →
      left = executeAll object (start.executed acts)) ∧
    (h.world.scheduler.ready = [] → ∀ n act, (start.asked acts)[n]? = some act →
      Resolved object (start.executed acts) h.world.state n act) ∧
    (∃ k, let all := acts ++ List.replicate k (.run 0)
      Actor.World.drive h.world .drain = (none, (start.run all).world) ∧
        ∀ n act, (start.asked acts)[n]? = some act →
          Resolved object (start.executed all) (start.run all).world.state n act) ∧
    (Source.World.run loader given after).state.events = used.state.events ∧
    ∀ entry ∈ Source.World.trace loader given after, Source.World.effects entry.1 entry.2 = [] := by
  intro start h used given
  refine ⟨Actor.run_release acts, (Actor.sound_run object acts).object_eq,
    fun hready n act => Actor.resolved_of_idle object acts hready,
    Actor.resolved_of_drain object acts, ?_, ?_⟩
  · exact (Source.run_gone (w := given) loader after rfl).2
  · exact Source.effects_run_gone (w := given) loader after rfl

end MapTiles
