import MapTiles.Proofs.Actor.Handles
import MapTiles.Proofs.Mailbox
import Mathlib.Data.List.Induction
import Mathlib.Data.List.Nodup

/-!
What becomes of the questions to an actor. A question waits in the mailbox, where nothing takes its
place, until it is executed, or is dropped because the object or the mailbox is gone. What one act
preserves holds after all of them, so once nothing waits any more every question has been answered
or closed.
-/

namespace MapTiles.Actor

variable {T R : Type} {object : T} {done : List (Delivery T R)} {asked : List (T → R × T)}
  {a b : Actor T R} {w : World T R}

/-- How a question ends: with the answer of the object as the messages before it left it, or with
nothing because the object was gone. -/
inductive Resolved (object : T) (done : List (Delivery T R)) (a : Actor T R) (n : Nat)
    (act : T → R × T) : Prop
  | answered (before after : List (Delivery T R)) (hdone : done = before ++ .ask n act :: after)
      (honce : n ∉ slotsOf (before ++ after))
      (hslot : a.slots[n]? = some (.answered (act (executeAll object before)).1))
  | closed (hdone : n ∉ slotsOf done) (hgone : a.object = none) (hslot : a.slots[n]? = some .closed)

/-- What has become of a question so far. -/
inductive Fate (object : T) (done : List (Delivery T R)) (a : Actor T R) (n : Nat)
    (act : T → R × T) : Prop
  | waits (hwaits : n ∈ slotsOf a.waiting) (hslot : a.slots[n]? = some .waiting)
  | resolved (hleft : n ∉ slotsOf a.waiting) (hresolved : Resolved object done a n act)

/-- What holds of an actor that started with an object, once messages were executed and questions
were asked. -/
structure Sound (object : T) (done : List (Delivery T R)) (asked : List (T → R × T))
    (a : Actor T R) : Prop where
  object_eq : ∀ left, a.object = some left → left = executeAll object done
  length_eq : a.slots.length = asked.length
  /-- Nothing takes the place of a question. -/
  keeps : ∀ e ∈ a.mailbox.queue, ∀ n act, e.content = .ask n act → e.duplication = .append
  known : ∀ n act, .ask n act ∈ done ++ a.waiting → asked[n]? = some act
  once : (slotsOf (done ++ a.waiting)).Nodup
  fate : ∀ n act, asked[n]? = some act → Fate object done a n act

theorem Sound.start (object : T) : Sound object [] [] (World.start (R := R) object).state where
  object_eq _ h := (Option.some.inj h).symm
  length_eq := rfl
  keeps _ h := nomatch h
  known _ _ h := nomatch h
  once := .nil
  fate _ _ h := nomatch h

/-- The slots of the questions there have been are those of the questions that were asked. -/
theorem Sound.lt_of_mem (h : Sound object done asked a) {n : Nat}
    (hmember : n ∈ slotsOf (done ++ a.waiting)) : n < asked.length := by
  obtain ⟨act, hask⟩ := mem_slotsOf.mp hmember
  exact (List.getElem?_eq_some_iff.mp (h.known n act hask)).1

/-- A question that an act leaves alone, while it may execute another message. -/
theorem Fate.keep {n : Nat} {act : T → R × T} (h : Fate object done a n act)
    (hwaits : n ∈ slotsOf b.waiting ↔ n ∈ slotsOf a.waiting) (hslot : b.slots[n]? = a.slots[n]?)
    (hgone : a.object = none → b.object = none) (new : List (Delivery T R))
    (hnew : n ∉ slotsOf new) : Fate object (done ++ new) b n act := by
  cases h with
  | waits hbefore hwaiting => exact .waits (hwaits.mpr hbefore) (hslot.trans hwaiting)
  | resolved hleft hresolved =>
      refine .resolved (mt hwaits.mp hleft) ?_
      cases hresolved with
      | answered before after hdone honce hanswer =>
          refine .answered before (after ++ new) (by simp [hdone]) ?_ (hslot.trans hanswer)
          simp only [slotsOf_append, List.mem_append, not_or] at honce ⊢
          exact ⟨honce.1, honce.2, hnew⟩
      | closed hdone hbefore hclosed =>
          refine .closed ?_ (hgone hbefore) (hslot.trans hclosed)
          rw [slotsOf_append, List.mem_append, not_or]
          exact ⟨hdone, hnew⟩

theorem Fate.same {n : Nat} {act : T → R × T} (h : Fate object done a n act)
    (hwaits : n ∈ slotsOf b.waiting ↔ n ∈ slotsOf a.waiting) (hslot : b.slots[n]? = a.slots[n]?)
    (hgone : a.object = none → b.object = none) : Fate object done b n act := by
  have hkept := h.keep hwaits hslot hgone [] List.not_mem_nil
  rwa [List.append_nil] at hkept

section Push

theorem state_push (w : World T R) (e : Envelope (Delivery T R)) :
    (World.push w e).state =
      { w.state with mailbox := ⟨Mailbox.place e w.state.mailbox.queue⟩ } := by
  unfold World.push
  dsimp only
  split <;> rfl

/-- A message that is no question goes behind all others or takes the place of one that is no
question either. -/
theorem waiting_place_tell (h : Sound object done asked a) (identifier : String)
    (duplication : Duplication) (act : T → T) :
    ∃ front back replaced : List (Delivery T R), slotsOf replaced = [] ∧
      a.waiting = front ++ (replaced ++ back) ∧
      (Mailbox.place ⟨identifier, duplication, .tell act⟩ a.mailbox.queue).map
        Envelope.content = front ++ .tell act :: back := by
  rcases Mailbox.place_cases ⟨identifier, duplication, .tell act⟩ a.mailbox.queue with
    ⟨-, hplace⟩ | ⟨front, old, back, hqueue, hgives, hplace⟩
  · exact ⟨a.waiting, [], [], rfl, by simp, by simp [hplace, waiting]⟩
  · refine ⟨front.map Envelope.content, back.map Envelope.content, [old.content], ?_, ?_, ?_⟩
    · cases hold : old.content with
      | tell other => rfl
      | ask n question =>
          have hmember : old ∈ a.mailbox.queue := by simp [hqueue]
          have hreplaced := ((Mailbox.givesWay_iff _ _).mp hgives).1
          rw [h.keeps old hmember n question hold] at hreplaced
          cases hreplaced
    · simp [waiting, hqueue]
    · simp [hplace]

theorem Sound.tell (h : Sound object done asked w.state) (identifier : String)
    (duplication : Duplication) (act : T → T) :
    Sound object done asked (World.tell w identifier duplication act).state := by
  unfold World.tell
  split
  · exact h
  rw [state_push]
  obtain ⟨front, back, replaced, hnone, hbefore, hafter⟩ :=
    waiting_place_tell h identifier duplication act
  generalize hqueue : Mailbox.place ⟨identifier, duplication, .tell act⟩ w.state.mailbox.queue =
    queue at hafter
  have hwaiting : waiting { w.state with mailbox := ⟨queue⟩ } = front ++ .tell act :: back := hafter
  have hslots : slotsOf (waiting { w.state with mailbox := ⟨queue⟩ }) =
      slotsOf w.state.waiting := by
    simp [hwaiting, hbefore, hnone]
  refine ⟨h.object_eq, h.length_eq, ?_, ?_, ?_, ?_⟩
  · intro e he n question hask
    rcases Mailbox.mem_place (hqueue ▸ he) with rfl | hold
    · cases hask
    · exact h.keeps e hold n question hask
  · intro n question hmember
    refine h.known n question ?_
    rw [hwaiting] at hmember
    rw [hbefore]
    simp only [List.mem_append, List.mem_cons, reduceCtorEq, false_or] at hmember ⊢
    rcases hmember with hdone | hfront | hback
    · exact .inl hdone
    · exact .inr (.inl hfront)
    · exact .inr (.inr (.inr hback))
  · rw [slotsOf_append, hslots, ← slotsOf_append]
    exact h.once
  · exact fun n question hasked => (h.fate n question hasked).same (by rw [hslots]) rfl id

theorem Sound.ask (h : Sound object done asked w.state) (identifier : String)
    (act : T → R × T) :
    Sound object done (asked ++ [act]) (World.ask w identifier act).state := by
  have hwaiting : (World.ask w identifier act).state.waiting =
      w.state.waiting ++ [.ask asked.length act] := by
    simp [World.ask, waiting, state_push, Mailbox.place_of_append, System.modify, h.length_eq]
  have hslots : (World.ask w identifier act).state.slots = w.state.slots ++ [.waiting] := by
    simp [World.ask, state_push, System.modify]
  have hobject : (World.ask w identifier act).state.object = w.state.object := by
    simp [World.ask, state_push, System.modify]
  refine ⟨?_, ?_, ?_, ?_, ?_, ?_⟩
  · rw [hobject]
    exact h.object_eq
  · simp [hslots, h.length_eq]
  · intro e he n question hask
    simp only [World.ask, state_push, System.modify] at he
    rcases Mailbox.mem_place he with rfl | hold
    · rfl
    · exact h.keeps e hold n question hask
  · intro n question hmember
    rw [hwaiting, ← List.append_assoc, List.mem_append, List.mem_singleton] at hmember
    rcases hmember with hold | hnew
    · have hknown := h.known n question hold
      rwa [List.getElem?_append_left (List.getElem?_eq_some_iff.mp hknown).1]
    · cases hnew
      exact List.getElem?_concat_length
  · rw [hwaiting, ← List.append_assoc, slotsOf_append, slotsOf_ask, slotsOf_nil]
    refine List.nodup_append.mpr ⟨h.once, List.nodup_singleton _, fun n hn m hm => ?_⟩
    rw [List.mem_singleton.mp hm]
    exact Nat.ne_of_lt (h.lt_of_mem hn)
  · intro n question hasked
    rcases Nat.lt_or_ge n asked.length with hlt | hge
    · rw [List.getElem?_append_left hlt] at hasked
      refine (h.fate n question hasked).same ?_ ?_ fun hgone => hobject.trans hgone
      · simp [hwaiting, Nat.ne_of_lt hlt]
      · rw [hslots, List.getElem?_append_left (h.length_eq ▸ hlt)]
    · rw [List.getElem?_append_right hge, List.getElem?_singleton] at hasked
      split at hasked
      case isFalse => cases hasked
      case isTrue hlast =>
        obtain rfl : n = asked.length := Nat.le_antisymm (Nat.sub_eq_zero_iff_le.mp hlast) hge
        refine .waits (by simp [hwaiting]) ?_
        rw [hslots, ← h.length_eq]
        exact List.getElem?_concat_length

end Push

theorem Sound.release (h : Sound object done asked w.state) :
    Sound object done asked (World.release w).state where
  object_eq _ hleft := nomatch hleft
  length_eq := h.length_eq
  keeps := h.keeps
  known := h.known
  once := h.once
  fate n act hasked := (h.fate n act hasked).same .rfl rfl fun _ => rfl

/-- Whether every answer in the slots was there before. -/
def NoneAnswered (before after : List (Slot R)) : Prop :=
  ∀ (n : Nat) (value : R), after[n]? = some (.answered value) → before[n]? = some (.answered value)

theorem NoneAnswered.refl (slots : List (Slot R)) : NoneAnswered slots slots :=
  fun _ _ => id

theorem NoneAnswered.trans {first second third : List (Slot R)} (hfirst : NoneAnswered first second)
    (hrest : NoneAnswered second third) : NoneAnswered first third :=
  fun n value h => hfirst n value (hrest n value h)

theorem noneAnswered_closeAll (numbers : List Nat) (slots : List (Slot R)) :
    NoneAnswered slots (closeAll numbers slots) := by
  intro n value h
  rw [getElem?_closeAll, Option.map_eq_some_iff] at h
  obtain ⟨slot, hslot, hclosed⟩ := h
  rw [hslot]
  split at hclosed
  · cases slot with
    | answered other => exact congrArg some hclosed
    | _ => cases hclosed
  · exact congrArg some hclosed

/-- Once the object is gone, messages are dropped from the mailbox, some of them or all. -/
theorem Sound.discard (h : Sound object done asked a) (hgone : a.object = none)
    {front back : List (Envelope (Delivery T R))} (hqueue : a.mailbox.queue = front ++ back) :
    Sound object done asked { a with
      mailbox := ⟨back⟩, slots := closeAll (slotsOf (front.map Envelope.content)) a.slots } := by
  generalize hdropped : slotsOf (front.map Envelope.content) = dropped
  let left : Actor T R := { a with mailbox := ⟨back⟩, slots := closeAll dropped a.slots }
  change Sound object done asked left
  have hfewer : left.waiting.Sublist a.waiting := by
    refine List.Sublist.map _ ?_
    rw [hqueue]
    exact List.sublist_append_right front back
  have hslots : slotsOf a.waiting = dropped ++ slotsOf left.waiting := by
    rw [← hdropped, ← slotsOf_append]
    simp [waiting, left, hqueue]
  refine ⟨fun _ hobject => absurd (hgone.symm.trans hobject) nofun,
    (length_closeAll ..).trans h.length_eq, ?_, ?_, ?_, ?_⟩
  · intro e he
    refine h.keeps e ?_
    rw [hqueue]
    exact List.mem_append_right front he
  · exact fun n act hmember => h.known n act ((hfewer.append_left done).subset hmember)
  · exact h.once.sublist ((hfewer.append_left done).filterMap _)
  · intro n act hasked
    have hslot : left.slots[n]? =
        a.slots[n]?.map fun slot => if n ∈ dropped then slot.close else slot :=
      getElem?_closeAll ..
    have honce := h.once
    rw [slotsOf_append, hslots] at honce
    by_cases hmember : n ∈ dropped
    · obtain ⟨-, hrest, hdone⟩ := List.nodup_append'.mp honce
      have hleft := List.disjoint_of_nodup_append hrest hmember
      refine .resolved hleft (.closed (fun hbefore => ?_) hgone ?_)
      · exact hdone hbefore (List.mem_append_left _ hmember)
      · cases h.fate n act hasked with
        | waits _ hwaiting => simp [hslot, hwaiting, hmember, Slot.close]
        | resolved hnone _ =>
            exact absurd (hslots ▸ List.mem_append_left _ hmember) hnone
    · exact (h.fate n act hasked).same (by simp [hslots, hmember]) (by simp [hslot, hmember]) id

/-- Once the object is gone, the mailbox may go too. -/
theorem Sound.lost (h : Sound object done asked a) (hgone : a.object = none) :
    Sound object done asked a.lost :=
  h.discard hgone (List.append_nil _).symm

section Deliver

variable {e : Envelope (Delivery T R)} {back : List (Envelope (Delivery T R))}

theorem deliver_of_empty (h : w.state.mailbox.queue = []) : World.deliver w = w := by
  simp [World.deliver, Mailbox.pop?, h]

theorem state_deliver (h : w.state.mailbox.queue = e :: back) :
    (World.deliver w).state =
      (World.apply (w.modify fun x => { x with mailbox := ⟨back⟩ }) e.content).state := by
  simp only [World.deliver, Mailbox.pop?, h]
  split <;> rfl

/-- A message that finds no object is dropped. -/
theorem state_deliver_gone (hqueue : w.state.mailbox.queue = e :: back)
    (hgone : w.state.object = none) :
    (World.deliver w).state = { w.state with
      mailbox := ⟨back⟩
      slots := closeAll (slotsOf ([e].map Envelope.content)) w.state.slots } := by
  rw [state_deliver hqueue]
  cases hmessage : e.content with
  | tell act => simp [World.apply, System.modify, hgone, hmessage, closeAll]
  | ask n act => simp [World.apply, World.onSlot, System.modify, hgone, hmessage, closeAll]

/-- A delivery that finds no object answers nothing. -/
theorem deliver_gone (hgone : w.state.object = none) :
    (World.deliver w).state.object = none ∧
      NoneAnswered w.state.slots (World.deliver w).state.slots := by
  cases hqueue : w.state.mailbox.queue with
  | nil =>
      rw [deliver_of_empty hqueue]
      exact ⟨hgone, .refl _⟩
  | cons e back =>
      rw [state_deliver_gone hqueue hgone]
      exact ⟨hgone, noneAnswered_closeAll _ _⟩

/-- A message that finds an object is executed. -/
theorem state_deliver_there {found : T} (hqueue : w.state.mailbox.queue = e :: back)
    (hfound : w.state.object = some found) :
    (World.deliver w).state = ⟨some (e.content.after found), ⟨back⟩,
      e.content.answers found w.state.slots⟩ := by
  rw [state_deliver hqueue]
  cases e.content with
  | tell act => simp [World.apply, System.modify, hfound, Delivery.after, Delivery.answers]
  | ask n act =>
      simp [World.apply, World.onSlot, System.modify, hfound, Delivery.after, Delivery.answers]

/-- The question that is executed is answered, and the slots of others are left alone. -/
theorem Sound.answer (h : Sound object done asked a) {message : Delivery T R}
    {rest : List (Delivery T R)} (hwaiting : a.waiting = message :: rest)
    {n : Nat} {act : T → R × T} (hasked : asked[n]? = some act) (hmember : n ∈ slotsOf [message]) :
    message = .ask n act ∧ n ∉ slotsOf done ∧ n ∉ slotsOf rest ∧
      a.slots[n]? = some .waiting := by
  obtain ⟨question, hquestion⟩ := mem_slotsOf.mp hmember
  obtain rfl := List.mem_singleton.mp hquestion
  have hknown := h.known n question (by simp [hwaiting])
  obtain rfl := Option.some.inj (hknown.symm.trans hasked)
  have honce := h.once
  rw [hwaiting, slotsOf_append, slotsOf_ask] at honce
  obtain ⟨-, hrest, hdisjoint⟩ := List.nodup_append'.mp honce
  refine ⟨rfl, fun hdone => hdisjoint hdone List.mem_cons_self, (List.nodup_cons.mp hrest).1, ?_⟩
  cases h.fate n question hasked with
  | waits _ hslot => exact hslot
  | resolved hleft _ => exact absurd (by simp [hwaiting]) hleft

/-- A message that finds an object is executed. -/
theorem Sound.execute {found : T} (h : Sound object done asked w.state)
    (hqueue : w.state.mailbox.queue = e :: back) (hfound : w.state.object = some found) :
    Sound object (done ++ [e.content]) asked (World.deliver w).state := by
  rw [state_deliver_there hqueue hfound]
  generalize hleft : (⟨some (e.content.after found), ⟨back⟩,
    e.content.answers found w.state.slots⟩ : Actor T R) = left
  have hwaiting : w.state.waiting = e.content :: left.waiting := by
    simp [waiting, hqueue, ← hleft]
  have hall : done ++ [e.content] ++ left.waiting = done ++ w.state.waiting := by simp [hwaiting]
  obtain rfl := h.object_eq found hfound
  refine ⟨?_, ?_, ?_, ?_, ?_, ?_⟩
  · rintro _ hobject
    rw [← hleft] at hobject
    rw [executeAll_append]
    exact (Option.some.inj hobject).symm
  · rw [← h.length_eq, ← hleft]
    cases e.content with
    | tell act => rfl
    | ask n act => exact List.length_modify ..
  · intro other hother
    refine h.keeps other ?_
    rw [hqueue]
    rw [← hleft] at hother
    exact List.mem_cons_of_mem e hother
  · rw [hall]
    exact h.known
  · rw [hall]
    exact h.once
  · intro n act hasked
    by_cases hmember : n ∈ slotsOf [e.content]
    · obtain ⟨hmessage, hdone, hrest, hslot⟩ := h.answer hwaiting hasked hmember
      refine .resolved hrest (.answered done [] (by rw [hmessage]) (by simpa using hdone) ?_)
      simp [← hleft, hmessage, Delivery.answers, hslot, Slot.fill]
    · refine (h.fate n act hasked).keep ?_ ?_ (fun hgone => ?_) _ hmember
      · rw [hwaiting, ← List.singleton_append, slotsOf_append, List.mem_append]
        simp [hmember]
      · rw [← hleft]
        cases hmessage : e.content with
        | tell other => rfl
        | ask m question =>
            rw [hmessage, slotsOf_ask, slotsOf_nil, List.mem_singleton] at hmember
            exact List.getElem?_modify_ne _ _ (Ne.symm hmember)
      · exact absurd (hgone.symm.trans hfound) nofun

/-- A delivery executes the oldest message if the object is there. -/
theorem Sound.deliver (h : Sound object done asked w.state) :
    Sound object (done ++ (World.executes? w).toList) asked (World.deliver w).state := by
  cases hqueue : w.state.mailbox.queue with
  | nil =>
      have hnone : World.executes? w = none := by simp [World.executes?, waiting, hqueue]
      rw [hnone, deliver_of_empty hqueue]
      simpa using h
  | cons e back =>
      cases hobject : w.state.object with
      | none =>
          have hnone : World.executes? w = none := by simp [World.executes?, hobject]
          rw [hnone, state_deliver_gone hqueue hobject]
          have hsplit : w.state.mailbox.queue = [e] ++ back := hqueue
          simpa using h.discard hobject hsplit
      | some found =>
          have hsome : World.executes? w = some e.content := by
            simp [World.executes?, hobject, waiting, hqueue]
          rw [hsome]
          exact h.execute hqueue hobject

end Deliver

section Run

variable {h : Held T R}

theorem Sound.act (hsound : Sound object done asked h.world.state) (a : Act T R) :
    Sound object (done ++ (h.executes? a).toList) (asked ++ (h.asks? a).toList)
      (h.act a).world.state := by
  cases step_act h a with
  | rests hworld hexecutes hasks => simpa [hworld, hexecutes, hasks] using hsound
  | tells identifier duplication act hworld hexecutes hasks =>
      simpa [hworld, hexecutes, hasks] using hsound.tell identifier duplication act
  | asks identifier act hworld hexecutes hasks =>
      simpa [hworld, hexecutes, hasks] using hsound.ask identifier act
  | releases hworld hexecutes hasks => simpa [hworld, hexecutes, hasks] using hsound.release
  | loses hgone hworld hexecutes hasks =>
      simpa [hworld, hexecutes, hasks, System.modify] using hsound.lost hgone
  | delivers rest _ hworld hexecutes hasks =>
      rw [hworld, hexecutes, hasks, Option.toList_none, List.append_nil]
      exact Sound.deliver (w := { h.world with scheduler := rest }) hsound

theorem sound_run (object : T) (acts : List (Act T R)) :
    Sound object ((Held.start object).executed acts) ((Held.start object).asked acts)
      ((Held.start object).run acts).world.state := by
  induction acts using List.reverseRecOn with
  | nil => exact Sound.start object
  | append_singleton acts a ih =>
      rw [executed_append, asked_append, run_append, executed_single, asked_single]
      exact ih.act a

/-- An object that is gone does not come back, and nothing is executed or answered any more. -/
theorem act_gone (hgone : h.world.state.object = none) (a : Act T R) :
    (h.act a).world.state.object = none ∧ h.executes? a = none ∧
      NoneAnswered h.world.state.slots (h.act a).world.state.slots := by
  cases step_act h a with
  | rests hworld hexecutes =>
      rw [hworld]
      exact ⟨hgone, hexecutes, .refl _⟩
  | tells identifier duplication act hworld hexecutes =>
      have hsame : World.tell h.world identifier duplication act = h.world := by
        simp only [World.tell, hgone]
      rw [hworld, hsame]
      exact ⟨hgone, hexecutes, .refl _⟩
  | asks identifier act hworld hexecutes =>
      rw [hworld, World.ask, state_push]
      refine ⟨hgone, hexecutes, fun n value hanswered => ?_⟩
      simp only [System.modify, List.getElem?_append] at hanswered
      split at hanswered
      · exact hanswered
      · rw [List.getElem?_singleton] at hanswered
        split at hanswered <;> cases hanswered
  | releases hworld hexecutes =>
      rw [hworld]
      exact ⟨rfl, hexecutes, .refl _⟩
  | loses _ hworld hexecutes =>
      rw [hworld]
      exact ⟨hgone, hexecutes, noneAnswered_closeAll _ _⟩
  | delivers rest _ hworld hexecutes =>
      obtain ⟨hobject, hslots⟩ := deliver_gone (w := { h.world with scheduler := rest }) hgone
      rw [hworld]
      exact ⟨hobject, by simp [hexecutes, World.executes?, hgone], hslots⟩

theorem run_gone (hgone : h.world.state.object = none) (acts : List (Act T R)) :
    (h.run acts).world.state.object = none ∧ h.executed acts = [] ∧
      NoneAnswered h.world.state.slots (h.run acts).world.state.slots := by
  induction acts generalizing h with
  | nil => exact ⟨hgone, rfl, .refl _⟩
  | cons a rest ih =>
      obtain ⟨hafter, hnone, hfirst⟩ := act_gone hgone a
      obtain ⟨hlast, hrest, hslots⟩ := ih hafter
      refine ⟨hlast, ?_, hfirst.trans hslots⟩
      rw [← List.singleton_append, executed_append, executed_single, hnone]
      exact hrest

/-- What follows the release of an object is without effect. -/
theorem run_release (front later : List (Act T R)) :
    h.executed (front ++ .release :: later) = h.executed front ∧
      (h.run (front ++ .release :: later)).world.state.object = none ∧
      NoneAnswered (h.run front).world.state.slots
        (h.run (front ++ .release :: later)).world.state.slots := by
  obtain ⟨hgone, hnone, hslots⟩ :=
    run_gone (h := (h.run front).act .release) rfl later
  rw [← List.singleton_append, executed_append, executed_append, executed_single, run_append]
  exact ⟨(congrArg _ hnone).trans (List.append_nil _), hgone, hslots⟩

end Run

end MapTiles.Actor
