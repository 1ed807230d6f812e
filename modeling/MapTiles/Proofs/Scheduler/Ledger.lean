import MapTiles.Proofs.Scheduler.Deeds

/-!
What has become of the signals, told from the deeds alone. A future that is added opens a wait on
each channel that it names. Sending on a channel, or dropping a sender, answers the oldest wait on
it that is still open. The ledger of the waits is kept without a look at the signals and senders of
the exchange, and these agree with it.
-/

namespace MapTiles.Script

/-- The waits that were opened, in order: the channel of each, and what has become of it. -/
abbrev Ledger : Type :=
  List (String × Signal)

namespace Ledger

/-- Answers the oldest wait on a channel that is open, if there is one. -/
def answer (ledger : Ledger) (channel : String) (signal : Signal) : Ledger :=
  ledger.replace (channel, .pending) (channel, signal)

def enter (ledger : Ledger) : Deed → Ledger
  | .spawn _ channels _ => ledger ++ channels.map fun channel => (channel, .pending)
  | .send channel => ledger.answer channel .sent
  | .drop channel => ledger.answer channel .dropped
  | .note _ | .task _ _ => ledger

def enterAll (ledger : Ledger) (deeds : List Deed) : Ledger :=
  deeds.foldl enter ledger

theorem enterAll_append (ledger : Ledger) (front back : List Deed) :
    ledger.enterAll (front ++ back) = (ledger.enterAll front).enterAll back :=
  List.foldl_append

/-- What has become of the first of several waits that was not answered by sending. -/
def unsent? (ledger : Ledger) (waits : List (String × Nat)) : Option Signal :=
  (waits.map fun wait => (ledger.getD wait.2 (wait.1, .pending)).2).find? fun signal =>
    decide (signal ≠ .sent)

theorem ne_sent_of_unsent? {ledger : Ledger} {waits : List (String × Nat)} {signal : Signal}
    (h : ledger.unsent? waits = some signal) : signal ≠ .sent := by
  have hfound := List.find?_some h
  simpa using hfound

/-- The first wait that was not answered by sending is the one at which a future stands. -/
theorem unsent?_eq {ledger : Ledger} {signals : List Signal} {waits : List (String × Nat)}
    (h : ∀ wait ∈ waits, ∃ signal, ledger[wait.2]? = some (wait.1, signal) ∧
      signals[wait.2]? = some signal) :
    ledger.unsent? waits = (stillOpen signals waits).head?.bind fun wait => signals[wait.2]? := by
  induction waits with
  | nil => rfl
  | cons wait rest ih =>
      obtain ⟨signal, hledger, hsignal⟩ := h wait List.mem_cons_self
      have hrest := ih fun later hlater => h later (List.mem_cons_of_mem wait hlater)
      have hanswer : (ledger.getD wait.2 (wait.1, .pending)).2 = signal := by
        rw [List.getD_eq_getElem?_getD, hledger]
        rfl
      unfold unsent? stillOpen at hrest ⊢
      rw [List.map_cons, List.find?_cons, hanswer, List.dropWhile_cons, hsignal]
      by_cases hsent : signal = .sent
      · subst hsent
        exact hrest
      · simp [hsent, hsignal]

/-- The waits that are open, the oldest first, each with its number. -/
def openFrom (first : Nat) : Ledger → List (String × Nat)
  | [] => []
  | entry :: rest =>
    if entry.2 = .pending then (entry.1, first) :: openFrom (first + 1) rest
    else openFrom (first + 1) rest

theorem openFrom_append (first : Nat) (front back : Ledger) :
    openFrom first (front ++ back) =
      openFrom first front ++ openFrom (first + front.length) back := by
  induction front generalizing first with
  | nil => rfl
  | cons entry rest ih =>
      rw [List.cons_append, openFrom, openFrom, ih, List.length_cons, Nat.add_right_comm first 1,
        Nat.add_assoc]
      split <;> rfl

theorem openFrom_pending (first : Nat) (channels : List String) :
    openFrom first (channels.map fun channel => (channel, .pending)) = channels.zipIdx first := by
  induction channels generalizing first with
  | nil => rfl
  | cons channel rest ih =>
      rw [List.map_cons, openFrom, if_pos rfl, ih, List.zipIdx_cons]

/-- Answering a channel answers the wait whose sender is the first one on it, if there is any. -/
theorem answer_cases (ledger : Ledger) (first : Nat) (channel : String) {signal : Signal}
    (hsignal : signal ≠ .pending) :
    (((openFrom first ledger).find? fun sender => sender.1 = channel) = none ∧
        ledger.answer channel signal = ledger) ∨
      ∃ n, ((openFrom first ledger).find? fun sender => sender.1 = channel) =
          some (channel, first + n) ∧
        ledger[n]? = some (channel, .pending) ∧
        ledger.answer channel signal = ledger.set n (channel, signal) ∧
        openFrom first (ledger.set n (channel, signal)) =
          (openFrom first ledger).erase (channel, first + n) := by
  induction ledger generalizing first with
  | nil => exact .inl ⟨rfl, rfl⟩
  | cons entry rest ih =>
      by_cases hentry : entry = (channel, .pending)
      · subst hentry
        exact .inr ⟨0, by simp [openFrom], rfl, by simp [answer], by simp [openFrom, hsignal]⟩
      · have hanswer : answer (entry :: rest) channel signal =
            entry :: answer rest channel signal := by
          rw [answer, List.replace_cons, beq_false_of_ne (Ne.symm hentry)]
          rfl
        have hfind : ((openFrom first (entry :: rest)).find? fun sender => sender.1 = channel) =
            (openFrom (first + 1) rest).find? fun sender => sender.1 = channel := by
          rw [openFrom]
          split
          case isTrue hpending =>
            have hother : entry.1 ≠ channel := fun hsame => hentry (Prod.ext hsame hpending)
            simp [hother]
          case isFalse => rfl
        rw [hfind, hanswer]
        rcases ih (first + 1) with ⟨hnone, hsame⟩ | ⟨n, hsome, hget, hset, hopen⟩
        · exact .inl ⟨hnone, congrArg (entry :: ·) hsame⟩
        · have hnext : first + 1 + n = first + (n + 1) := by omega
          rw [hnext] at hsome hopen
          refine .inr ⟨n + 1, hsome, hget, congrArg (entry :: ·) hset, ?_⟩
          rw [List.set_cons_succ, openFrom, openFrom, hopen]
          split
          · have hother : ¬((entry.1, first) == (channel, first + (n + 1))) = true := by
              simp
            rw [List.erase_cons_tail hother]
          · rfl

/-- A ledger tells the signals and senders of a world. Each of its waits is open or was answered. -/
structure Tells (ledger : Ledger) (w : World) : Prop where
  answers : ∀ entry ∈ ledger, entry.2 ≠ .unheard
  senders_eq : w.state.senders = openFrom 0 ledger
  length_eq : w.state.signals.length = ledger.length
  /-- What a future waits for is as the ledger has it. -/
  waits : ∀ f ∈ w.scheduler.futures, ∀ wait ∈ f.waits, ∃ signal,
    ledger[wait.2]? = some (wait.1, signal) ∧ w.state.signals[wait.2]? = some signal
  /-- No two futures share a signal. -/
  apart : (w.scheduler.futures.flatMap fun f => f.waits.map Prod.snd).Nodup

theorem tells_start : Tells [] World.start :=
  ⟨nofun, rfl, rfl, nofun, .nil⟩

namespace Tells

variable {ledger : Ledger} {w : World}

/-- Using the oldest sender of a channel answers the oldest open wait on it. -/
theorem useSender (h : ledger.Tells w) (channel : String) {signal : Signal}
    (hpending : signal ≠ .pending) (hheard : signal ≠ .unheard) :
    (ledger.answer channel signal).Tells (World.useSender w channel signal).2.2 := by
  unfold World.useSender
  rw [h.senders_eq]
  rcases answer_cases ledger 0 channel hpending with ⟨hnone, hsame⟩ | ⟨n, hsome, hget, hset, hopen⟩
  · rw [hnone, hsame]
    exact h
  · rw [hsome, hset]
    rw [Nat.zero_add] at hopen ⊢
    refine ⟨fun entry hentry => ?_, ?_, ?_, fun f hf wait hwait => ?_, h.apart⟩
    · rcases List.mem_or_eq_of_mem_set hentry with hold | rfl
      · exact h.answers entry hold
      · exact hheard
    · dsimp only [System.modify]
      rw [hopen, h.senders_eq]
    · dsimp only [System.modify]
      rw [List.length_set, ← h.length_eq]
      split
      · exact List.length_set
      · rfl
    · obtain ⟨old, hledger, hsignal⟩ := h.waits f hf wait hwait
      dsimp only [System.modify]
      by_cases hn : n = wait.2
      -- a future that waits for the signal has not ended, so the signal is still heard
      · subst hn
        obtain ⟨rfl, rfl⟩ := Prod.mk.inj (Option.some.inj (hget.symm.trans hledger))
        have hin : wait.2 < ledger.length := (List.getElem?_eq_some_iff.mp hget).1
        refine ⟨signal, List.getElem?_set_self hin, ?_⟩
        rw [hsignal, if_pos (by simp)]
        exact List.getElem?_set_self (h.length_eq ▸ hin)
      · refine ⟨old, (List.getElem?_set_ne hn).trans hledger, ?_⟩
        split
        · exact (List.getElem?_set_ne hn).trans hsignal
        · exact hsignal

/-- A future waits for signals that were opened before. -/
theorem lt_length (h : ledger.Tells w) {f : Waiting} (hf : f ∈ w.scheduler.futures)
    {wait : String × Nat} (hwait : wait ∈ f.waits) : wait.2 < ledger.length := by
  obtain ⟨signal, hledger, -⟩ := h.waits f hf wait hwait
  exact (List.getElem?_eq_some_iff.mp hledger).1

theorem spawn (h : ledger.Tells w) (name : String) (channels : List String)
    (follow : List Action) :
    Tells (ledger ++ channels.map fun channel => (channel, .pending))
      (World.spawn w name channels follow) where
  answers := by
    intro entry hentry
    rcases List.mem_append.mp hentry with hold | hnew
    · exact h.answers entry hold
    · obtain ⟨channel, -, rfl⟩ := List.mem_map.mp hnew
      exact nofun
  senders_eq := by
    rw [openFrom_append, openFrom_pending, Nat.zero_add, ← h.length_eq, ← h.senders_eq]
    rfl
  length_eq := by
    simp [World.spawn, System.spawn, System.modify, h.length_eq]
  waits := by
    intro f hf wait hwait
    change ∃ signal, _ ∧ (w.state.signals ++ channels.map fun _ => Signal.pending)[wait.2]? = _
    rcases List.mem_append.mp hf with hold | hnew
    · obtain ⟨signal, hledger, hsignal⟩ := h.waits f hold wait hwait
      have hlt := h.lt_length hold hwait
      refine ⟨signal, ?_, ?_⟩
      · rwa [List.getElem?_append_left hlt]
      · rwa [List.getElem?_append_left (h.length_eq ▸ hlt)]
    · obtain rfl := List.mem_singleton.mp hnew
      obtain ⟨hle, hget⟩ := List.mem_zipIdx_iff_le_and_getElem?_sub.mp hwait
      refine ⟨.pending, ?_, ?_⟩
      · rw [List.getElem?_append_right (h.length_eq ▸ hle), List.getElem?_map, ← h.length_eq, hget]
        rfl
      · rw [List.getElem?_append_right hle, List.getElem?_map, hget]
        rfl
  apart := by
    change ((w.scheduler.futures ++ [_]).flatMap _).Nodup
    rw [List.flatMap_append, List.flatMap_singleton, List.zipIdx_map_snd]
    refine List.nodup_append.mpr ⟨h.apart, List.nodup_range', fun n hold m hnew => ?_⟩
    obtain ⟨f, hf, hn⟩ := List.mem_flatMap.mp hold
    obtain ⟨wait, hwait, rfl⟩ := List.mem_map.mp hn
    have hlt := h.lt_length hf hwait
    have hle := (List.mem_range'_1.mp hnew).1
    rw [h.length_eq] at hle
    exact Nat.ne_of_lt (Nat.lt_of_lt_of_le hlt hle)

/-- Work that leaves the exchange of signals alone, and no other futures than before. -/
theorem of_perm {after : World} (h : ledger.Tells w)
    (hfutures : w.scheduler.futures.Perm after.scheduler.futures)
    (hsenders : after.state.senders = w.state.senders)
    (hsignals : after.state.signals = w.state.signals) : ledger.Tells after where
  answers := h.answers
  senders_eq := hsenders.trans h.senders_eq
  length_eq := hsignals ▸ h.length_eq
  waits f hf := hsignals ▸ h.waits f (hfutures.mem_iff.mpr hf)
  apart := (hfutures.flatMap_right _).nodup_iff.mp h.apart

/-- The signals of a future that ended no longer matter. -/
theorem ended {after : World} {f : Waiting} (h : ledger.Tells w)
    (hfutures : w.scheduler.futures.Perm (f :: after.scheduler.futures))
    (hsenders : after.state.senders = w.state.senders)
    (hlength : after.state.signals.length = w.state.signals.length)
    (hsignals : ∀ n, n ∉ f.waits.map Prod.snd → after.state.signals[n]? = w.state.signals[n]?) :
    ledger.Tells after := by
  have hapart := (hfutures.flatMap_right fun f => f.waits.map Prod.snd).nodup_iff.mp h.apart
  rw [List.flatMap_cons, List.nodup_append] at hapart
  refine ⟨h.answers, hsenders.trans h.senders_eq, hlength.trans h.length_eq, ?_, hapart.2.1⟩
  intro other hother wait hwait
  obtain ⟨signal, hledger, hsignal⟩ :=
    h.waits other (hfutures.mem_iff.mpr (List.mem_cons_of_mem f hother)) wait hwait
  refine ⟨signal, hledger, (hsignals wait.2 fun hmine => ?_).trans hsignal⟩
  have hmem : wait.2 ∈ after.scheduler.futures.flatMap fun f => f.waits.map Prod.snd :=
    List.mem_flatMap.mpr ⟨other, hother, List.mem_map.mpr ⟨wait, hwait, rfl⟩⟩
  exact hapart.2.2 wait.2 hmine wait.2 hmem rfl

theorem run (h : ledger.Tells w) (deed : Deed) : (ledger.enter deed).Tells (deed.run w) := by
  cases deed with
  | note name => exact h.of_perm (.refl _) rfl rfl
  | task delay job =>
      refine h.of_perm (.of_eq ?_) rfl rfl
      change w.scheduler.futures = (w.scheduler.addTask delay job).futures
      unfold Scheduler.addTask
      split <;> rfl
  | spawn name channels follow => exact h.spawn name channels follow
  | send channel => exact h.useSender channel nofun nofun
  | drop channel => exact h.useSender channel nofun nofun

theorem execute (h : ledger.Tells w) (deeds : List Deed) :
    (ledger.enterAll deeds).Tells (Script.execute deeds w) := by
  induction deeds generalizing ledger w with
  | nil => exact h
  | cons deed rest ih => exact ih (h.run deed)

end Tells

end Ledger

end MapTiles.Script
