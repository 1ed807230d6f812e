import MapTiles.Proofs.Loading.Arrival
import MapTiles.Proofs.Source.Effects
import MapTiles.Proofs.Source.Settled

/-!
What a turn of a source says about the tiles that have arrived. The published tiles are always
those, and the mark for a change is set by every change and cleared only by a notification. A
notification is the last thing that a turn does.
-/

namespace MapTiles.Source

variable {P : Type}

def Effect.isNotice : Effect → Bool
  | .notify => true
  | _ => false

/-- The number of notifications that effects give. -/
def notices (effects : List Effect) : Nat :=
  effects.countP Effect.isNotice

/-- What is published are the tiles that have arrived, each filed under its own coordinates. -/
structure Faithful (s : Source P) : Prop where
  published_eq : s.published = s.loading.residents
  filed : s.loading.Filed

/-- A part of a turn that notifies nobody. -/
structure Turn.Silent (before : Source P) (t : Turn P) : Prop where
  setup_eq : t.source.setup = before.setup
  faithful : t.source.Faithful
  changed_iff : t.source.changed = true ↔
    before.changed = true ∨ t.source.loading.resident ≠ before.loading.resident
  silent : notices t.effects = 0
  /-- A flush is owed only if one was owed before or is posted now. -/
  flush : t.source.flushQueued = true → before.flushQueued = true ∨ 0 < flushes t.effects

/-- A change that nobody was told of is told by the flush that is on its way. -/
def Flushed (s : Source P) : Prop :=
  s.paused = false → s.changed = true → s.flushQueued = true

/-- What a whole turn says. Either it notifies nobody, or it ends with a notification, which tells
of a change in this turn or before it. -/
inductive Turn.Tells (before : Source P) (t : Turn P) : Prop
  | silent (h : t.Silent before) (hflushed : t.source.Flushed)
  | aloud (earlier : Turn P) (h : earlier.Silent before) (hactive : earlier.source.paused = false)
      (hchanged : earlier.source.changed = true)
      (hturn : t = ⟨{ earlier.source with changed := false },
        earlier.effects ++ if earlier.source.setup.listening then [.notify] else []⟩)

@[simp] theorem notices_append (a b : List Effect) : notices (a ++ b) = notices a + notices b :=
  List.countP_append

@[simp] theorem flushes_append (a b : List Effect) : flushes (a ++ b) = flushes a + flushes b :=
  List.countP_append

@[simp] theorem notices_loads (key : Tile → String) (rs : List Request) :
    notices (rs.map fun r => .load r.tile (key r.tile)) = 0 := by
  simp [notices, Effect.isNotice]

@[simp] theorem notices_cancels (key : Tile → String) (tiles : List Tile) :
    notices (tiles.map fun t => .cancel t (key t)) = 0 := by
  simp [notices, Effect.isNotice]

variable {before s : Source P} {t : Turn P}

/-- Only one of two parts of a turn changes the tiles that have arrived. -/
theorem Turn.Silent.andThen (h : t.Silent before) {next : Source P → Turn P}
    (hnext : (next t.source).Silent t.source)
    (honce : t.source.loading.resident = before.loading.resident ∨
      (next t.source).source.loading.resident = t.source.loading.resident) :
    (t.andThen next).Silent before where
  setup_eq := hnext.setup_eq.trans h.setup_eq
  faithful := hnext.faithful
  changed_iff := by
    change (next t.source).source.changed = true ↔
      before.changed = true ∨ (next t.source).source.loading.resident ≠ before.loading.resident
    rw [hnext.changed_iff, h.changed_iff]
    rcases honce with hsame | hsame
    · simp [hsame]
    · simp [hsame]
  silent := by
    change notices (t.effects ++ (next t.source).effects) = 0
    rw [notices_append, h.silent, hnext.silent]
  flush hqueued := by
    change before.flushQueued = true ∨ 0 < flushes (t.effects ++ (next t.source).effects)
    rw [flushes_append]
    rcases hnext.flush hqueued with hbefore | hposted
    · exact (h.flush hbefore).imp_right fun hearlier => Nat.add_pos_left hearlier _
    · exact .inr (Nat.add_pos_right _ hposted)

/-- A source that goes on with the same tiles. -/
theorem Faithful.silent (h : s.Faithful) (next : Turn P)
    (hresident : next.source.loading.resident = s.loading.resident)
    (hpublished : next.source.published = s.published)
    (hsetup : next.source.setup = s.setup) (hchanged : next.source.changed = s.changed)
    (hflush : next.source.flushQueued = true → s.flushQueued = true ∨ 0 < flushes next.effects)
    (hnotices : notices next.effects = 0) : next.Silent s where
  setup_eq := hsetup
  faithful := by
    refine ⟨?_, fun t r hr => h.filed t r (hresident ▸ hr)⟩
    rw [hpublished, h.published_eq, Loading.residents, Loading.residents, hresident]
  changed_iff := by simp [hchanged, hresident]
  silent := hnotices
  flush := hflush

theorem Faithful.published_toList (h : s.Faithful) :
    s.published.map (fun r => (r.tile, r)) = s.loading.resident.toList := by
  rw [h.published_eq]
  exact h.filed.residents_eq

/-- The published tiles are those that have arrived, in tile order. -/
theorem Faithful.published_tiles (h : s.Faithful) :
    s.published.map Resident.tile = s.loading.resident.keys := by
  rw [← Std.ExtTreeMap.map_fst_toList_eq_keys, ← h.published_toList, List.map_map]
  rfl

theorem Faithful.idle (h : s.Faithful) : (Turn.idle s).Silent s :=
  h.silent (.idle s) rfl rfl rfl rfl .inl rfl

theorem Faithful.dispatch (h : s.Faithful) : s.dispatch.Silent s := by
  cases hpaused : s.paused with
  | true =>
      rw [dispatch_of_paused hpaused]
      exact h.idle
  | false =>
      rw [dispatch_of_active hpaused]
      exact h.silent _ (Loading.resident_dispatchAll s.loading) rfl rfl rfl .inl (notices_loads ..)

theorem Faithful.scheduleRetry (h : s.Faithful) (now : Instant) :
    (s.scheduleRetry now).Silent s := by
  rcases scheduleRetry_cases s now with ⟨hidle, -⟩ | ⟨due, -, -, -, hset⟩
  · rw [hidle]
    exact h.idle
  · rw [hset]
    exact h.silent _ rfl rfl rfl rfl .inl rfl

theorem resident_dispatch (s : Source P) :
    s.dispatch.source.loading.resident = s.loading.resident := by
  cases hpaused : s.paused with
  | true => rw [dispatch_of_paused hpaused, Turn.idle]
  | false =>
      rw [dispatch_of_active hpaused]
      exact Loading.resident_dispatchAll s.loading

theorem Turn.Silent.settle (h : t.Silent before) (now : Instant) : (t.settle now).Silent before :=
  (h.andThen h.faithful.dispatch (.inr (resident_dispatch _))).andThen
    (h.faithful.dispatch.faithful.scheduleRetry now)
    (.inr (congrArg Loading.resident (loading_scheduleRetry _ now)))

theorem Faithful.queueFlush (h : s.Faithful) : s.queueFlush.Silent s := by
  rcases queueFlush_cases s with ⟨hidle, -⟩ | ⟨-, -, hposted⟩
  · rw [hidle]
    exact h.idle
  · rw [hposted]
    exact h.silent _ rfl rfl rfl rfl (fun _ => .inr Nat.one_pos) rfl

/-- Tiles that have arrived or were dropped are published at once. -/
theorem silent_publish (hfiled : s.loading.Filed)
    (hchanged : s.loading.resident ≠ before.loading.resident)
    (hsetup : s.setup = before.setup) (hflush : s.flushQueued = before.flushQueued)
    {effects : List Effect} (hnotices : notices effects = 0) :
    (⟨s.publish, effects⟩ : Turn P).Silent before where
  setup_eq := hsetup
  faithful := ⟨rfl, hfiled⟩
  changed_iff := iff_of_true rfl (.inr hchanged)
  silent := hnotices
  flush hqueued := .inl (hflush ▸ hqueued)

theorem Faithful.moved (h : s.Faithful) (now : Instant) (view : WantedView) :
    (s.moved now view).Silent s := by
  have hreports := Loading.residentChanged_iff s.loading (s.viewTiles view) now
  let next : Source P := { s with
    viewBounds := s.convertedBounds? view
    loading := (s.loading.updateVisible (s.viewTiles view) now).1 }
  have hfiled : next.loading.Filed := h.filed.updateVisible (s.viewTiles view) now
  simp only [Source.moved]
  split
  case isTrue hchanged =>
    exact silent_publish (s := next) hfiled (hreports.mp hchanged) rfl rfl (notices_cancels ..)
  case isFalse hsame =>
    exact h.silent _ (not_not.mp (mt hreports.mpr hsame)) rfl rfl rfl .inl (notices_cancels ..)

theorem Faithful.taken (h : s.Faithful) (hconsistent : s.loading.Consistent) (now : Instant)
    (t : Tile) (outcome : Outcome P) : (s.taken now t outcome).Silent s := by
  have hreports := Loading.stored_iff hconsistent t outcome now
  let next : Source P := { s with loading := (s.loading.complete t outcome now).1 }
  have hfiled : next.loading.Filed := h.filed.complete t outcome now
  simp only [Source.taken]
  split
  case isTrue hstored =>
    have hpublished : (Turn.idle next.publish).Silent s :=
      silent_publish (s := next) hfiled (hreports.mp hstored) rfl rfl rfl
    exact hpublished.andThen hpublished.faithful.queueFlush
      (.inr (congrArg Loading.resident (loading_queueFlush next.publish)))
  case isFalse hsame => exact h.silent _ (not_not.mp (mt hreports.mpr hsame)) rfl rfl rfl .inl rfl

theorem Faithful.noted (h : s.Faithful) (message : Message P) :
    (Turn.idle (s.noted message)).Silent s := by
  cases message with
  | pause =>
      simp only [Source.noted, Source.pause]
      split
      all_goals exact h.silent _ rfl rfl rfl rfl .inl rfl
  | reload =>
      have hreports := Loading.reset_iff s.loading
      let next : Source P := { s with loading := s.loading.reset.1 }
      have hfiled : next.loading.Filed := by simp [next, Loading.reset, Loading.Filed]
      simp only [Source.noted]
      split
      case isTrue hdropped =>
        exact silent_publish (s := next) hfiled (hreports.mp hdropped) rfl rfl rfl
      case isFalse hsame =>
        exact h.silent _ (not_not.mp (mt hreports.mpr hsame)) rfl rfl rfl .inl rfl
  | flush => exact h.silent _ rfl rfl rfl rfl (absurd · Bool.false_ne_true) rfl
  | _ => exact h.silent _ rfl rfl rfl rfl .inl rfl

/-- A turn may end with a notification. -/
theorem Turn.Silent.notifyIfChanged (h : t.Silent before) :
    (t.andThen Source.notifyIfChanged).Tells before := by
  rcases notifyIfChanged_cases t.source with ⟨hidle, hknown⟩ | ⟨hactive, hchanged, htold⟩
  · have hsame : t.andThen Source.notifyIfChanged = t := by
      simp [Turn.andThen, hidle, Turn.idle]
    rw [hsame]
    refine .silent h fun hactive hchanged => ?_
    rw [hknown hactive] at hchanged
    cases hchanged
  · exact .aloud t h hactive hchanged (by simp [Turn.andThen, htold])

/-- Starting loads and setting the timer does not change what is owed. -/
theorem flushed_settle (h : t.source.Flushed) (now : Instant) : (t.settle now).source.Flushed := by
  have hdispatch : t.source.dispatch.source.Flushed := by
    cases hpaused : t.source.paused with
    | true =>
        rw [dispatch_of_paused hpaused]
        exact h
    | false =>
        rw [dispatch_of_active hpaused]
        exact h
  change (t.source.dispatch.source.scheduleRetry now).source.Flushed
  rcases scheduleRetry_cases t.source.dispatch.source now with ⟨hidle, -⟩ | ⟨due, -, -, -, hset⟩
  · rw [hidle]
    exact hdispatch
  · rw [hset]
    exact hdispatch

/-- A tile that was stored is owed to the listener. -/
theorem flushed_taken (h : s.Flushed) (now : Instant) (t : Tile) (outcome : Outcome P) :
    (s.taken now t outcome).source.Flushed := by
  simp only [Source.taken]
  split
  case isTrue =>
    intro hactive _
    generalize Source.publish _ = next at hactive ⊢
    rcases queueFlush_cases next with ⟨hidle, hqueued⟩ | ⟨-, -, hposted⟩
    · rw [hidle] at hactive ⊢
      exact hqueued hactive
    · rw [hposted]
  case isFalse => exact h

/-- Before the first view there is nothing to drop. -/
theorem flushed_blank {setup : Setup} {limits : Nat × BackoffPolicy} (h : s.Flushed)
    (hfaithful : s.Faithful) (hsettled : s.Settled setup limits) {message : Message P}
    (hsteers : message.steers = true) (hwanted : (s.noted message).wanted = none) :
    (s.noted message).Flushed := by
  have hnone : s.wanted = none := by
    cases message with
    | «show» view => cases hwanted
    | reload =>
        simp only [Source.noted] at hwanted
        split at hwanted <;> exact hwanted
    | _ => first | exact hwanted | cases hsteers
  have hempty : s.loading.resident = ∅ := by
    rw [Std.ExtTreeMap.eq_empty_iff_forall_not_mem]
    intro t ht
    have hvisible := hsettled.consistent.resident_visible t ht
    simp [hsettled.unseen hnone] at hvisible
  have hresident : (s.noted message).loading.resident = s.loading.resident := by
    rcases loading_noted_cases s message with hsame | ⟨-, hcleared⟩ | ⟨-, hreset⟩
    · rw [hsame]
    · rw [hcleared]
      rfl
    · rw [hreset, hempty]
      rfl
  have hchanged := (hfaithful.noted message).changed_iff
  simp only [Turn.idle, hresident, ne_eq, not_true_eq_false, or_false] at hchanged
  obtain ⟨hpaused, hflush⟩ := noted_of_steers (s := s) hsteers
  unfold Flushed
  rw [hpaused, hchanged, hflush]
  exact h

/-- Every message says what it has to say. -/
theorem tells_handle {setup : Setup} {limits : Nat × BackoffPolicy} (h : s.Faithful)
    (hflushed : s.Flushed) (hsettled : s.Settled setup limits) (now : Instant)
    (message : Message P) : (s.handle now message).Tells s := by
  have hnoted := h.noted message
  have hhandled := handling now s message
  generalize s.handle now message = turn at hhandled ⊢
  cases hhandled with
  | rests _ _ hpaused =>
      refine .silent hnoted fun hactive _ => ?_
      exact absurd (hpaused.symm.trans hactive) nofun
  | blank _ hsteers hwanted =>
      exact .silent hnoted (flushed_blank hflushed h hsettled hsteers hwanted)
  | goesOn => exact .silent h.idle hflushed
  | answers slot question => exact .silent (h.silent _ rfl rfl rfl rfl .inl rfl) hflushed
  | shows _ view =>
      rw [showView_eq]
      have hmoved : ((Turn.idle (s.noted message)).andThen (Source.moved now view)).Silent s := by
        refine hnoted.andThen (hnoted.faithful.moved now view) ?_
        rcases loading_noted_cases s message with hsame | ⟨-, hcleared⟩ | ⟨-, hreset⟩
        · exact .inl (congrArg Loading.resident hsame)
        · exact .inl ((congrArg Loading.resident hcleared).trans rfl)
        -- a new view has nothing to drop once everything was forgotten
        · right
          obtain ⟨published, changed, hmoved⟩ := (s.noted message).moved_source now view
          have hnone : (s.noted message).loading.resident = ∅ := by
            rw [hreset]
            rfl
          simp only [Turn.idle, hmoved, Loading.resident_updateVisible, hnone]
          exact Std.ExtTreeMap.filter_eq_self_iff.mpr (by simp)
      exact (hmoved.settle now).notifyIfChanged
  | notifies => exact hnoted.notifyIfChanged
  | takes t outcome =>
      rw [takeOutcome_eq]
      exact .silent ((h.taken hsettled.consistent now t outcome).settle now)
        (flushed_settle (flushed_taken hflushed now t outcome) now)
  | retries =>
      let next : Source P := { s.noted .retry with loading := (s.loading.enqueueDue now).1 }
      have hnext : (Turn.idle next).Silent s :=
        h.silent _ (Loading.resident_enqueueDue s.loading now) rfl rfl rfl .inl rfl
      exact .silent (hnext.settle now) (flushed_settle (t := .idle next) hflushed now)

end MapTiles.Source
