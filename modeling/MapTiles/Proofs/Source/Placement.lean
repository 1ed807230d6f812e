import MapTiles.Proofs.Grid
import MapTiles.Proofs.Loading.Difference
import MapTiles.Proofs.Source.Cancellation
import MapTiles.Proofs.Source.Notices

/-!
Where the tiles that have arrived lie. The rectangle of a tile is copied when its load ends, from
the view that is shown then, and later views do not touch the copy. It never differs from what the
view shown last says all the same, because the zoom table gives every tile a single rectangle and
every copy is that one.
-/

namespace MapTiles

namespace Converter

/-- Whether a converted rectangle is one of the target system. -/
def Reaches (convert : Converter) (target : Int) : Prop :=
  ∀ r converted, rect convert target r = .ok converted → converted.system = target

end Converter

namespace Source

variable {κ P : Type}

/-- Whether a message makes a source show its view again. -/
def refreshes (s : Source P) : Message P → Bool
  | .resume => s.paused
  | message => message.steers && !s.paused

/-- The tiles of the view that a message makes a source show, unless it shows none. -/
def shown? (s : Source P) (message : Message P) : Option (List (GridTile Float)) :=
  if s.refreshes message then (s.noted message).wanted.map (s.noted message).viewTiles else none

/-- The tiles of the view that an act makes the source show, unless it shows none. -/
def World.shown? (w : World κ P) (a : Act P) : Option (List (GridTile Float)) := do
  let (message, _) ← World.delivered? w a
  let s ← w.state.source
  s.shown? message

theorem shown_of_steers {s : Source P} {message : Message P} (hsteers : message.steers = true) :
    s.shown? message =
      if s.paused then none else (s.noted message).wanted.map (s.noted message).viewTiles := by
  have hrefreshes : s.refreshes message = !s.paused := by
    cases message <;> first | rfl | cases hsteers
  rw [shown?, hrefreshes]
  cases s.paused <;> rfl

/-- What a message does to the places of tiles. A view that is shown places the tiles on screen, and
a tile that arrives is placed where it is on screen. -/
structure Turn.Places (s : Source P) (message : Message P) (t : Turn P) : Prop where
  visible_eq : t.source.loading.visible =
    ((s.shown? message).map Loading.placements).getD s.loading.visible
  resident : ∀ (u : Tile) (r : Resident P), t.source.loading.resident[u]? = some r →
    s.loading.resident[u]? = some r ∨
      ∃ place, s.loading.visible[u]? = some place ∧ place.bounds = r.bounds

/-- A turn that shows nothing and brings nothing. -/
theorem places_of_same {s : Source P} {message : Message P} {t : Turn P}
    (hshown : s.shown? message = none) (hvisible : t.source.loading.visible = s.loading.visible)
    (hresident : t.source.loading.resident = s.loading.resident) : t.Places s message where
  visible_eq := by
    rw [hshown, hvisible]
    rfl
  resident u r hr := .inl (hresident ▸ hr)

/-- Nothing arrives before any work is done. -/
theorem resident_noted {s : Source P} {message : Message P} {u : Tile} {r : Resident P}
    (hr : (s.noted message).loading.resident[u]? = some r) : s.loading.resident[u]? = some r := by
  rcases loading_noted_cases s message with hsame | ⟨-, hcleared⟩ | ⟨-, hreset⟩
  · rwa [hsame] at hr
  · rw [hcleared] at hr
    exact hr
  · rw [hreset] at hr
    cases hr

theorem places_noted {s : Source P} {message : Message P} (hshown : s.shown? message = none) :
    (Turn.idle (s.noted message)).Places s message where
  visible_eq := by
    rw [hshown]
    exact (shown_noted s message).2.1
  resident u r hr := .inl (resident_noted hr)

/-- The view that is shown places the tiles on screen anew, and drops what it does not show. -/
theorem places_showView {s : Source P} {message : Message P} {view : WantedView}
    (hshown : s.shown? message = some ((s.noted message).viewTiles view)) (now : Instant) :
    ((s.noted message).showView now view).Places s message where
  visible_eq := by
    rw [hshown, showView_keeps Loading.visible Loading.visible_dispatchAll]
    exact Loading.visible_updateVisible ..
  resident u r hr := by
    rw [showView_keeps Loading.resident Loading.resident_dispatchAll,
      Loading.resident_updateVisible, Std.ExtTreeMap.getElem?_filter'] at hr
    exact .inl (resident_noted (Option.filter_eq_some_iff.mp hr).1)

/-- A tile that arrives gets the place that it has on screen. -/
theorem places_takeOutcome (s : Source P) (now : Instant) (t : Tile) (outcome : Outcome P) :
    (s.takeOutcome now t outcome).Places s (.loaded t outcome) where
  visible_eq := by
    rw [takeOutcome_keeps Loading.visible Loading.visible_dispatchAll]
    exact Loading.visible_complete ..
  resident u r hr := by
    rw [takeOutcome_keeps Loading.resident Loading.resident_dispatchAll] at hr
    rcases Loading.resident_complete_cases s.loading t outcome now with
      hsame | ⟨payload, place, -, -, hplace, hstored⟩
    · exact .inl (hsame ▸ hr)
    · rw [hstored, TileMap.getElem?_insert] at hr
      split at hr
      case isTrue hsame =>
        obtain rfl := hsame
        cases hr
        exact .inr ⟨place, hplace, rfl⟩
      case isFalse => exact .inl hr

theorem places_handle (s : Source P) (now : Instant) (message : Message P) :
    (s.handle now message).Places s message := by
  have hhandled := handling now s message
  generalize s.handle now message = turn at hhandled ⊢
  cases hhandled with
  | rests _ hkind hpaused =>
      apply places_noted
      rcases hkind with hsteers | rfl | rfl
      · rw [(noted_of_steers hsteers).1] at hpaused
        rw [shown_of_steers hsteers, if_pos hpaused]
      · rfl
      · rfl
  | blank _ hsteers hwanted =>
      apply places_noted
      rw [shown_of_steers hsteers, hwanted]
      exact ite_self none
  | goesOn hactive => exact places_of_same (if_neg (by simp [refreshes, hactive])) rfl rfl
  | answers slot question => exact places_of_same rfl rfl rfl
  | shows _ view hkind hactive hwanted =>
      apply places_showView
      rcases hkind with hsteers | ⟨rfl, hpaused⟩
      · rw [(noted_of_steers hsteers).1] at hactive
        rw [shown_of_steers hsteers, hwanted, hactive]
        rfl
      · have hrefreshes : s.refreshes .resume = true := hpaused
        rw [shown?, hwanted, if_pos hrefreshes]
        rfl
  | notifies _ hkind =>
      have hsame := loading_notifyIfChanged (s.noted message)
      rcases hkind with rfl | ⟨rfl, -, hwanted⟩
      · exact places_of_same rfl (congrArg _ hsame) (congrArg _ hsame)
      · have hnone : (s.noted .resume).wanted = none := hwanted
        refine places_of_same ?_ (congrArg _ hsame) (congrArg _ hsame)
        rw [shown?, hnone]
        exact ite_self none
  | takes t outcome => exact places_takeOutcome s now t outcome
  | retries =>
      refine places_of_same rfl ?_ ?_
      · rw [settle_keeps Loading.visible Loading.visible_dispatchAll]
        exact Loading.visible_enqueueDue s.loading now
      · rw [settle_keeps Loading.resident Loading.resident_dispatchAll]
        exact Loading.resident_enqueueDue s.loading now

/-- On screen are the given tiles, and every rectangle that is kept for a tile is right. -/
structure Placed (right : Tile → Rect Float → Prop) (tiles : List (GridTile Float))
    (s : Source P) : Prop where
  visible_eq : s.loading.visible = Loading.placements tiles
  view : ∀ t ∈ tiles, right t.request.tile t.bounds
  resident : ∀ (u : Tile) (r : Resident P), s.loading.resident[u]? = some r → right u r.bounds

namespace Placed

variable {right : Tile → Rect Float → Prop} {tiles : List (GridTile Float)} {s : Source P}

/-- The place of a tile on screen is that of an entry of the view. -/
theorem exists_entry (h : s.Placed right tiles) {u : Tile} {place : Placement}
    (hplace : s.loading.visible[u]? = some place) :
    ∃ t ∈ tiles, t.request.tile = u ∧ t.bounds = place.bounds := by
  rw [h.visible_eq, Loading.getElem?_placements] at hplace
  obtain ⟨t, ht, rfl⟩ := Option.map_eq_some_iff.mp hplace
  exact ⟨t, List.mem_reverse.mp (List.mem_of_find?_eq_some ht),
    by simpa using List.find?_some ht, rfl⟩

theorem visible (h : s.Placed right tiles) {u : Tile} {place : Placement}
    (hplace : s.loading.visible[u]? = some place) : right u place.bounds := by
  obtain ⟨t, ht, rfl, hbounds⟩ := h.exists_entry hplace
  exact hbounds ▸ h.view t ht

/-- Every message keeps the rectangles right, if the view that it shows is. -/
theorem handle (h : s.Placed right tiles) (now : Instant) (message : Message P)
    (hshown : ∀ view, s.shown? message = some view → ∀ t ∈ view, right t.request.tile t.bounds) :
    (s.handle now message).source.Placed right ((s.shown? message).getD tiles) := by
  obtain ⟨hvisible, hresident⟩ := places_handle s now message
  refine ⟨?_, ?_, ?_⟩
  · rw [hvisible]
    cases s.shown? message with
    | none => exact h.visible_eq
    | some view => rfl
  · cases hview : s.shown? message with
    | none => exact h.view
    | some view => exact hshown view hview
  · intro u r hr
    rcases hresident u r hr with hold | ⟨place, hplace, hbounds⟩
    · exact h.resident u r hold
    · exact hbounds ▸ h.visible hplace

end Placed

variable {layer : Layer} {config : Config} {convert : Converter} {listening : Bool}
  {first : Source P}

end Source

end MapTiles
