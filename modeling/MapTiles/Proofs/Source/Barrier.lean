import MapTiles.Proofs.Source.Instructions
import MapTiles.Proofs.Source.Pause

/-!
What a call to pause holds back. Until the source goes on, it starts loads only for views that were
asked for before the call, with one exception: if such a view still waits when the source is told to
pause, the next view takes its place in the mailbox, ahead of the pause.
-/

namespace MapTiles.Source

variable {κ P : Type}

/-- The view that an act asks for. -/
def Act.view? : Act P → Option WantedView
  | .call (.show view) => some view
  | _ => none

/-- The views that were asked for, in order. -/
def askedViews (acts : List (Act P)) : List WantedView :=
  acts.filterMap Act.view?

theorem askedViews_append (acts : List (Act P)) (a : Act P) :
    askedViews (acts ++ [a]) = askedViews acts ++ a.view?.toList := by
  unfold askedViews
  rw [List.filterMap_append]
  cases hview : a.view? <;> simp [hview]

/-- An act that posts a view asks for it. -/
theorem Act.view_of_grant {a : Act P} {message : Message P} {view : WantedView}
    (hgrant : a.grant = message.grant) (hview : message.view? = some view) :
    a.view? = some view := by
  cases message with
  | «show» other =>
      obtain rfl := Option.some.inj hview
      have hwishes := congrFun hgrant ⟨none, none, none, false⟩
      cases a with
      | call c =>
          cases c with
          | «show» asked => exact congrArg Wishes.view hwishes
          | _ => cases congrArg Wishes.view hwishes
      | _ => cases congrArg Wishes.view hwishes
  | _ => cases hview

/-- A message that joins the others brings its own view at most. -/
theorem Joins.mem_views {message : Message P} {before after : List (Message P)}
    (h : Joins message before after) {view : WantedView}
    (hview : view ∈ after.filterMap Message.view?) :
    message.view? = some view ∨ view ∈ before.filterMap Message.view? := by
  obtain ⟨posted, hposted, hsame⟩ := List.mem_filterMap.mp hview
  have hbefore : posted ∈ before → view ∈ before.filterMap Message.view? := fun hmem =>
    List.mem_filterMap.mpr ⟨posted, hmem, hsame⟩
  cases h with
  | behind waiting =>
      rcases List.mem_append.mp hposted with hold | hnew
      · exact .inr (hbefore hold)
      · exact .inl (List.mem_singleton.mp hnew ▸ hsame)
  | instead front back old other hmessage =>
      rcases List.mem_append.mp hposted with hfront | hrest
      · exact .inr (hbefore (List.mem_append_left _ hfront))
      · rcases List.mem_cons.mp hrest with rfl | hback
        · exact .inl hsame
        · exact .inr (hbefore (List.mem_append_right _ (List.mem_cons_of_mem _ hback)))

/-- What joins the messages around one that is no view stays on its side of it. -/
theorem Joins.around {message mark : Message P} {ahead behind after : List (Message P)}
    (h : Joins message (ahead ++ mark :: behind) after) (hmark : mark.view? = none) :
    (∃ behind', after = ahead ++ mark :: behind') ∨
      ∃ ahead', after = ahead' ++ mark :: behind ∧ Joins message ahead ahead' ∧
        ahead.filterMap Message.view? ≠ [] ∧ ahead'.length = ahead.length := by
  generalize hbefore : ahead ++ mark :: behind = before at h
  cases h with
  | behind _ _ =>
      subst hbefore
      exact .inl ⟨behind ++ [message], by simp⟩
  | instead front back old view hmessage =>
      rcases List.append_eq_append_iff.mp hbefore with ⟨gap, rfl, hrest⟩ | ⟨gap, rfl, hrest⟩
      · cases gap with
        | nil =>
            obtain rfl := (List.cons.inj hrest).1
            cases hmark
        | cons first gap =>
            obtain ⟨rfl, rfl⟩ := List.cons.inj hrest
            exact .inl ⟨gap ++ message :: back, by simp⟩
      · cases gap with
        | nil =>
            obtain rfl := (List.cons.inj hrest).1
            cases hmark
        | cons first gap =>
            obtain ⟨rfl, rfl⟩ := List.cons.inj hrest
            refine .inr ⟨front ++ message :: gap, by simp, .instead front gap old view hmessage, ?_,
              by simp⟩
            simp [Message.view?]

/-- Whether the views that a source knows of, wanted or waiting, are among those of a list. -/
structure KnowsOnly (views : List WantedView) (waiting : List (Message P)) (s : Source P) :
    Prop where
  waiting : ∀ view ∈ waiting.filterMap Message.view?, view ∈ views
  wanted : ∀ view, s.wanted = some view → view ∈ views

theorem KnowsOnly.handle {setup : Setup} {limits : Nat × BackoffPolicy} {wanted : Wishes}
    {w : World κ P} {s : Source P} {views : List WantedView} {message : Message P}
    {ahead rest : List (Message P)} (h : KnowsOnly views (message :: ahead) s)
    (horderly : World.Orderly setup limits wanted w s)
    (hwaiting : World.waiting w = message :: rest) (now : Instant) :
    KnowsOnly views ahead (s.handle now message).source where
  waiting view hview := by
    refine h.waiting view ?_
    rw [List.filterMap_cons]
    split
    · exact hview
    · exact List.mem_cons_of_mem _ hview
  wanted view hview := by
    have hwishes := congrArg Wishes.view (wishes_handle horderly hwaiting now)
    have hgranted : (message.grant s.wishes).view = some view := hwishes.symm.trans hview
    cases message with
    | «show» other => exact h.waiting view (by simp [Option.some.inj hgranted, Message.view?])
    | _ => exact h.wanted view hgranted

variable {layer : Layer} {config : Config} {convert : Converter} {listening : Bool}
  {first : Source P}

/-- A source knows only of views that were asked for. -/
theorem knowsOnly_run (hbuild : build layer config convert listening = .ok first)
    (loader : Loader κ P) (memory : κ) (acts : List (Act P)) {s : Source P}
    (hsource : (World.run loader (World.start first memory) acts).state.source = some s) :
    KnowsOnly (askedViews acts)
      (World.waiting (World.run loader (World.start first memory) acts)) s := by
  refine holds_run hbuild loader memory (motive := fun acts w s =>
    KnowsOnly (askedViews acts) (World.waiting w) s) ?_ ?_ acts hsource
  · obtain ⟨-, rfl⟩ := build_spec hbuild
    exact ⟨(fun _ h => nomatch h), (fun _ h => nomatch h)⟩
  · rintro acts a w before after - hbefore hafter horderly hstep hknows
    have hmore : ∀ view ∈ askedViews acts, view ∈ askedViews (acts ++ [a]) := by
      intro view hview
      rw [askedViews_append]
      exact List.mem_append_left _ hview
    cases hstep with
    | quiet s hsame hkept _ _ _ _ hwaiting =>
        obtain rfl := Option.some.inj (hsame.symm.trans hbefore)
        obtain rfl := Option.some.inj (hkept.symm.trans hafter)
        rw [hwaiting]
        exact ⟨fun view hview => hmore view (hknows.waiting view hview),
          fun view hview => hmore view (hknows.wanted view hview)⟩
    | post s message hsame hkept _ hgrant _ _ hjoins =>
        obtain rfl := Option.some.inj (hsame.symm.trans hbefore)
        obtain rfl := Option.some.inj (hkept.symm.trans hafter)
        refine ⟨fun view hview => ?_, fun view hview => hmore view (hknows.wanted view hview)⟩
        rcases hjoins.mem_views hview with hnew | hold
        · rw [askedViews_append, Act.view_of_grant hgrant hnew]
          exact List.mem_append_right _ (List.mem_singleton_self view)
        · exact hmore view (hknows.waiting view hold)
    | turn s message rest t hsame hturn hturned _ _ _ _ hwaiting hleft =>
        obtain rfl := Option.some.inj (hsame.symm.trans hbefore)
        subst hturn
        obtain rfl := Option.some.inj (hturned.symm.trans hafter)
        rw [hwaiting] at hknows
        have hnext := hknows.handle horderly hwaiting (World.act loader w a).scheduler.now
        refine ⟨fun view hview => ?_, fun view hview => hmore view (hnext.wanted view hview)⟩
        rw [hleft, List.filterMap_append] at hview
        rcases List.mem_append.mp hview with hrest | hflush
        · exact hmore view (hnext.waiting view hrest)
        · obtain ⟨posted, hposted, hsome⟩ := List.mem_filterMap.mp hflush
          rw [List.eq_of_mem_replicate hposted] at hsome
          cases hsome

/-- The views that take the place of one that waits already, until that place is handled. -/
def World.overtaking (loader : Loader κ P) : World κ P → List (Act P) → List WantedView
  | _, [] => []
  | w, a :: rest =>
    if World.views w = [] then []
    else a.view?.toList ++ overtaking loader (World.act loader w a) rest

/-- Whether the loads that an act starts are all for tiles of certain views, in the window of the
source. -/
def World.LoadsFor (loader : Loader κ P) (views : List WantedView) (w : World κ P) (a : Act P) :
    Prop :=
  ∀ t ∈ started (World.effects w a), ∃ next, (World.act loader w a).state.source = some next ∧
    ∃ view ∈ views, t ∈ Loading.placements (next.viewTiles view)

section Act

variable {setup : Setup} {limits : Nat × BackoffPolicy} {wanted : Wishes} {w : World κ P}
  {a : Act P} {s : Source P} {views : List WantedView}

theorem loadsFor_of_silent {loader : Loader κ P} (h : started (World.effects w a) = []) :
    World.LoadsFor loader views w a := by
  intro t ht
  rw [h] at ht
  cases ht

/-- A message makes a source load tiles of the view that is wanted once it is handled. -/
theorem loadsFor_handle {loader : Loader κ P} {message : Message P} {ahead : List (Message P)}
    {now : Instant} (horderly : World.Orderly setup limits wanted w s)
    (hafter : (World.act loader w a).state.source = some (s.handle now message).source)
    (heffects : World.effects w a = (s.handle now message).effects)
    (hknows : KnowsOnly views ahead (s.handle now message).source) :
    World.LoadsFor loader views w a := by
  intro t ht
  rw [heffects] at ht
  have hinstructs := instructs_handle horderly.settled.consistent now message
  obtain ⟨hactive, hvisible⟩ := hinstructs.starts t ht
  have hsettled := horderly.settled.handle now message
  refine ⟨_, hafter, ?_⟩
  generalize (s.handle now message).source = next at hactive hvisible hsettled hknows ⊢
  cases hwanted : next.wanted with
  | none =>
      rw [hsettled.unseen hwanted] at hvisible
      exact absurd hvisible Std.ExtTreeMap.not_mem_empty
  | some view =>
      rw [(hsettled.shows hactive view hwanted).1] at hvisible
      exact ⟨view, hknows.wanted view hwanted, hvisible⟩

end Act

theorem handled_cons (loader : Loader κ P) (w : World κ P) (a : Act P) (rest : List (Act P)) :
    World.handled loader w (a :: rest) = ((World.delivered? w a).map Prod.fst).toList ++
      World.handled loader (World.act loader w a) rest := by
  cases hdelivered : World.delivered? w a <;> simp [World.handled, World.trace, hdelivered]

/-- A paused source starts nothing until it goes on. -/
theorem silent_of_paused (hbuild : build layer config convert listening = .ok first)
    (loader : Loader κ P) (memory : κ) (acts rest : List (Act P)) {s : Source P}
    (hsource : (World.run loader (World.start first memory) acts).state.source = some s)
    (hpaused : s.paused = true)
    (hresume : ∀ message ∈
      World.handled loader (World.run loader (World.start first memory) acts) rest,
        message ≠ .resume) :
    ∀ entry ∈ World.trace loader (World.run loader (World.start first memory) acts) rest,
      started (World.effects entry.1 entry.2) = [] := by
  have hqueue := (told_run hbuild loader memory acts hsource).2 hpaused
  have hstill : ∀ next, (World.run loader (World.start first memory) acts).state.source =
      some next → s.Still next := by
    intro next hnext
    obtain rfl := Option.some.inj (hsource.symm.trans hnext)
    exact ⟨hpaused, hqueue, rfl, rfl, fun _ _ hrunning => hrunning⟩
  have hstays : ∀ entry ∈ World.trace loader
      (World.run loader (World.start first memory) acts) rest,
      ¬World.resumes entry.1 entry.2 := by
    intro entry hentry hgoesOn
    obtain ⟨now, hdelivered⟩ := resumes_iff.mp hgoesOn
    refine hresume .resume (List.mem_filterMap.mpr ⟨entry, hentry, ?_⟩) rfl
    exact congrArg (Option.map Prod.fst) hdelivered
  have hanswers := (frozen_run hbuild loader memory acts rest ⟨hstill, rfl, .refl _⟩ hstays).2
  intro entry hentry
  refine List.filterMap_eq_nil_iff.mpr fun effect heffect => ?_
  obtain ⟨slot, value, rfl⟩ := hanswers entry hentry effect heffect
  rfl

/-- While a view waits, every view that is asked for takes its place. -/
theorem overtaking_cons (loader : Loader κ P) {w : World κ P} (h : World.views w ≠ []) (a : Act P)
    (rest : List (Act P)) : World.overtaking loader w (a :: rest) =
      a.view?.toList ++ World.overtaking loader (World.act loader w a) rest :=
  if_neg h

theorem overtaking_of_views_nil (loader : Loader κ P) {w : World κ P} (h : World.views w = [])
    (rest : List (Act P)) : World.overtaking loader w rest = [] := by
  cases rest with
  | nil => rfl
  | cons a rest => exact if_pos h

/-- What holds while a call to pause waits behind other messages and `rest` is still to happen. -/
structure World.Barred (loader : Loader κ P) (views : List WantedView) (rest : List (Act P))
    (ahead behind : List (Message P)) (w : World κ P) (s : Source P) : Prop where
  source_eq : w.state.source = some s
  waiting_eq : World.waiting w = ahead ++ .pause :: behind
  knows : KnowsOnly views ahead s
  /-- A view that waits ahead can still be overtaken. -/
  newer : ahead.filterMap Message.view? ≠ [] →
    ∀ view ∈ World.overtaking loader w rest, view ∈ views
  stays : ∀ message ∈ (World.handled loader w rest).drop ahead.length, message ≠ .resume

section Barred

variable {loader : Loader κ P} {views : List WantedView} {rest : List (Act P)}
  {ahead behind : List (Message P)} {w : World κ P} {s next : Source P} {a : Act P}

theorem World.Barred.views_ne_nil (h : World.Barred loader views rest ahead behind w s)
    (hahead : ahead.filterMap Message.view? ≠ []) : World.views w ≠ [] := by
  unfold World.views
  rw [h.waiting_eq, List.filterMap_append]
  exact fun hnone => hahead (List.append_eq_nil_iff.mp hnone).1

/-- The views that an act asks for and those that come later can overtake. -/
theorem World.Barred.newer_act (h : World.Barred loader views (a :: rest) ahead behind w s)
    (hahead : ahead.filterMap Message.view? ≠ []) :
    (∀ view, a.view? = some view → view ∈ views) ∧
      ∀ view ∈ World.overtaking loader (World.act loader w a) rest, view ∈ views := by
  have hnewer := h.newer hahead
  rw [overtaking_cons loader (h.views_ne_nil hahead)] at hnewer
  exact ⟨fun view hview => hnewer view (List.mem_append_left _ (by simp [hview])),
    fun view hview => hnewer view (List.mem_append_right _ hview)⟩

/-- An act that handles no message leaves those ahead as they are, up to a view that is
overtaken. -/
theorem World.Barred.keep (h : World.Barred loader views (a :: rest) ahead behind w s)
    (hdelivered : World.delivered? w a = none)
    (hafter : (World.act loader w a).state.source = some s)
    {ahead' behind' : List (Message P)}
    (hwaiting : World.waiting (World.act loader w a) = ahead' ++ .pause :: behind')
    (hlength : ahead'.length = ahead.length)
    (hsame : ahead' = ahead ∨ ahead.filterMap Message.view? ≠ [] ∧
      ∀ view ∈ ahead'.filterMap Message.view?,
        a.view? = some view ∨ view ∈ ahead.filterMap Message.view?) :
    World.Barred loader views rest ahead' behind' (World.act loader w a) s where
  source_eq := hafter
  waiting_eq := hwaiting
  knows := by
    refine ⟨?_, h.knows.wanted⟩
    rcases hsame with rfl | ⟨hahead, hviews⟩
    · exact h.knows.waiting
    · intro view hview
      exact (hviews view hview).elim ((h.newer_act hahead).1 view) (h.knows.waiting view)
  newer hahead := by
    rcases hsame with rfl | ⟨hbefore, -⟩
    · exact (h.newer_act hahead).2
    · exact (h.newer_act hbefore).2
  stays := by
    have hstays := h.stays
    rw [handled_cons, hdelivered, Option.map_none, Option.toList_none, List.nil_append,
      ← hlength] at hstays
    exact hstays

/-- What an act comes to while a call to pause waits: the source is given up, or the call is handled
and the source rests from then on, or the call waits on. -/
inductive World.Barred.After (loader : Loader κ P) (views : List WantedView) (rest : List (Act P))
    (after : World κ P) : Prop
  | gone (hafter : after.state.source = none)
  | paused (next : Source P) (hafter : after.state.source = some next)
      (hpaused : next.paused = true)
      (hstays : ∀ message ∈ World.handled loader after rest, message ≠ .resume)
  | waits (next : Source P) (ahead behind : List (Message P))
      (hbarred : World.Barred loader views rest ahead behind after next)

theorem World.Barred.act {setup : Setup} {limits : Nat × BackoffPolicy} {wanted : Wishes}
    (h : World.Barred loader views (a :: rest) ahead behind w s)
    (horderly : World.Orderly setup limits wanted w s) :
    World.LoadsFor loader views w a ∧
      World.Barred.After loader views rest (World.act loader w a) := by
  have hsource := h.source_eq
  cases hafter : (World.act loader w a).state.source with
  | none =>
      obtain rfl := eq_release_of_gone hsource hafter
      exact ⟨loadsFor_of_silent rfl, .gone hafter⟩
  | some next =>
      cases step_act loader horderly.posted a hafter with
      | quiet before hbefore hkept _ _ _ hdelivered hwaiting =>
          obtain rfl := Option.some.inj (hbefore.symm.trans hsource)
          refine ⟨loadsFor_of_silent (by rw [effects_of_rest hdelivered]; rfl), ?_⟩
          exact .waits before ahead behind
            (h.keep hdelivered hkept (hwaiting.trans h.waiting_eq) rfl (.inl rfl))
      | post before message hbefore hkept _ hgrant _ hdelivered hjoins =>
          obtain rfl := Option.some.inj (hbefore.symm.trans hsource)
          refine ⟨loadsFor_of_silent (by rw [effects_of_rest hdelivered]; rfl), ?_⟩
          rw [h.waiting_eq] at hjoins
          rcases hjoins.around rfl with ⟨behind', hwaiting⟩ |
            ⟨ahead', hwaiting, hahead, hviews, hlength⟩
          · exact .waits before ahead behind' (h.keep hdelivered hkept hwaiting rfl (.inl rfl))
          · refine .waits before ahead' behind
              (h.keep hdelivered hkept hwaiting hlength (.inr ⟨hviews, fun view hview => ?_⟩))
            exact (hahead.mem_views hview).imp_left (Act.view_of_grant hgrant)
      | turn before message left turn hbefore hturn hturned _ _ _ hdelivered hwaiting hleft =>
          obtain rfl := Option.some.inj (hbefore.symm.trans hsource)
          have heffects : World.effects w a = turn.effects := by
            rw [effects_of_turn hsource hdelivered, hturn]
          have hstays := h.stays
          rw [handled_cons, hdelivered] at hstays
          have hqueue := h.waiting_eq
          rw [hwaiting] at hqueue
          cases ahead with
          | nil =>
              obtain ⟨rfl, -⟩ := List.cons.inj hqueue
              subst hturn
              refine ⟨loadsFor_of_silent (by rw [heffects]; rfl), ?_⟩
              exact .paused _ hturned (paused_pause before) fun other hother =>
                hstays other (List.mem_cons_of_mem _ hother)
          | cons head ahead =>
              obtain ⟨rfl, hbehind⟩ := List.cons.inj hqueue
              have hknows := h.knows.handle horderly hwaiting (World.act loader w a).scheduler.now
              have hloads : World.LoadsFor loader views w a :=
                loadsFor_handle horderly (hturn ▸ hturned) (hturn ▸ heffects) hknows
              refine ⟨hloads, .waits turn.source ahead
                (behind ++ List.replicate (flushes turn.effects) .flush)
                ⟨hturned, ?_, hturn ▸ hknows, fun hahead => ?_, hstays⟩⟩
              · rw [hleft, hbehind]
                simp
              · refine (h.newer_act fun hnone => hahead ?_).2
                rw [List.filterMap_cons] at hnone
                split at hnone
                · exact hnone
                · cases hnone

end Barred

/-- From the call to pause on, a source loads only for views that it knew of or that overtook. -/
theorem barred_run (hbuild : build layer config convert listening = .ok first)
    (loader : Loader κ P) (memory : κ) {views : List WantedView} (acts rest : List (Act P))
    {ahead behind : List (Message P)} {s : Source P}
    (h : World.Barred loader views rest ahead behind
      (World.run loader (World.start first memory) acts) s) :
    ∀ entry ∈ World.trace loader (World.run loader (World.start first memory) acts) rest,
      World.LoadsFor loader views entry.1 entry.2 := by
  induction rest generalizing acts ahead behind s with
  | nil => exact fun _ hentry => nomatch hentry
  | cons a rest ih =>
      have horderly := orderly_run hbuild loader memory acts h.source_eq
      obtain ⟨hloads, hafter⟩ := h.act horderly
      intro entry hentry
      rcases List.mem_cons.mp hentry with rfl | hlater
      · exact hloads
      · rw [← run_append] at hafter hlater
        cases hafter with
        | gone hgone =>
            refine loadsFor_of_silent ?_
            rw [effects_run_gone loader rest hgone entry hlater]
            rfl
        | paused next hnext hpaused hstays =>
            exact loadsFor_of_silent (silent_of_paused hbuild loader memory (acts ++ [a]) rest
              hnext hpaused hstays entry hlater)
        | waits next ahead behind hbarred => exact ih (acts ++ [a]) hbarred entry hlater

/-- A call to pause waits behind all messages. -/
theorem waiting_act_pause (loader : Loader κ P) {w : World κ P} {s : Source P}
    (hsource : w.state.source = some s) (hposted : World.Posted w) :
    World.waiting (World.act loader w (.call .pause)) = World.waiting w ++ [.pause] := by
  have hjoins := joins_push .pause hposted
  rw [World.act, send_eq_push hsource]
  change World.waiting (World.push w .pause) = _
  generalize World.waiting w = before, World.waiting (World.push w .pause) = after at hjoins ⊢
  cases hjoins with
  | behind => rfl
  | instead _ _ _ _ hview => cases hview

/-- From a call to pause to the moment at which a source goes on again, whatever happens, every load
that starts is for a tile of a view that was asked for before the call, or of one that took the
place of such a view, which was waiting in the mailbox at the call. There is none of the second kind
unless a view was waiting. -/
theorem pause_holds_back (hbuild : build layer config convert listening = .ok first)
    (loader : Loader κ P) (memory : κ) (front middle : List (Act P))
    (hstays : ∀ message ∈ (World.handled loader
        (World.run loader (World.start first memory) (front ++ [.call .pause])) middle).drop
          (World.waiting (World.run loader (World.start first memory) front)).length,
      message ≠ .resume) :
    let w := World.run loader (World.start first memory) front
    let called := World.run loader (World.start first memory) (front ++ [.call .pause])
    let overtaking := World.overtaking loader called middle
    World.requested (World.run loader called middle) = World.requested called ++
        (World.trace loader called middle).flatMap
          (fun entry => started (World.effects entry.1 entry.2)) ∧
      (∀ entry ∈ World.trace loader called middle,
        World.LoadsFor loader (askedViews front ++ overtaking) entry.1 entry.2) ∧
      (World.views w = [] → overtaking = []) := by
  intro w called overtaking
  refine ⟨requested_trace hbuild loader memory _ middle, ?_⟩
  have hcalled : called = World.act loader w (.call .pause) := run_append ..
  cases hsource : w.state.source with
  | none =>
      have hsame : called = w := hcalled.trans (send_eq_self hsource .pause)
      refine ⟨fun entry hentry => loadsFor_of_silent ?_, fun hnone => ?_⟩
      · rw [effects_run_gone loader middle (hsame ▸ hsource) entry hentry]
        rfl
      · exact overtaking_of_views_nil loader (hsame ▸ hnone) middle
  | some s =>
      have horderly := orderly_run hbuild loader memory front hsource
      have hknows := knowsOnly_run hbuild loader memory front hsource
      have hwaiting : World.waiting called = World.waiting w ++ [.pause] :=
        hcalled ▸ waiting_act_pause loader hsource horderly.posted
      have hthere : called.state.source = some s := by
        rw [hcalled, World.act, send_eq_push hsource]
        exact (source_push _ _).trans hsource
      have hbarred : World.Barred loader (askedViews front ++ overtaking) middle
          (World.waiting w) [] called s := by
        refine ⟨hthere, hwaiting, ⟨fun view hview => ?_, fun view hview => ?_⟩, fun _ => ?_,
          hstays⟩
        · exact List.mem_append_left _ (hknows.waiting view hview)
        · exact List.mem_append_left _ (hknows.wanted view hview)
        · exact fun view hview => List.mem_append_right _ hview
      refine ⟨barred_run hbuild loader memory _ middle hbarred, fun hnone => ?_⟩
      refine overtaking_of_views_nil loader ?_ middle
      rw [World.views, hwaiting, List.filterMap_append]
      exact List.append_eq_nil_iff.mpr ⟨hnone, rfl⟩

/-- The tile next to the first one of the row. -/
def nextTile : Tile :=
  ⟨1, 0, 0, Binary64.ofFloat 1⟩

/-- A view of that tile alone. -/
def nextView : WantedView :=
  ⟨Rect.ofCorners mercatorSystem 1 0 2 1, 2⟩

/-- A view that waits when a pause is asked for is shown all the same. -/
theorem act_view_before_pause (loader : Loader κ P) (s : Source P) (memory : κ)
    (view : WantedView) :
    World.act loader (World.run loader (World.start s memory) [.call (.show view), .call .pause])
        (.run 0) =
      ((s.handle 0 (.show view)).effects.foldl (World.perform loader)
        (((World.start (s.handle 0 (.show view)).source memory).modify fun x =>
          { x with mailbox := (x.mailbox.push (Message.envelope .pause)).1 }).reckon
            (s.told 0 (.show view) (s.handle 0 (.show view)).source))).addTask 0 .deliver := rfl

theorem act_small_before_pause :
    World.act Loader.manual (World.run Loader.manual (World.start small ())
        [.call (.show smallView), .call .pause]) (.run 0) =
      World.act Loader.manual smallFlying (.call .pause) := by
  rw [act_view_before_pause, handle_small]
  dsimp only
  rw [told_small]
  rfl

/-- A view waits when a pause is asked for, and the next one is asked for when it has been shown. The
load of the tile of the first one starts in between, and that of the other tile does not. -/
theorem pause_holds_back_later_view :
    let called := World.run Loader.manual (World.start small ())
      [.call (.show smallView), .call .pause]
    let middle : List (Act Unit) := [.run 0, .call (.show nextView), .run 0, .run 0]
    World.requested (World.run Loader.manual called middle) = [smallTile] ∧
      World.handled Loader.manual called middle = [.show smallView, .pause, .show nextView] ∧
      nextTile ∈ Loading.placements (small.viewTiles nextView) ∧
      ∀ entry ∈ World.trace Loader.manual called middle,
        World.LoadsFor Loader.manual [smallView] entry.1 entry.2 := by
  intro called middle
  have htrace : World.trace Loader.manual called middle = (called, .run 0) ::
      World.trace Loader.manual (World.act Loader.manual smallFlying (.call .pause))
        [.call (.show nextView), .run 0, .run 0] := by
    rw [← act_small_before_pause]
    rfl
  have hhandled : World.handled Loader.manual called middle =
      [.show smallView, .pause, .show nextView] := by
    unfold World.handled
    rw [htrace]
    rfl
  have hlast : World.run Loader.manual called middle = World.run Loader.manual
      (World.act Loader.manual smallFlying (.call .pause))
        [.call (.show nextView), .run 0, .run 0] := by
    rw [← act_small_before_pause]
    exact (run_run Loader.manual called [.run 0] _).symm
  have hovertaking : World.overtaking Loader.manual called middle = [] := by
    rw [overtaking_cons Loader.manual (by decide +kernel), act_small_before_pause]
    exact overtaking_of_views_nil Loader.manual rfl _
  obtain ⟨-, hloads, -⟩ := pause_holds_back build_small Loader.manual ()
    [.call (.show smallView)] middle (by
      change ∀ message ∈ (World.handled Loader.manual called middle).drop _, _
      rw [hhandled]
      rintro message hmessage rfl
      simpa using List.mem_of_mem_drop hmessage)
  change ∀ entry ∈ World.trace Loader.manual called middle, World.LoadsFor Loader.manual
    ([smallView] ++ World.overtaking Loader.manual called middle) entry.1 entry.2 at hloads
  rw [hovertaking, List.append_nil] at hloads
  refine ⟨?_, hhandled, by decide +kernel, hloads⟩
  rw [hlast]
  decide +kernel

/-- A view that is asked for after a pause may still pass it. Here it takes the place of one that
waits, and its tile is loaded though the view before the pause has none. -/
theorem view_passes_pause :
    let front : List (Act Unit) := [.call (.show farView)]
    let middle : List (Act Unit) := [.call (.show smallView), .run 0]
    let called := World.run Loader.manual (World.start small ()) (front ++ [.call .pause])
    World.requested (World.run Loader.manual called middle) = [smallTile] ∧
      World.handled Loader.manual called middle = [.show smallView] ∧
      smallTile ∈ Loading.placements (small.viewTiles smallView) ∧
      ∀ view ∈ askedViews front, smallTile ∉ Loading.placements (small.viewTiles view) := by
  intro front middle called
  have hrun : World.run Loader.manual called middle = World.run Loader.manual
      (World.run Loader.manual (World.start small ())
        [.call (.show farView), .call .pause, .call (.show smallView)]) [.run 0] := by
    simp only [called, run_run]
    rfl
  have heffects : World.effects (World.run Loader.manual (World.start small ())
      [.call (.show farView), .call .pause, .call (.show smallView)]) (.run 0) =
        (small.handle 0 (.show smallView)).effects := effects_of_turn rfl rfl
  rw [handle_small] at heffects
  refine ⟨?_, rfl, by decide +kernel, fun view hview => ?_⟩
  · rw [hrun, requested_trace build_small, World.trace, World.trace, List.flatMap_singleton,
      heffects]
    rfl
  · obtain rfl := List.mem_singleton.mp hview
    decide +kernel

end MapTiles.Source
