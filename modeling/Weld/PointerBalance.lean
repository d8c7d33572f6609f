/-
**Buttons and touch are balanced.**

All buttons take the route of the first press.  A touch contact takes the route of its beginning, and
every route with a contact or with an event that no frame completed is told of a cancel.

Main results:

* `Balanced.dispatchButton`, `Balanced.retireButtons`;
* `Balanced.dispatchTouch`, `Touching.cancelSurfaceTouch`.
-/

import Weld.LocalInputBalance

namespace Client

open ClientRuntime

variable {s : ClientRuntime}

/-! ### Buttons -/

/-- The buttons that are pressed after a button event. -/
def buttonsAfter (buttons : Finset LinuxButtonCode) (button : LinuxButtonCode) :
    ButtonState → Finset LinuxButtonCode
  | .pressed => insert button buttons
  | .released => buttons.erase button

/-- What the route of a capture holds. -/
def holding (route : Option ClientPointerRoute) (buttons : Finset LinuxButtonCode) :
    Option (ClientPointerRoute × Finset LinuxButtonCode) :=
  if buttons = ∅ then none else route.map fun route => (route, buttons)

@[simp] theorem holding_empty (route : Option ClientPointerRoute) : holding route ∅ = none :=
  if_pos rfl

@[simp] theorem holding_none (buttons : Finset LinuxButtonCode) : holding none buttons = none := by
  unfold holding
  split_ifs <;> rfl

theorem buttonMonitor_next (taken : ClientPointerRoute) (buttons : Finset LinuxButtonCode)
    (position at_ : Option InputPosition) (button : LinuxButtonCode) (state : ButtonState) (time : ℕ) :
    buttonMonitor.next (holding (some taken) buttons)
        (pointerInput taken (.pointerButton position button state) at_ time) =
      holding (some taken) (buttonsAfter buttons button state) := by
  by_cases hempty : buttons = ∅
  · subst hempty
    cases state with
    | pressed | released => simp [holding, buttonsAfter, buttonMonitor, pointerInput, localEvent]
  · have hheld : holding (some taken) buttons = some (taken, buttons) := if_neg hempty
    rw [hheld]
    cases state with
    | pressed => exact (if_neg (Finset.insert_ne_empty button buttons)).symm
    | released => rfl

theorem buttonMonitor_allows (taken : ClientPointerRoute) (buttons : Finset LinuxButtonCode)
    (position at_ : Option InputPosition) (button : LinuxButtonCode) (state : ButtonState) (time : ℕ) :
    buttonMonitor.allows (holding (some taken) buttons)
      (pointerInput taken (.pointerButton position button state) at_ time) := by
  refine ⟨taken, rfl, rfl, fun held hheld => ?_⟩
  unfold holding at hheld
  split_ifs at hheld
  · exact absurd hheld (Option.not_mem_none held)
  · exact (Option.mem_some.mp hheld) ▸ rfl

variable {route : Option ClientPointerRoute}

/-- One more button event along a route. -/
theorem buttonMonitor_follows {buttons : Finset LinuxButtonCode}
    (h : buttonMonitor.Follows (· = holding (s.reached route) buttons) s.log)
    (position : Option InputPosition) (button : LinuxButtonCode) (state : ButtonState) (time : ℕ) :
    buttonMonitor.Follows (· = holding (s.reached route) (buttonsAfter buttons button state))
      (s.dispatchPointerTo route (.pointerButton position button state) position time).1.log := by
  rw [dispatchPointerTo_fst]
  cases hreached : s.reached route with
  | none =>
      rw [hreached, holding_none] at h
      simp only [holding_none]
      exact h
  | some taken =>
      rw [hreached] at h
      obtain ⟨haccepts, hstate⟩ := h
      have hfollows : buttonMonitor.Follows (· = holding (some taken) buttons) s.log :=
        ⟨haccepts, hstate⟩
      refine hfollows.concat ?_ ?_
      · rw [hstate]
        exact buttonMonitor_allows _ _ _ _ _ _ _
      · rw [hstate]
        exact buttonMonitor_next _ _ _ _ _ _ _

/-- What is held, before a button event along a route. -/
theorem Balanced.holding (h : Balanced s .button) (hroute : s.capturedOrCurrentPointerRoute = .ok route) :
    buttonMonitor.Follows (· = holding (s.reached route) s.pressedButtons) s.log := by
  refine ⟨h.1, ?_⟩
  have hagrees : ButtonAgrees s (buttonMonitor.state s.log) := h.2
  unfold ButtonAgrees at hagrees
  unfold capturedOrCurrentPointerRoute at hroute
  cases hcapture : s.pointerCapture with
  | idle =>
      rw [hcapture] at hagrees
      rw [hagrees.1, hagrees.2, holding_empty]
  | active captured =>
      rw [hcapture] at hagrees hroute
      cases hroute
      rw [hagrees.1]
      exact (if_neg hagrees.2).symm

variable {t : ClientRuntime} {routes : List ClientPointerRoute}
  {contacts : List (TouchId × ClientPointerRoute)} {id : TouchId} {route : ClientPointerRoute}
  {log : List RuntimeRecord} {event : TouchEvent}

/-- Nothing is held by a runtime that has no capture. -/
theorem balanced_idle (hlog : buttonMonitor.Follows (· = none) t.log)
    (hcapture : t.pointerCapture = .idle) (hbuttons : t.pressedButtons = ∅) : Balanced t .button := by
  refine ⟨hlog.1, ?_⟩
  unfold ButtonAgrees
  rw [hcapture]
  exact ⟨hlog.2, hbuttons⟩

theorem dispatchPointerTo_eq (s : ClientRuntime) (route : Option ClientPointerRoute)
    (event : InputEventKind) (position : Option InputPosition) (time : ℕ) :
    (s.dispatchPointerTo route event position time).1 =
      { s with log := (s.dispatchPointerTo route event position time).1.log } := by
  rw [dispatchPointerTo_fst]
  cases s.reached route <;> rfl

theorem startCapture_cases {state : ButtonState} (ht : s.startCapture state = .ok t) :
    (t = s ∧ ¬(state = .pressed ∧ s.pressedButtons = ∅)) ∨
      ∃ route, s.pressedButtons = ∅ ∧ t = { s with pointerCapture := .active route } := by
  unfold startCapture at ht
  split_ifs at ht with hfirst
  · cases hroute : s.resolvedPointerRoute s.pointerRoute with
    | error error =>
        rw [hroute] at ht
        cases ht
    | ok route =>
        rw [hroute] at ht
        cases ht
        exact Or.inr ⟨route, hfirst.2, rfl⟩
  · cases ht
    exact Or.inl ⟨rfl, hfirst⟩

/-- The capture ends with the last button. -/
theorem balanced_endButton (route : Option ClientPointerRoute) {button : LinuxButtonCode}
    {state : ButtonState}
    (h : buttonMonitor.Follows
      (· = holding (s.reached route) (buttonsAfter s.pressedButtons button state)) s.log)
    (hcapture : s.pointerCapture = .active route ∨
      s.pointerCapture = .idle ∧ buttonsAfter s.pressedButtons button state = ∅) :
    Balanced (s.endButton button state) .button := by
  have hend : s.endButton button state =
      let t := { s with pressedButtons := buttonsAfter s.pressedButtons button state }
      if t.pressedButtons = ∅ ∧ t.pointerCapture ≠ .idle then
        { t with
          pointerCapture := .idle
          pointerRoute := t.pendingPointerRoute.getD t.pointerRoute
          pendingPointerRoute := none }
      else t := by
    cases state <;> rfl
  rw [hend]
  by_cases hempty : buttonsAfter s.pressedButtons button state = ∅
  · rw [hempty, holding_empty] at h
    simp only []
    split_ifs with hactive
    · exact balanced_idle h rfl hempty
    · refine balanced_idle h ?_ hempty
      exact not_not.mp fun hne => hactive ⟨hempty, hne⟩
  · rw [if_neg fun hboth => hempty hboth.1]
    refine ⟨h.1, ?_⟩
    obtain hactive := hcapture.resolve_right fun hidle => hempty hidle.2
    simp only [hactive]
    refine ⟨?_, hempty⟩
    have hheld : buttonMonitor.state s.log = _ := h.2
    rw [hheld]
    exact if_neg hempty

/-- **All buttons take one route, from the first press to the last release.** -/
theorem Balanced.dispatchButton (h : Balanced s .button) (position : Option InputPosition)
    (button : LinuxButtonCode) (state : ButtonState) (time : ℕ) :
    Balanced (s.dispatchButton position button state time).1 .button := by
  have hagrees : ButtonAgrees s (buttonMonitor.state s.log) := h.2
  unfold ButtonAgrees at hagrees
  unfold ClientRuntime.dispatchButton
  split_ifs
  · cases hstart : s.startCapture state with
    | error error => exact h
    | ok t =>
        simp only []
        rcases startCapture_cases hstart with ⟨rfl, hrest⟩ | ⟨route, hempty, rfl⟩
        · cases hroute : t.capturedOrCurrentPointerRoute with
          | error error => exact h
          | ok route =>
              have hsent := buttonMonitor_follows (h.holding hroute) position button state time
              simp only []
              rw [dispatchPointerTo_eq]
              refine balanced_endButton route hsent ?_
              cases hcapture : t.pointerCapture with
              | idle =>
                  rw [hcapture] at hagrees
                  refine Or.inr ⟨rfl, ?_⟩
                  -- no first press: it is a release of a button that is not held
                  cases state with
                  | pressed => exact absurd ⟨rfl, hagrees.2⟩ hrest
                  | released => simp [buttonsAfter, hagrees.2]
              | active captured =>
                  rw [capturedOrCurrentPointerRoute, hcapture] at hroute
                  cases hroute
                  exact Or.inl rfl
        · have hidle : s.pointerCapture = .idle := by
            cases hcapture : s.pointerCapture with
            | idle => rfl
            | active captured =>
                rw [hcapture] at hagrees
                exact absurd hempty hagrees.2
          rw [hidle] at hagrees
          have hnothing : buttonMonitor.Follows
              (· = Client.holding (s.reached route) s.pressedButtons) s.log := by
            refine ⟨h.1, ?_⟩
            rw [hempty, holding_empty]
            exact hagrees.1
          have hsent := buttonMonitor_follows
            (s := { s with pointerCapture := .active route }) hnothing position button state time
          simp only [capturedOrCurrentPointerRoute]
          rw [dispatchPointerTo_eq]
          exact balanced_endButton route hsent (Or.inl rfl)
  · exact h

/-- Buttons that are released one after another, along the route that holds them. -/
theorem buttonMonitor_released {route : Option ClientPointerRoute} {buttons : List LinuxButtonCode}
    (hnodup : buttons.Nodup) (time : ℕ)
    (h : buttonMonitor.Follows (· = holding (s.reached route) buttons.toFinset) s.log) :
    buttonMonitor.Follows (· = none) (buttons.foldl (fun s button =>
        ({ s with retiredLocalButtons := button :: s.retiredLocalButtons }.dispatchPointerTo route
          (.pointerButton s.pointerPosition button .released) s.pointerPosition time).1) s).log := by
  induction buttons generalizing s with
  | nil => simpa using h
  | cons button buttons ih =>
      rw [List.foldl_cons]
      refine ih hnodup.of_cons ?_
      have hsent := buttonMonitor_follows
        (s := { s with retiredLocalButtons := button :: s.retiredLocalButtons }) h s.pointerPosition
        button .released time
      have hrest : buttonsAfter (button :: buttons).toFinset button .released = buttons.toFinset := by
        have hfresh : button ∉ buttons.toFinset := by simpa using (List.nodup_cons.mp hnodup).1
        rw [List.toFinset_cons]
        exact Finset.erase_insert hfresh
      rw [hrest] at hsent
      rw [dispatchPointerTo_eq]
      exact hsent

theorem Balanced.retireButtons (h : Balanced s .button) (surface : ClientSurfaceId) (time : ℕ) :
    Balanced (s.retireButtons surface time) .button := by
  unfold ClientRuntime.retireButtons
  simp only []
  split_ifs with hresolves
  · have hpointer : ∃ route, s.capturedOrCurrentPointerRoute = .ok route ∧
        s.capturedOrCurrentPointerRoute.toOption.join = route := by
      cases hroute : s.capturedOrCurrentPointerRoute with
      | error error =>
          rw [hroute] at hresolves
          cases hresolves
      | ok route => exact ⟨route, rfl, rfl⟩
    obtain ⟨route, hroute, hjoin⟩ := hpointer
    rw [hjoin]
    have hholding := h.holding hroute
    rw [← Finset.sort_toFinset s.pressedButtons (· ≤ ·)] at hholding
    have hreleased := buttonMonitor_released
      (Finset.sort_nodup s.pressedButtons (· ≤ ·)) time hholding
    refine (spares_dispatchPointerTo (by simp [InputEventKind.device])).balanced ?_
    exact balanced_idle hreleased rfl rfl
  · exact h

/-! ### Routes that are equal -/

theorem FloatValue.eq_of_same {a b : FloatValue} (h : a.same b = true) : a = b := by
  cases a <;> cases b <;> simp_all [FloatValue.same]

theorem ClientPointerRoute.eq_of_same {a b : ClientPointerRoute} (h : a.same b = true) : a = b := by
  obtain ⟨asurface, alayer, atransform⟩ := a
  obtain ⟨bsurface, blayer, btransform⟩ := b
  obtain ⟨axx, axy, ayx, ayy, ax, ay⟩ := atransform
  simp only [ClientPointerRoute.same, InputTransform.same, Bool.and_eq_true, beq_iff_eq] at h
  obtain ⟨⟨hsurface, hlayer⟩, ⟨⟨⟨⟨hxx, hxy⟩, hyx⟩, hyy⟩, hx⟩, hy⟩ := h
  rw [hsurface, hlayer, FloatValue.eq_of_same hxx, FloatValue.eq_of_same hxy,
    FloatValue.eq_of_same hyx, FloatValue.eq_of_same hyy, FloatValue.eq_of_same hx,
    FloatValue.eq_of_same hy]

variable {taken : ClientPointerRoute}

theorem mem_pushNew : taken ∈ pushNew routes route ↔ taken ∈ routes ∨ taken = route := by
  unfold pushNew
  split_ifs with hcontains
  · refine ⟨Or.inl, fun h => h.elim id fun heq => ?_⟩
    unfold containsRoute at hcontains
    rw [List.any_eq_true] at hcontains
    obtain ⟨current, hmem, hsame⟩ := hcontains
    rw [heq, ← ClientPointerRoute.eq_of_same hsame]
    exact hmem
  · simp

theorem mem_foldl_pushNew {p : ClientPointerRoute → Prop} [DecidablePred p]
    {more : List ClientPointerRoute} :
    taken ∈ more.foldl (fun routes route => if p route then pushNew routes route else routes) routes ↔
      taken ∈ routes ∨ taken ∈ more ∧ p taken := by
  induction more generalizing routes with
  | nil => simp
  | cons route more ih =>
      rw [List.foldl_cons, ih]
      split_ifs with hp
      · rw [mem_pushNew, List.mem_cons]
        constructor
        · rintro ((hmem | rfl) | hrest)
          · exact Or.inl hmem
          · exact Or.inr ⟨Or.inl rfl, hp⟩
          · exact Or.inr ⟨Or.inr hrest.1, hrest.2⟩
        · rintro (hmem | ⟨rfl | hmem, htaken⟩)
          · exact Or.inl (Or.inl hmem)
          · exact Or.inl (Or.inr rfl)
          · exact Or.inr ⟨hmem, htaken⟩
      · rw [List.mem_cons]
        constructor
        · rintro (hmem | hrest)
          · exact Or.inl hmem
          · exact Or.inr ⟨Or.inr hrest.1, hrest.2⟩
        · rintro (hmem | ⟨rfl | hmem, htaken⟩)
          · exact Or.inl hmem
          · exact absurd htaken hp
          · exact Or.inr ⟨hmem, htaken⟩

/-! ### Contacts -/

/-- A contact of another surface is not affected by what is dropped. -/
theorem lookup_filter_surface
    (hdistinct : (contacts.map Prod.fst).Nodup) (surface : ClientSurfaceId) (id : TouchId) :
    (contacts.filter fun contact => decide (contact.2.surface ≠ surface)).lookup id =
      (contacts.lookup id).filter fun route => decide (route.surface ≠ surface) := by
  induction contacts with
  | nil => rfl
  | cons contact contacts ih =>
      obtain ⟨other, route⟩ := contact
      obtain ⟨hfresh, hrest⟩ := List.nodup_cons.mp hdistinct
      have hmissing : id = other → contacts.lookup id = none := by
        rintro rfl
        rw [List.lookup_eq_none_iff]
        exact fun pair hpair => bne_iff_ne.mpr fun heq =>
          hfresh (List.mem_map.mpr ⟨pair, hpair, heq.symm⟩)
      by_cases hid : id = other
      · subst hid
        rw [List.filter_cons, List.lookup_cons_self, Option.filter_some]
        split_ifs
        · rw [List.lookup_cons_self]
        · rw [ih hrest, hmissing rfl]
          rfl
      · rw [List.filter_cons, List.lookup_cons, beq_false_of_ne hid]
        split_ifs
        · rw [List.lookup_cons, beq_false_of_ne hid]
          exact ih hrest
        · exact ih hrest

theorem mem_snd_of_lookup (h : contacts.lookup id = some route) :
    route ∈ contacts.map Prod.snd := by
  obtain ⟨before, after, rfl, -⟩ := List.lookup_eq_some_iff.mp h
  simp

/-! ### Sending to each route in turn -/

theorem sendTouchAll_cons (s : ClientRuntime) (route : ClientPointerRoute)
    (routes : List ClientPointerRoute) (event : TouchEvent) (time : ℕ) :
    (s.sendTouchAll (route :: routes) event time).1 =
      ((s.sendTouch route event time).1.sendTouchAll routes event time).1 := by
  unfold sendTouchAll
  rw [List.foldl_cons]
  -- the result of an earlier route is replaced by that of a later one
  cases routes <;> rfl

/-- Touch is handed out, and nothing else happens. -/
theorem sendTouch_eq (s : ClientRuntime) (route : ClientPointerRoute) (event : TouchEvent) (time : ℕ) :
    (s.sendTouch route event time).1 =
      { s with log := s.log ++
        if route.surface.source ∈ s.adapters then [touchInput route event time] else [] } := by
  by_cases hadapter : route.surface.source ∈ s.adapters
  · rw [sendTouch_of_mem hadapter, if_pos hadapter]
    rfl
  · rw [sendTouch_of_notMem hadapter, if_neg hadapter, List.append_nil]

/-- The routes that input reaches. -/
def reachedRoutes (s : ClientRuntime) (routes : List ClientPointerRoute) : List ClientPointerRoute :=
  routes.filter fun route => decide (route.surface.source ∈ s.adapters)

theorem mem_reachedRoutes :
    route ∈ reachedRoutes s routes ↔ route ∈ routes ∧ route.surface.source ∈ s.adapters := by
  simp [reachedRoutes]

theorem sendTouchAll_eq (s : ClientRuntime) (routes : List ClientPointerRoute) (event : TouchEvent)
    (time : ℕ) :
    (s.sendTouchAll routes event time).1 =
      { s with log := s.log ++ (reachedRoutes s routes).map (touchInput · event time) } := by
  induction routes generalizing s with
  | nil => simp [sendTouchAll, reachedRoutes]
  | cons route routes ih =>
      rw [sendTouchAll_cons, ih, sendTouch_eq]
      simp only [reachedRoutes, List.filter_cons, List.append_assoc]
      by_cases hadapter : route.surface.source ∈ s.adapters
      · rw [if_pos hadapter, if_pos (decide_eq_true hadapter)]
        rfl
      · rw [if_neg hadapter, if_neg (by simpa using hadapter)]
        rfl

/-! ### Contacts that are cancelled -/

/-- A cancel ends the contacts of its route. -/
theorem contactMonitor_cancelled {held : Option ClientPointerRoute}
    (h : (contactMonitor id).Follows (· = held) log) (routes : List ClientPointerRoute) (time : ℕ) :
    (contactMonitor id).Follows (· = held.filter fun route => decide (route ∉ routes))
      (log ++ routes.map (touchInput · .cancel time)) := by
  induction routes generalizing log held with
  | nil =>
      have hall : held.filter (fun route => decide (route ∉ ([] : List ClientPointerRoute))) = held := by
        cases held <;> simp
      rw [hall]
      simpa using h
  | cons route routes ih =>
      have hone : (contactMonitor id).Follows (· = if held = some route then none else held)
          (log ++ [touchInput route .cancel time]) := by
        refine h.concat ⟨route, rfl, rfl, trivial⟩ ?_
        have hheld : (contactMonitor id).state log = held := h.2
        rw [hheld]
        rfl
      have hrest := ih hone
      rw [List.map_cons, List.append_cons]
      refine hrest.imp fun heq => heq.trans ?_
      cases held with
      | none => rfl
      | some taken =>
          by_cases htaken : taken = route
          · rw [if_pos (congrArg some htaken), htaken]
            simp [Option.filter_some]
          · rw [if_neg fun heq => htaken (Option.some.inj heq)]
            simp [Option.filter_some, htaken]

/-- A frame or a cancel completes what its routes were sent. -/
theorem frameMonitor_completed {P : Prop}
    (h : (frameMonitor route).Follows (fun held => held = true → P) log)
    (routes : List ClientPointerRoute) (hevent : event = .frame ∨ event = .cancel) (time : ℕ) :
    (frameMonitor route).Follows (fun held => held = true → P ∧ route ∉ routes)
      (log ++ routes.map (touchInput · event time)) := by
  induction routes generalizing log P with
  | nil =>
      rw [List.map_nil, List.append_nil]
      exact h.imp fun himp hheld => ⟨himp hheld, List.not_mem_nil⟩
  | cons taken routes ih =>
      have hone : (frameMonitor route).Follows (fun held => held = true → P ∧ route ≠ taken)
          (log ++ [touchInput taken event time]) := by
        refine h.concat trivial fun hheld => ?_
        have hnext : (frameMonitor route).next ((frameMonitor route).state log)
            (touchInput taken event time) =
              if taken = route then !(decide (event = .frame) || decide (event = .cancel))
              else (frameMonitor route).state log := rfl
        rw [hnext] at hheld
        split_ifs at hheld with htaken
        · rcases hevent with rfl | rfl <;> simp at hheld
        · exact ⟨h.2 hheld, fun heq => htaken heq.symm⟩
      rw [List.map_cons, List.append_cons]
      refine (ih hone).imp fun himp hheld => ?_
      obtain ⟨⟨hP, hne⟩, hnot⟩ := himp hheld
      exact ⟨hP, fun hmem => (List.mem_cons.mp hmem).elim hne hnot⟩

/-- A frame changes no contact. -/
theorem contactMonitor_framed {holds : Option ClientPointerRoute → Prop}
    (h : (contactMonitor id).Follows holds log) (routes : List ClientPointerRoute) (time : ℕ) :
    (contactMonitor id).Follows holds (log ++ routes.map (touchInput · .frame time)) := by
  induction routes generalizing log with
  | nil => simpa using h
  | cons route routes ih =>
      rw [List.map_cons, List.append_cons]
      exact ih (h.concat ⟨route, rfl, rfl, trivial⟩ h.2)

/-- What the monitors know while the contacts of a surface may be missing from them. -/
structure Touching (s : ClientRuntime) (surface : ClientSurfaceId) : Prop where
  distinct : (s.touch.contacts.map Prod.fst).Nodup
  contact : ∀ id, (contactMonitor id).Follows
    (fun held => (held = s.touch.contacts.lookup id ∧ ∀ route ∈ held, route.surface.source ∈ s.adapters) ∨
      held = none ∧ ∀ route ∈ s.touch.contacts.lookup id, route.surface = surface) s.log
  frame : ∀ route, (frameMonitor route).Follows (FrameAgrees s route) s.log

/-- **No contact of a surface is left once its touch is cancelled.** -/
theorem Touching.cancelSurfaceTouch {surface : ClientSurfaceId} (h : Touching s surface) :
    Balanced (s.cancelSurfaceTouch surface) .touch := by
  unfold ClientRuntime.cancelSurfaceTouch
  simp only [sendTouchAll_eq]
  have hroutes : ∀ taken, taken ∈ (s.touch.contacts.map Prod.snd ++ s.touch.pending).foldl
      (fun routes route => if route.surface = surface then pushNew routes route else routes) [] ↔
        taken ∈ s.touch.contacts.map Prod.snd ++ s.touch.pending ∧ taken.surface = surface := by
    intro taken
    rw [mem_foldl_pushNew (p := fun route => route.surface = surface)]
    simp
  generalize (s.touch.contacts.map Prod.snd ++ s.touch.pending).foldl
    (fun routes route => if route.surface = surface then pushNew routes route else routes) [] = routes
    at hroutes
  refine ⟨fun id => ?_, fun route => ?_⟩
  · obtain ⟨haccepts, hheld⟩ := h.contact id
    have hread : (contactMonitor id).Follows (· = (contactMonitor id).state s.log) s.log :=
      ⟨haccepts, rfl⟩
    refine (contactMonitor_cancelled hread (reachedRoutes s routes) s.touch.time).imp fun heq => ?_
    have hlookup := lookup_filter_surface h.distinct surface id
    refine ⟨h.distinct.sublist ((List.filter_sublist).map _), heq.trans ?_, fun route hroute => ?_⟩
    · refine Eq.trans ?_ hlookup.symm
      rcases hheld with ⟨hheld, hreached⟩ | ⟨hheld, hgone⟩
      · rw [hheld] at hreached ⊢
        cases hcontact : s.touch.contacts.lookup id with
        | none => rfl
        | some route =>
            have hmem : route ∈ s.touch.contacts.map Prod.snd := mem_snd_of_lookup hcontact
            have hcancel : route ∈ reachedRoutes s routes ↔ route.surface = surface := by
              rw [mem_reachedRoutes, hroutes]
              refine ⟨fun h => h.1.2, fun h => ⟨⟨List.mem_append_left _ hmem, h⟩, ?_⟩⟩
              exact hreached route hcontact
            simp [Option.filter_some, hcancel]
      · rw [hheld]
        symm
        rw [Option.filter_none, Option.filter_eq_none_iff]
        intro route hroute
        simpa using hgone route hroute
    · have hkept : ((s.touch.contacts.lookup id).filter fun route =>
          decide (route.surface ≠ surface)) = some route := hlookup.symm.trans hroute
      rw [Option.filter_eq_some_iff] at hkept
      obtain ⟨hmem, hne⟩ := hkept
      rcases hheld with ⟨hheld, hreached⟩ | ⟨-, hgone⟩
      · rw [hheld] at hreached
        exact hreached route hmem
      · exact absurd (hgone route hmem) (of_decide_eq_true hne)
  · refine (frameMonitor_completed (h.frame route) (reachedRoutes s routes) (Or.inr rfl)
      s.touch.time).imp fun himp hheld => ?_
    obtain ⟨⟨hpending, hreached⟩, hcompleted⟩ := himp hheld
    refine ⟨List.mem_filter.mpr ⟨hpending, decide_eq_true fun hsurface => hcompleted ?_⟩, hreached⟩
    exact mem_reachedRoutes.mpr
      ⟨(hroutes route).mpr ⟨List.mem_append_right _ hpending, hsurface⟩, hreached⟩

variable (h : Balanced s .touch)
include h

theorem Balanced.touching (surface : ClientSurfaceId) : Touching s surface :=
  { distinct := (h.1 0).2.distinct
    contact := fun id => (h.1 id).imp fun hagrees =>
      Or.inl ⟨hagrees.held, fun route hroute => hagrees.reached route (hagrees.held ▸ hroute)⟩
    frame := h.2 }

/-! ### One touch event -/

/-- The contact an event is about. -/
def TouchEvent.contact : TouchEvent → Option TouchId
  | .down id _ | .motion id _ | .up id => some id
  | .frame | .cancel => none

omit h in
theorem contactMonitor_elsewhere {other : TouchId} (hevent : event.contact = some id) (hother : other ≠ id)
    (route : ClientPointerRoute) (time : ℕ) (held : Option ClientPointerRoute) :
    (contactMonitor other).next held (touchInput route event time) = held ∧
      (contactMonitor other).allows held (touchInput route event time) := by
  cases event with
  | frame | cancel => cases hevent
  | down id position =>
      cases hevent
      exact ⟨if_neg hother.symm, route, rfl, rfl, fun heq => absurd heq hother.symm⟩
  | motion id position =>
      cases hevent
      exact ⟨rfl, route, rfl, rfl, fun heq => absurd heq hother.symm⟩
  | up id =>
      cases hevent
      exact ⟨if_neg hother.symm, route, rfl, rfl, fun heq => absurd heq hother.symm⟩

omit h in
theorem frameMonitor_contact (hevent : event.contact = some id)
    (route taken : ClientPointerRoute) (time : ℕ) (held : Bool) :
    (frameMonitor route).next held (touchInput taken event time) = if taken = route then true else held := by
  cases event with
  | frame | cancel => cases hevent
  | down | motion | up => rfl

/-- A contact event is handed out along the route of its contact. -/
theorem Balanced.contactSent {time : ℕ} (hevent : event.contact = some id)
    (hreached : route.surface.source ∈ s.adapters) (hlog : t.log = s.log ++ [touchInput route event time])
    (hadapters : t.adapters = s.adapters) (hpending : t.touch.pending = pushNew s.touch.pending route)
    (hdistinct : (t.touch.contacts.map Prod.fst).Nodup)
    (hother : ∀ other, other ≠ id → t.touch.contacts.lookup other = s.touch.contacts.lookup other)
    (hallows : (contactMonitor id).allows (s.touch.contacts.lookup id) (touchInput route event time))
      (hnext : (contactMonitor id).next (s.touch.contacts.lookup id) (touchInput route event time) =
      t.touch.contacts.lookup id)
    (hroute : ∀ taken, t.touch.contacts.lookup id = some taken → taken = route) : Balanced t .touch := by
  refine ⟨fun other => ?_, fun taken => ?_⟩
  · have hheld : (contactMonitor other).state s.log = s.touch.contacts.lookup other :=
      (h.1 other).2.held
    rw [hlog]
    by_cases heq : other = id
    · subst heq
      refine (h.1 other).concat ?_ ⟨hdistinct, ?_, fun taken htaken => ?_⟩
      · rw [hheld]
        exact hallows
      · rw [hheld]
        exact hnext
      · rw [hroute taken htaken, hadapters]
        exact hreached
    · obtain ⟨hsame, hallowed⟩ := contactMonitor_elsewhere hevent heq route time
        ((contactMonitor other).state s.log)
      refine (h.1 other).concat hallowed ⟨hdistinct, ?_, fun taken htaken => ?_⟩
      · rw [hsame, hother other heq]
        exact hheld
      · rw [hadapters]
        exact (h.1 other).2.reached taken ((hother other heq) ▸ htaken)
  · rw [hlog]
    refine (h.2 taken).concat trivial fun hheld => ?_
    rw [frameMonitor_contact hevent] at hheld
    rw [hpending, hadapters, mem_pushNew]
    split_ifs at hheld with htaken
    · exact ⟨Or.inr htaken.symm, htaken ▸ hreached⟩
    · obtain ⟨hmem, hregistered⟩ := (h.2 taken).2 hheld
      exact ⟨Or.inl hmem, hregistered⟩

theorem Balanced.framed (time : ℕ) :
    Balanced ((s.withContacts s.touch.contacts []).sendTouchAll s.touch.pending .frame time).1
      .touch := by
  rw [sendTouchAll_eq]
  refine ⟨fun id => ?_, fun taken => ?_⟩
  · exact (contactMonitor_framed (h.1 id) _ time).imp fun hagrees =>
      ⟨hagrees.distinct, hagrees.held, hagrees.reached⟩
  · refine (frameMonitor_completed (h.2 taken) (reachedRoutes s s.touch.pending) (Or.inl rfl)
      time).imp fun himp hheld => ?_
    obtain ⟨⟨hmem, hreached⟩, hcompleted⟩ := himp hheld
    exact absurd (mem_reachedRoutes.mpr ⟨hmem, hreached⟩) hcompleted

theorem Balanced.allCancelled (time : ℕ) :
    Balanced ((s.withContacts [] []).sendTouchAll
      ((s.touch.contacts.map Prod.snd).foldl pushNew s.touch.pending) .cancel time).1 .touch := by
  rw [sendTouchAll_eq]
  have hroutes : ∀ taken, taken ∈ (s.touch.contacts.map Prod.snd).foldl pushNew s.touch.pending ↔
      taken ∈ s.touch.pending ∨ taken ∈ s.touch.contacts.map Prod.snd := by
    intro taken
    have hmem : taken ∈ List.foldl _ s.touch.pending (s.touch.contacts.map Prod.snd) ↔ _ :=
      mem_foldl_pushNew (p := fun _ => True)
    simpa using hmem
  generalize (s.touch.contacts.map Prod.snd).foldl pushNew s.touch.pending = routes at hroutes
  refine ⟨fun id => ?_, fun taken => ?_⟩
  · have hheld : (contactMonitor id).Follows (· = s.touch.contacts.lookup id) s.log :=
      (h.1 id).imp fun hagrees => hagrees.held
    refine (contactMonitor_cancelled hheld (reachedRoutes s routes) time).imp fun heq =>
      ⟨List.nodup_nil, heq.trans ?_, fun taken htaken => by cases htaken⟩
    refine Option.filter_eq_none_iff.mpr fun taken htaken => ?_
    have hcancel : taken ∈ reachedRoutes s routes := mem_reachedRoutes.mpr
      ⟨(hroutes taken).mpr (Or.inr (mem_snd_of_lookup htaken)), (h.1 id).2.reached taken htaken⟩
    simpa using hcancel
  · refine (frameMonitor_completed (h.2 taken) (reachedRoutes s routes) (Or.inr rfl)
      time).imp fun himp hheld => ?_
    obtain ⟨⟨hmem, hreached⟩, hcompleted⟩ := himp hheld
    exact absurd (mem_reachedRoutes.mpr ⟨(hroutes taken).mpr (Or.inl hmem), hreached⟩) hcompleted

omit h in
theorem dispatchContact_withContacts (s : ClientRuntime)
    (contacts : List (TouchId × ClientPointerRoute)) (pending : List ClientPointerRoute) (id : TouchId)
    (route : ClientPointerRoute) (event : TouchEvent) (time : ℕ) :
    ((s.withContacts contacts pending).dispatchContact id route event time).1 =
      if (localTouch route event).isValid then
        if route.surface.source ∈ s.adapters then
          (s.withContacts contacts (pushNew pending route)).record
            (touchInput route (localTouch route event) time)
        else
          s.withContacts (contacts.filter fun contact => decide (contact.1 ≠ id))
            ((pushNew pending route).filter fun current => !current.same route)
      else (s.withContacts contacts (pushNew pending route)).cancelSurfaceTouch route.surface :=
  dispatchContact_eq _ id route event time

/-- A contact whose beginning cannot be handed out is given up. -/
theorem Balanced.contactDown (hnew : s.touch.contacts.lookup id = none) (route : ClientPointerRoute)
    (position : InputPosition) (time : ℕ) :
    Balanced ((s.withContacts (s.touch.contacts ++ [(id, route)]) s.touch.pending).dispatchContact id
      route (.down id position) time).1 .touch := by
  have hfresh : ∀ contact ∈ s.touch.contacts, contact.1 ≠ id := by
    intro contact hmem heq
    have hne := List.lookup_eq_none_iff.mp hnew contact hmem
    simp [heq] at hne
  have hdistinct : ((s.touch.contacts ++ [(id, route)]).map Prod.fst).Nodup := by
    rw [List.map_append, List.nodup_append]
    refine ⟨(h.1 0).2.distinct, List.nodup_singleton _, fun a ha b hb => ?_⟩
    obtain ⟨contact, hmem, rfl⟩ := List.mem_map.mp ha
    rw [List.mem_singleton.mp hb]
    exact hfresh contact hmem
  have hlookup : (s.touch.contacts ++ [(id, route)]).lookup id = some route := by
    rw [List.lookup_append, hnew, List.lookup_cons_self]
    rfl
  have hother : ∀ other, other ≠ id →
      (s.touch.contacts ++ [(id, route)]).lookup other = s.touch.contacts.lookup other := by
    intro other hne
    rw [List.lookup_append, List.lookup_cons, beq_false_of_ne hne]
    cases s.touch.contacts.lookup other <;> rfl
  rw [dispatchContact_withContacts]
  by_cases hvalid : (localTouch route (.down id position)).isValid = true
  · rw [if_pos hvalid]
    by_cases hreached : route.surface.source ∈ s.adapters
    · rw [if_pos hreached]
      refine h.contactSent rfl hreached rfl rfl rfl hdistinct hother ?_ ?_ fun taken htaken => ?_
      · exact ⟨route, rfl, rfl, fun _ => hnew⟩
      · exact (if_pos rfl).trans hlookup.symm
      · exact (Option.some.inj (hlookup.symm.trans htaken)).symm
    · rw [if_neg hreached]
      have hsame : (s.touch.contacts ++ [(id, route)]).filter
          (fun contact => decide (contact.1 ≠ id)) = s.touch.contacts := by
        rw [List.filter_append, List.filter_eq_self.mpr fun contact hmem =>
          decide_eq_true (hfresh contact hmem)]
        simp
      rw [hsame]
      refine ⟨fun other => (h.1 other).imp fun hagrees =>
        ⟨hagrees.distinct, hagrees.held, hagrees.reached⟩, fun taken => (h.2 taken).imp ?_⟩
      intro hagrees hheld
      obtain ⟨hmem, hregistered⟩ := hagrees hheld
      refine ⟨List.mem_filter.mpr ⟨mem_pushNew.mpr (Or.inl hmem), ?_⟩, hregistered⟩
      cases hequal : taken.same route with
      | false => rfl
      | true => exact absurd (ClientPointerRoute.eq_of_same hequal ▸ hregistered) hreached
  · rw [if_neg hvalid]
    -- the contact that never began is cancelled with those of its surface
    refine Touching.cancelSurfaceTouch ⟨hdistinct, fun other => (h.1 other).imp fun hagrees => ?_,
      fun taken => (h.2 taken).imp fun hagrees hheld => ?_⟩
    · by_cases heq : other = id
      · subst heq
        refine Or.inr ⟨hagrees.held.trans hnew, fun taken htaken => ?_⟩
        rw [Option.some.inj (hlookup.symm.trans htaken)]
      · refine Or.inl ⟨hagrees.held.trans (hother other heq).symm, fun taken htaken => ?_⟩
        exact hagrees.reached taken (hagrees.held ▸ htaken)
    · obtain ⟨hmem, hregistered⟩ := hagrees hheld
      exact ⟨mem_pushNew.mpr (Or.inl hmem), hregistered⟩

theorem Balanced.contactMotion (hroute : s.touch.contacts.lookup id = some route) (position : InputPosition)
    (time : ℕ) : Balanced (s.dispatchContact id route (.motion id position) time).1 .touch := by
  have hsame : s.withContacts s.touch.contacts s.touch.pending = s := rfl
  rw [← hsame, dispatchContact_withContacts]
  have hreached : route.surface.source ∈ s.adapters := (h.1 id).2.reached route hroute
  by_cases hvalid : (localTouch route (.motion id position)).isValid = true
  · rw [if_pos hvalid, if_pos hreached]
    refine h.contactSent rfl hreached rfl rfl rfl (h.1 id).2.distinct (fun _ _ => rfl) ?_ rfl
      fun taken htaken => (Option.some.inj (hroute.symm.trans htaken)).symm
    exact ⟨route, rfl, rfl, fun _ => hroute⟩
  · rw [if_neg hvalid]
    have htouching := h.touching route.surface
    refine Touching.cancelSurfaceTouch ⟨htouching.distinct, htouching.contact, fun taken =>
      (h.2 taken).imp fun hagrees hheld => ?_⟩
    obtain ⟨hmem, hregistered⟩ := hagrees hheld
    exact ⟨mem_pushNew.mpr (Or.inl hmem), hregistered⟩

omit h in
/-- Without its entry a contact is not found. -/
theorem lookup_eraseP (hdistinct : (contacts.map Prod.fst).Nodup) (id other : TouchId) :
    (contacts.eraseP fun contact => contact.1 == id).lookup other =
      if other = id then none else contacts.lookup other := by
  induction contacts with
  | nil => simp
  | cons contact contacts ih =>
      obtain ⟨key, route⟩ := contact
      obtain ⟨hfresh, hrest⟩ := List.nodup_cons.mp hdistinct
      by_cases hkey : key = id
      · subst hkey
        rw [List.eraseP_cons_of_pos (by simp), List.lookup_cons]
        split_ifs with hother
        · subst hother
          exact List.lookup_eq_none_iff.mpr fun pair hpair => bne_iff_ne.mpr fun heq =>
            hfresh (List.mem_map.mpr ⟨pair, hpair, heq.symm⟩)
        · rw [beq_false_of_ne hother]
      · rw [List.eraseP_cons_of_neg (by simpa using hkey), List.lookup_cons, List.lookup_cons, ih hrest]
        by_cases hother : other = key
        · rw [hother, if_neg hkey]
          simp [hkey]
        · rw [beq_false_of_ne hother]

theorem Balanced.contactUp (hroute : s.touch.contacts.lookup id = some route) (time : ℕ) :
    Balanced ((s.withContacts (s.touch.contacts.eraseP fun contact => contact.1 == id)
      s.touch.pending).dispatchContact id route (.up id) time).1 .touch := by
  have hdistinct : (s.touch.contacts.map Prod.fst).Nodup := (h.1 id).2.distinct
  have hreached : route.surface.source ∈ s.adapters := (h.1 id).2.reached route hroute
  have hvalid : (localTouch route (.up id)).isValid = true := rfl
  have hgone : (s.touch.contacts.eraseP fun contact => contact.1 == id).lookup id = none := by
    rw [lookup_eraseP hdistinct, if_pos rfl]
  rw [dispatchContact_withContacts, if_pos hvalid, if_pos hreached]
  refine h.contactSent rfl hreached rfl rfl rfl ?_ (fun other hne => ?_) ?_ ?_ fun taken htaken => ?_
  · exact hdistinct.sublist ((List.eraseP_sublist).map _)
  · exact (lookup_eraseP hdistinct id other).trans (if_neg hne)
  · exact ⟨route, rfl, rfl, fun _ => hroute⟩
  · exact (if_pos rfl).trans hgone.symm
  · exact absurd (hgone.symm.trans htaken) (Option.some_ne_none taken).symm

/-- **A contact keeps the route of its beginning, and everyone it touched is told how it ends.** -/
theorem Balanced.dispatchTouch (route : Option ClientPointerRoute) (event : TouchEvent) (time : ℕ) :
    Balanced (s.dispatchTouch route event time).1 .touch := by
  have haside : Spares .touch s { s with touch := { s.touch with time := time } } :=
    .silent rfl ⟨rfl, rfl⟩ rfl
  have htime := haside.balanced h
  unfold ClientRuntime.dispatchTouch
  split_ifs
  · cases event with
    | frame => exact htime.framed time
    | cancel => exact htime.allCancelled time
    | down id position =>
        simp only []
        split_ifs with hrefused
        · exact htime
        · have hnew : s.touch.contacts.lookup id = none := by
            rw [Bool.or_eq_true, not_or] at hrefused
            exact Option.not_isSome_iff_eq_none.mp hrefused.1
          split
          · split_ifs
            · exact htime
            · exact htime.contactDown hnew _ position time
          · exact htime
          · exact htime
    | motion id position =>
        simp only []
        split
        · exact htime
        · rename_i hroute
          exact htime.contactMotion hroute position time
    | up id =>
        simp only []
        split
        · exact htime
        · rename_i hroute
          exact htime.contactUp hroute time
  · exact h

omit h

end Client
