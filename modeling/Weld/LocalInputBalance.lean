/-
**Keys, gestures and scrolls are balanced.**

A key, a gesture and a scroll with fingers are ended where they began, once.  What is the business of
one device spares the others.

Main results:

* `Balanced.dispatchKey`, `Balanced.retireKeys`;
* `Balanced.dispatchGesture`, `Balanced.endGesture`;
* `Balanced.dispatchAxis`, `Balanced.retireFingerScroll`.
-/

import Weld.LocalInput

namespace Client

open ClientRuntime

variable {s : ClientRuntime} {d : Device}

/-! ### Handing out spares the other devices -/

theorem spares_record {r : RuntimeRecord} (h : r.concerns d = false) : Spares d s (s.record r) := by
  refine ⟨rfl, .refl s d, [r], rfl, fun q hq => ?_⟩
  rw [List.mem_singleton.mp hq]
  exact h

theorem spares_dispatchTo {route : Option ClientPointerRoute} {event : ClientInputEvent}
    (h : event.event.device ≠ some d) : Spares d s (s.dispatchTo route event).1 := by
  unfold dispatchTo
  split_ifs
  · exact spares_record (beq_eq_false_iff_ne.mpr h)
  · exact .refl d s

@[simp] theorem device_localEvent (position : Option InputPosition) (event : InputEventKind) :
    (localEvent position event).device = event.device := by
  cases event <;> rfl

variable {event : InputEventKind} {position : Option InputPosition} {time : ℕ}
  {route : ClientPointerRoute} {t : ClientRuntime} {gesture : PointerGesture}
  {axis : RawScrollFrame} {keycode : LinuxKeycode}

theorem spares_dispatchPointerTo {route : Option ClientPointerRoute} (h : event.device ≠ some d) :
    Spares d s (s.dispatchPointerTo route event position time).1 := by
  cases route with
  | none => exact .refl d s
  | some route => exact spares_dispatchTo (by simpa using h)

theorem spares_dispatchPointer
    (h : event.device ≠ some d) : Spares d s (s.dispatchPointer event position time).1 := by
  unfold dispatchPointer
  split
  · exact spares_dispatchPointerTo h
  · exact .refl d s

theorem spares_dispatchFocused (h : event.device ≠ some d) :
    Spares d s (s.dispatchFocused event time).2.1 := by
  unfold dispatchFocused
  split
  · exact spares_dispatchTo h
  · exact .refl d s
  · exact .refl d s

/-! ### Touch spares the other devices -/

theorem spares_withContacts (h : d ≠ .touch) (contacts : List (TouchId × ClientPointerRoute))
    (pending : List ClientPointerRoute) : Spares d s (s.withContacts contacts pending) := by
  refine .silent rfl (.of_device (fun _ => ⟨rfl, rfl⟩) (fun _ => ⟨rfl, rfl⟩) (fun hd => absurd hd h)
    (fun _ => rfl) fun _ => rfl) rfl

theorem spares_sendTouch (h : d ≠ .touch) {event : TouchEvent} :
    Spares d s (s.sendTouch route event time).1 :=
  spares_dispatchTo fun heq => h (Option.some.inj heq).symm

theorem spares_sendTouchAll (h : d ≠ .touch) (routes : List ClientPointerRoute) {event : TouchEvent} :
    Spares d s (s.sendTouchAll routes event time).1 := by
  unfold sendTouchAll
  induction routes using List.reverseRecOn with
  | nil => exact .refl d s
  | append_singleton routes route ih =>
      rw [List.foldl_append]
      exact ih.trans (spares_sendTouch h)

theorem spares_cancelSurfaceTouch (h : d ≠ .touch) (surface : ClientSurfaceId) :
    Spares d s (s.cancelSurfaceTouch surface) :=
  (spares_withContacts h _ _).trans (spares_sendTouchAll h _)

/-- The record of a touch event. -/
def touchInput (route : ClientPointerRoute) (event : TouchEvent) (time : ℕ) : RuntimeRecord :=
  .input (some route)
    { target := .touch route.surface route.layer, event := .touch event, time := time }

theorem sendTouch_of_mem (h : route.surface.source ∈ s.adapters)
    (event : TouchEvent) (time : ℕ) :
    s.sendTouch route event time = (s.record (touchInput route event time), .delivered) :=
  if_pos h

theorem sendTouch_of_notMem (h : route.surface.source ∉ s.adapters)
    (event : TouchEvent) (time : ℕ) : s.sendTouch route event time = (s, .unknownAdapter) :=
  if_neg h

/-- A contact event is handed out, or its route is given up. -/
theorem dispatchContact_eq (s : ClientRuntime) (id : TouchId) (route : ClientPointerRoute)
    (event : TouchEvent) (time : ℕ) :
    (s.dispatchContact id route event time).1 =
      let waiting := s.withContacts s.touch.contacts (pushNew s.touch.pending route)
      if (localTouch route event).isValid then
        if route.surface.source ∈ s.adapters then
          waiting.record (touchInput route (localTouch route event) time)
        else
          waiting.withContacts (s.touch.contacts.filter fun contact => decide (contact.1 ≠ id))
            ((pushNew s.touch.pending route).filter fun current => !current.same route)
      else waiting.cancelSurfaceTouch route.surface := by
  unfold dispatchContact
  by_cases hvalid : (localTouch route event).isValid = true
  · simp only [if_pos hvalid]
    by_cases hadapter : route.surface.source ∈ s.adapters
    · have hsend := sendTouch_of_mem
        (s := s.withContacts s.touch.contacts (pushNew s.touch.pending route)) hadapter
        (localTouch route event) time
      rw [hsend, if_pos hadapter]
    · have hsend := sendTouch_of_notMem
        (s := s.withContacts s.touch.contacts (pushNew s.touch.pending route)) hadapter
        (localTouch route event) time
      rw [hsend, if_neg hadapter]
      rfl
  · simp only [if_neg hvalid]

theorem spares_dispatchContact (h : d ≠ .touch) {id : TouchId}
    {event : TouchEvent} : Spares d s (s.dispatchContact id route event time).1 := by
  rw [dispatchContact_eq]
  refine (spares_withContacts h s.touch.contacts (pushNew s.touch.pending route)).trans ?_
  split_ifs
  · exact spares_record (beq_eq_false_iff_ne.mpr fun heq => h (Option.some.inj heq).symm)
  · exact spares_withContacts h _ _
  · exact spares_cancelSurfaceTouch h _

theorem spares_dispatchTouch (h : d ≠ .touch) (route : Option ClientPointerRoute) (event : TouchEvent)
    (time : ℕ) : Spares d s (s.dispatchTouch route event time).1 := by
  have htime : Spares d s { s with touch := { s.touch with time := time } } :=
    .silent rfl (.of_device (fun _ => ⟨rfl, rfl⟩) (fun _ => ⟨rfl, rfl⟩) (fun _ => ⟨rfl, rfl⟩)
      (fun _ => rfl) fun _ => rfl) rfl
  unfold dispatchTouch
  split_ifs
  · refine htime.trans ?_
    cases event with
    | frame | cancel => exact (spares_withContacts h _ _).trans (spares_sendTouchAll h _)
    | down id position =>
        simp only []
        split_ifs
        · exact .refl d _
        · split
          · split_ifs
            · exact .refl d _
            · exact (spares_withContacts h _ _).trans (spares_dispatchContact h)
          · exact .refl d _
          · exact .refl d _
    | motion id position =>
        simp only []
        split
        · exact .refl d _
        · exact spares_dispatchContact h
    | up id =>
        simp only []
        split
        · exact .refl d _
        · exact (spares_withContacts h _ _).trans (spares_dispatchContact h)
  · exact .refl d s

/-! ### Focus and aliases spare all but keys -/

theorem sameCapture_of_key (h : d ≠ .key)
    (hbutton : t.pointerCapture = s.pointerCapture ∧ t.pressedButtons = s.pressedButtons)
    (htouch : t.touch = s.touch) (hgesture : t.gestureCapture = s.gestureCapture)
    (hscroll : t.fingerScrollCapture = s.fingerScrollCapture) : SameCapture s t d :=
  .of_device (fun hd => absurd hd h) (fun _ => hbutton) (fun _ => ⟨by rw [htouch], by rw [htouch]⟩)
    (fun _ => hgesture) fun _ => hscroll

theorem spares_invalidateKeyboardRepeats (h : d ≠ .key) :
    Spares d s s.invalidateKeyboardRepeats := by
  refine ⟨rfl, sameCapture_of_key h ⟨rfl, rfl⟩ rfl rfl rfl, [.refocused], rfl, fun r hr => ?_⟩
  rw [List.mem_singleton.mp hr]
  exact beq_eq_false_iff_ne.mpr h

theorem spares_setKeyboardRoute (h : d ≠ .key) (route : Option ClientKeyboardRoute) :
    Spares d s (s.setKeyboardRoute route) := by
  have hfirst : Spares d s (if s.keyboardRoute ≠ route then s.invalidateKeyboardRepeats else s) := by
    split_ifs
    · exact spares_invalidateKeyboardRepeats h
    · exact .refl d s
  exact hfirst.trans (.silent rfl (sameCapture_of_key h ⟨rfl, rfl⟩ rfl rfl rfl) rfl)

theorem spares_withAliases (h : d ≠ .key) (aliases : Dict ClientSurfaceId ClientSurfaceId)
    (retired : List ClientSurfaceId) : Spares d s (s.withAliases aliases retired) := by
  have hfirst : Spares d s { s with aliases := aliases, retiredAliases := retired } :=
    .silent rfl (sameCapture_of_key h ⟨rfl, rfl⟩ rfl rfl rfl) rfl
  unfold withAliases
  refine hfirst.trans ?_
  simp only []
  split_ifs
  · exact spares_invalidateKeyboardRepeats h
  · exact .refl d _

theorem spares_setRouteAlias (h : d ≠ .key) (destination source : ClientSurfaceId) :
    Spares d s (s.setRouteAlias destination source) := by
  unfold setRouteAlias
  split_ifs
  · exact spares_withAliases h _ _
  · exact .refl d s

theorem spares_removeRouteAlias (h : d ≠ .key) (destination : ClientSurfaceId) :
    Spares d s (s.removeRouteAlias destination) := by
  unfold removeRouteAlias
  split_ifs
  · exact spares_withAliases h _ _
  · exact .refl d s

theorem spares_clearFocus (h : d ≠ .key) : Spares d s s.clearFocus.1 := by
  unfold clearFocus
  split
  · exact .refl d s
  · split_ifs
    · exact (spares_setKeyboardRoute h none).trans (spares_record rfl)
    · exact .refl d s

/-- The focus leaves the source that has it. -/
theorem spares_left (focus : ClientFocusRequest) :
    Spares d s (match s.keyboardRoute with
      | some previous =>
          if previous.surface.source ≠ focus.source ∧ previous.surface.source ∈ s.adapters then
            s.record (.request previous.surface.source (.focus ⟨previous.surface.source, none⟩))
          else s
      | none => s) := by
  split
  · split_ifs
    · exact spares_record rfl
    · exact .refl d s
  · exact .refl d s

theorem spares_applyFocus (h : d ≠ .key) (focus : ClientFocusRequest) :
    Spares d s (s.applyFocus focus).1 := by
  unfold applyFocus
  split_ifs
  · have hleft : Spares d s _ := spares_left focus
    have hasked := hleft.trans (spares_record (r := .request focus.source (.focus focus)) rfl)
    simp only []
    split_ifs
    · exact hasked.trans (spares_setKeyboardRoute h _)
    · exact hasked
  · exact .refl d s

theorem spares_applyRequest (h : d ≠ .key) (request : ClientRequest) :
    Spares d s (s.applyRequest request).1 := by
  unfold applyRequest
  split
  · exact spares_clearFocus h
  · split
    · exact .refl d s
    · exact .refl d s
    · exact spares_applyFocus h _
    · split_ifs
      · exact spares_record rfl
      · exact .refl d s

/-! ### Every device spares the others -/

/-- A change of nothing that is captured. -/
theorem Spares.aside (hadapters : t.adapters = s.adapters) (hlog : t.log = s.log)
    (hkeys : t.keyboardCaptures = s.keyboardCaptures ∧ t.keyboardRoute = s.keyboardRoute)
    (hbuttons : t.pointerCapture = s.pointerCapture ∧ t.pressedButtons = s.pressedButtons)
    (htouch : t.touch = s.touch) (hgesture : t.gestureCapture = s.gestureCapture)
    (hscroll : t.fingerScrollCapture = s.fingerScrollCapture) : Spares d s t :=
  .silent hadapters (.of_device (fun _ => hkeys) (fun _ => hbuttons)
    (fun _ => ⟨by rw [htouch], by rw [htouch]⟩) (fun _ => hgesture) fun _ => hscroll) hlog

theorem spares_setPointerRoute (route : Option ClientPointerRoute) :
    Spares d s (s.setPointerRoute route) := by
  unfold setPointerRoute
  split <;> exact .aside rfl rfl ⟨rfl, rfl⟩ ⟨rfl, rfl⟩ rfl rfl rfl

theorem spares_atPosition (position : Option InputPosition) : Spares d s (s.atPosition position) :=
  .aside rfl rfl ⟨rfl, rfl⟩ ⟨rfl, rfl⟩ rfl rfl rfl

theorem spares_dispatchLeft (position : InputPosition) (time : ℕ) :
    Spares d s (s.dispatchLeft position time).1 := by
  have hsent : Spares d s (s.dispatchPointer (.pointerLeft position) (some position) time).1 :=
    spares_dispatchPointer (by simp [InputEventKind.device])
  unfold dispatchLeft
  simp only []
  split <;> exact hsent.trans (.aside rfl rfl ⟨rfl, rfl⟩ ⟨rfl, rfl⟩ rfl rfl rfl)

theorem spares_consumeRetiredLocalEdge (event : RuntimeInputEventKind) :
    Spares d s (s.consumeRetiredLocalEdge event).1 := by
  unfold consumeRetiredLocalEdge
  split
  · split_ifs <;> exact .aside rfl rfl ⟨rfl, rfl⟩ ⟨rfl, rfl⟩ rfl rfl rfl
  · split_ifs <;> exact .aside rfl rfl ⟨rfl, rfl⟩ ⟨rfl, rfl⟩ rfl rfl rfl
  · exact .refl d s

/-- A change of the gesture that is captured. -/
theorem spares_gestureCapture (h : d ≠ .gesture) (capture : Option GestureCapture) :
    Spares d s { s with gestureCapture := capture } :=
  .silent rfl (.of_device (fun _ => ⟨rfl, rfl⟩) (fun _ => ⟨rfl, rfl⟩) (fun _ => ⟨rfl, rfl⟩)
    (fun hd => absurd hd h) fun _ => rfl) rfl

theorem spares_endGesture (h : d ≠ .gesture) (time : ℕ) : Spares d s (s.endGesture time) := by
  unfold endGesture
  split
  · exact .refl d s
  · exact (spares_gestureCapture h none).trans
      (spares_dispatchPointerTo fun heq => h (Option.some.inj heq).symm)

theorem spares_dispatchGesture (h : d ≠ .gesture) (gesture : PointerGesture) (time : ℕ) :
    Spares d s (s.dispatchGesture gesture time).1 := by
  have hdevice : (InputEventKind.pointerGesture gesture).device ≠ some d :=
    fun heq => h (Option.some.inj heq).symm
  unfold dispatchGesture
  by_cases hbegin : gesture.isBegin = true
  · have hended := spares_endGesture (s := s) h time
    simp only [if_pos hbegin]
    split
    · exact hended
    · exact hended.trans ((spares_gestureCapture h _).trans (spares_dispatchPointerTo hdevice))
  · rw [if_neg hbegin]
    split
    · exact .refl d s
    · rename_i capture _
      have hsent : Spares d s (s.dispatchPointerTo capture.route (.pointerGesture gesture) none time).1 :=
        spares_dispatchPointerTo hdevice
      split_ifs
      · exact hsent.trans (spares_gestureCapture h none)
      · exact hsent

section

variable (h : d ≠ .scroll)
include h

/-- A change of the scroll that is captured. -/
theorem spares_fingerScrollCapture (capture : Option FingerScrollCapture) :
    Spares d s { s with fingerScrollCapture := capture } :=
  .silent rfl (.of_device (fun _ => ⟨rfl, rfl⟩) (fun _ => ⟨rfl, rfl⟩) (fun _ => ⟨rfl, rfl⟩)
    (fun _ => rfl) fun hd => absurd hd h) rfl

theorem device_axis_ne (position : Option InputPosition) (axis : RawScrollFrame) :
    (InputEventKind.pointerAxis position axis).device ≠ some d := by
  simp only [InputEventKind.device]
  split_ifs
  · exact fun heq => h (Option.some.inj heq).symm
  · exact fun heq => Option.some_ne_none d heq.symm

theorem spares_scrolled (capture : Option FingerScrollCapture) (route : Option ClientPointerRoute)
    (position at_ : Option InputPosition) (axis : RawScrollFrame) (time : ℕ) :
    Spares d s ({ s with fingerScrollCapture := capture }.dispatchPointerTo route
      (.pointerAxis position axis) at_ time).1 :=
  (spares_fingerScrollCapture h capture).trans (spares_dispatchPointerTo (device_axis_ne h _ _))

theorem spares_endFingerScroll (position : Option InputPosition) (time : ℕ) :
    Spares d s (s.endFingerScroll position time) := by
  unfold endFingerScroll
  split
  · exact .refl d s
  · split_ifs
    · exact spares_scrolled h none _ _ _ _ _
    · exact spares_fingerScrollCapture h none

theorem spares_dispatchAxis (position : Option InputPosition) (axis : RawScrollFrame) (time : ℕ) :
    Spares d s (s.dispatchAxis position axis time).1 := by
  unfold dispatchAxis
  by_cases hsource : axis.source = .finger
  · rw [if_neg (not_not.mpr hsource)]
    split
    · have hended := spares_endFingerScroll (s := s) h position time
      simp only []
      split
      · exact hended
      · exact hended.trans (spares_scrolled h _ _ _ _ _ _)
    · split
      · exact .refl d s
      · exact spares_scrolled h _ _ _ _ _ _
    · split
      · exact .refl d s
      · exact spares_scrolled h _ _ _ _ _ _
    · split
      · exact .refl d s
      · exact spares_scrolled h _ _ _ _ _ _
  · rw [if_pos hsource]
    exact spares_dispatchPointer (device_axis_ne h _ _)

end

/-- A change of the buttons that are captured. -/
theorem spares_buttons (h : d ≠ .button) (hadapters : t.adapters = s.adapters)
    (hlog : t.log = s.log)
    (hkeys : t.keyboardCaptures = s.keyboardCaptures ∧ t.keyboardRoute = s.keyboardRoute)
    (htouch : t.touch = s.touch) (hgesture : t.gestureCapture = s.gestureCapture)
    (hscroll : t.fingerScrollCapture = s.fingerScrollCapture) : Spares d s t :=
  .silent hadapters (.of_device (fun _ => hkeys) (fun hd => absurd hd h)
    (fun _ => ⟨by rw [htouch], by rw [htouch]⟩) (fun _ => hgesture) fun _ => hscroll) hlog

theorem spares_startCapture (h : d ≠ .button) {state : ButtonState}
    (ht : s.startCapture state = .ok t) : Spares d s t := by
  unfold startCapture at ht
  split_ifs at ht
  · cases hroute : s.resolvedPointerRoute s.pointerRoute with
    | error error =>
        rw [hroute] at ht
        cases ht
    | ok route =>
        rw [hroute] at ht
        cases ht
        exact spares_buttons h rfl rfl ⟨rfl, rfl⟩ rfl rfl rfl
  · cases ht
    exact .refl d s

theorem spares_endButton (h : d ≠ .button) (button : LinuxButtonCode) (state : ButtonState) :
    Spares d s (s.endButton button state) := by
  unfold endButton
  simp only []
  split_ifs <;> exact spares_buttons h rfl rfl ⟨rfl, rfl⟩ rfl rfl rfl

theorem spares_dispatchButton (h : d ≠ .button) (position : Option InputPosition)
    (button : LinuxButtonCode) (state : ButtonState) (time : ℕ) :
    Spares d s (s.dispatchButton position button state time).1 := by
  have hdevice : (InputEventKind.pointerButton position button state).device ≠ some d :=
    fun heq => h (Option.some.inj heq).symm
  unfold dispatchButton
  split_ifs
  · split
    · exact .refl d s
    · rename_i t ht
      refine (spares_startCapture h ht).trans ?_
      split
      · exact .refl d t
      · exact (spares_dispatchPointerTo hdevice).trans (spares_endButton h button state)
  · exact .refl d s

/-- A change of the keys that are captured. -/
theorem spares_keyboardCaptures (h : d ≠ .key) (captures : Dict LinuxKeycode KeyboardCapture) :
    Spares d s { s with keyboardCaptures := captures } :=
  .silent rfl (sameCapture_of_key h ⟨rfl, rfl⟩ rfl rfl rfl) rfl

theorem device_key_ne (h : d ≠ .key) (keycode : LinuxKeycode) (state : KeyboardKeyState) :
    (InputEventKind.keyboard keycode state).device ≠ some d :=
  fun heq => h (Option.some.inj heq).symm

theorem spares_releaseKey (h : d ≠ .key) (keycode : LinuxKeycode) (time : ℕ) :
    Spares d s (s.releaseKey keycode time) := by
  unfold releaseKey
  split
  · exact .refl d s
  · exact (spares_keyboardCaptures h _).trans (spares_dispatchTo (device_key_ne h _ _))

theorem spares_dispatchKey (h : d ≠ .key) (keycode : LinuxKeycode) (state : KeyboardKeyState)
    (time : ℕ) : Spares d s (s.dispatchKey keycode state time).1 := by
  unfold dispatchKey
  cases state with
  | repeated =>
      simp only []
      split
      · exact .refl d s
      · split_ifs
        · exact .refl d s
        · exact spares_dispatchTo (device_key_ne h _ _)
  | pressed =>
      have hsent : Spares d s
          ((s.releaseKey keycode time).dispatchFocused (.keyboard keycode .pressed) time).2.1 :=
        (spares_releaseKey h keycode time).trans (spares_dispatchFocused (device_key_ne h _ _))
      simp only []
      split
      · rename_i heq
        rw [heq] at hsent
        exact hsent.trans (spares_keyboardCaptures h _)
      · rename_i heq
        rw [heq] at hsent
        exact hsent
  | released =>
      simp only []
      split
      · exact (spares_keyboardCaptures h _).trans (spares_dispatchTo (device_key_ne h _ _))
      · exact spares_dispatchFocused (device_key_ne h _ _)

/-! ### Gestures -/

/-- The record of a pointer event. -/
def pointerInput (route : ClientPointerRoute) (event : InputEventKind)
    (position : Option InputPosition) (time : ℕ) : RuntimeRecord :=
  .input (some route)
    { target := .pointer route.surface route.layer
      hostPosition := position
      event := localEvent (position.map route.transform.transform) event
      time := time }

/-- A pointer event is handed out along the part of the route that it reaches. -/
theorem dispatchPointerTo_fst (s : ClientRuntime) (route : Option ClientPointerRoute)
    (event : InputEventKind) (position : Option InputPosition) (time : ℕ) :
    (s.dispatchPointerTo route event position time).1 =
      match s.reached route with
      | none => s
      | some taken => s.record (pointerInput taken event position time) := by
  cases route with
  | none => rfl
  | some route =>
      unfold dispatchPointerTo dispatchTo reached
      rw [Option.filter_some]
      by_cases hadapter : route.surface.source ∈ s.adapters
      · rw [if_pos (decide_eq_true hadapter)]
        exact congrArg Prod.fst (if_pos hadapter)
      · rw [if_neg (by simpa using hadapter)]
        exact congrArg Prod.fst (if_neg hadapter)

theorem gestureMonitor_begin (h : gesture.isBegin = true)
    (held : Option (PointerGestureKind × ClientPointerRoute)) (taken : ClientPointerRoute) (time : ℕ) :
    gestureMonitor.next held (pointerInput taken (.pointerGesture gesture) none time) =
      some (gesture.kind, taken) :=
  if_pos h

theorem gestureMonitor_rest (h : gesture.isBegin = false)
    (held : Option (PointerGestureKind × ClientPointerRoute)) (taken : ClientPointerRoute) (time : ℕ) :
    gestureMonitor.next held (pointerInput taken (.pointerGesture gesture) none time) =
      if gesture.isEnd then none else held :=
  if_neg (by simp [h])

variable {taken : ClientPointerRoute}

theorem gestureMonitor_allows {held : Option (PointerGestureKind × ClientPointerRoute)}
    (h : held = if gesture.isBegin then none else some (gesture.kind, taken)) :
    gestureMonitor.allows held (pointerInput taken (.pointerGesture gesture) none time) :=
  ⟨taken, rfl, rfl, h⟩

theorem Balanced.endGesture (h : Balanced s .gesture) (time : ℕ) :
    Balanced (s.endGesture time) .gesture ∧ (s.endGesture time).gestureCapture = none := by
  have hagrees : GestureAgrees s (gestureMonitor.state s.log) := h.2
  unfold GestureAgrees at hagrees
  unfold ClientRuntime.endGesture
  cases hcapture : s.gestureCapture with
  | none => exact ⟨h, hcapture⟩
  | some capture =>
      rw [hcapture, Option.bind_some] at hagrees
      simp only [dispatchPointerTo_fst]
      rw [show ({ s with gestureCapture := none } : ClientRuntime).reached capture.route =
        s.reached capture.route from rfl]
      cases hreached : s.reached capture.route with
      | none =>
          rw [hreached, Option.map_none] at hagrees
          exact ⟨⟨h.1, hagrees⟩, rfl⟩
      | some taken =>
          rw [hreached, Option.map_some] at hagrees
          refine ⟨Monitor.Follows.concat h (gestureMonitor_allows ?_) ?_, rfl⟩
          · rw [hagrees]
            simp
          · rw [gestureMonitor_rest (by simp)]
            simp [GestureAgrees, record]

/-- **Every gesture that begins at a surface ends there, once.** -/
theorem Balanced.dispatchGesture (h : Balanced s .gesture)
    (hkind : gesture.isBegin = false → ∀ capture ∈ s.gestureCapture, capture.kind = gesture.kind) :
    Balanced (s.dispatchGesture gesture time).1 .gesture := by
  unfold ClientRuntime.dispatchGesture
  by_cases hbegin : gesture.isBegin = true
  · rw [if_pos hbegin]
    obtain ⟨hended, hnone⟩ := h.endGesture time
    generalize s.endGesture time = t at hended hnone
    have hagrees : GestureAgrees t (gestureMonitor.state t.log) := hended.2
    unfold GestureAgrees at hagrees
    rw [hnone, Option.bind_none] at hagrees
    simp only []
    split
    · exact hended
    · rename_i route _
      rw [dispatchPointerTo_fst]
      rw [show ({ t with gestureCapture := some ⟨gesture.kind, route⟩ } : ClientRuntime).reached route =
        t.reached route from rfl]
      cases hreached : t.reached route with
      | none =>
          refine ⟨hended.1, ?_⟩
          show _ = Option.map _ (t.reached route)
          rw [hreached]
          exact hagrees
      | some taken =>
          refine Monitor.Follows.concat hended (gestureMonitor_allows ?_) ?_
          · rw [if_pos hbegin]
            exact hagrees
          · rw [gestureMonitor_begin hbegin]
            show _ = Option.map _ (t.reached route)
            rw [hreached]
            rfl
  · have hrest : gesture.isBegin = false := by simpa using hbegin
    rw [if_neg hbegin]
    have hagrees : GestureAgrees s (gestureMonitor.state s.log) := h.2
    unfold GestureAgrees at hagrees
    cases hcapture : s.gestureCapture with
    | none => exact h
    | some capture =>
        rw [hcapture, Option.bind_some] at hagrees
        simp only []
        rw [dispatchPointerTo_fst]
        cases hreached : s.reached capture.route with
        | none =>
            rw [hreached, Option.map_none] at hagrees
            split_ifs
            · exact ⟨h.1, hagrees⟩
            · exact h
        | some taken =>
            rw [hreached, Option.map_some] at hagrees
            have hallows : gestureMonitor.allows (gestureMonitor.state s.log)
                (pointerInput taken (.pointerGesture gesture) none time) := by
              refine gestureMonitor_allows ?_
              rw [hagrees, if_neg hbegin, hkind hrest capture hcapture]
            simp only []
            split_ifs with hend
            · refine Monitor.Follows.concat h hallows ?_
              rw [gestureMonitor_rest hrest, if_pos hend]
              rfl
            · refine Monitor.Follows.concat h hallows ?_
              rw [gestureMonitor_rest hrest, if_neg hend, hagrees]
              show _ = s.gestureCapture.bind _
              rw [hcapture, Option.bind_some]
              show _ = Option.map _ (s.reached capture.route)
              rw [hreached]
              rfl

/-! ### Scrolls with fingers -/

theorem scrollMonitor_next (h : axis.source = .finger)
    (held : Option ClientPointerRoute) (taken : ClientPointerRoute)
    (position at_ : Option InputPosition) (time : ℕ) :
    scrollMonitor.next held (pointerInput taken (.pointerAxis position axis) at_ time) =
      match axis.phase with
      | .started => some taken
      | .moved => held
      | .ended | .cancelled => none :=
  if_pos h

theorem scrollMonitor_allows {held : Option ClientPointerRoute} {position at_ : Option InputPosition}
    (h : held = if axis.phase = .started then none else some taken) :
    scrollMonitor.allows held (pointerInput taken (.pointerAxis position axis) at_ time) :=
  fun _ => ⟨taken, rfl, rfl, h⟩

/-- A scroll is handed out along the route of its capture, and a capture takes its place. -/
theorem Balanced.scrolled (h : Balanced s .scroll) {capture : Option FingerScrollCapture}
    {route : Option ClientPointerRoute} {position at_ : Option InputPosition}
    (hsource : axis.source = .finger)
    (hheld : scrollMonitor.state s.log = if axis.phase = .started then none else s.reached route)
    (hcapture : (capture.bind fun capture => s.reached capture.route) =
      match axis.phase with
      | .started | .moved => s.reached route
      | .ended | .cancelled => none) :
    Balanced ({ s with fingerScrollCapture := capture }.dispatchPointerTo route
      (.pointerAxis position axis) at_ time).1 .scroll := by
  rw [dispatchPointerTo_fst]
  rw [show ({ s with fingerScrollCapture := capture } : ClientRuntime).reached route = s.reached route
    from rfl]
  cases hreached : s.reached route with
  | none =>
      refine ⟨h.1, ?_⟩
      show scrollMonitor.state s.log = capture.bind fun capture => s.reached capture.route
      rw [hcapture, hheld, hreached]
      cases axis.phase <;> rfl
  | some taken =>
      rw [hreached] at hheld hcapture
      refine Monitor.Follows.concat h (scrollMonitor_allows hheld) ?_
      rw [scrollMonitor_next hsource]
      show _ = capture.bind fun capture => s.reached capture.route
      rw [hcapture, hheld]
      cases axis.phase <;> rfl

/-- **Every scroll that starts at a surface ends there, once.** -/
theorem Balanced.dispatchAxis (h : Balanced s .scroll)
    (hstart : axis.source = .finger → axis.phase = .started → s.fingerScrollCapture = none) :
    Balanced (s.dispatchAxis position axis time).1 .scroll := by
  have hagrees : ScrollAgrees s (scrollMonitor.state s.log) := h.2
  unfold ScrollAgrees at hagrees
  unfold ClientRuntime.dispatchAxis
  by_cases hsource : axis.source = .finger
  · rw [if_neg (not_not.mpr hsource)]
    cases hphase : axis.phase with
    | started =>
        have hnone := hstart hsource hphase
        have hended : s.endFingerScroll position time = s := by
          rw [ClientRuntime.endFingerScroll, hnone]
        rw [hnone, Option.bind_none] at hagrees
        simp only [hended]
        split
        · exact h
        · refine h.scrolled hsource ?_ ?_
          · rw [hphase, if_pos rfl, hagrees]
          · rw [hphase]
            rfl
    | moved | ended | cancelled =>
        cases hcapture : s.fingerScrollCapture with
        | none => exact h
        | some capture =>
            rw [hcapture, Option.bind_some] at hagrees
            refine h.scrolled hsource ?_ ?_
            · rw [hphase, if_neg (by simp), hagrees]
            · rw [hphase]
              rfl
  · rw [if_pos hsource]
    exact (spares_dispatchPointer (by simp [InputEventKind.device, hsource])).balanced h

theorem Balanced.retireFingerScroll (h : Balanced s .scroll) (surface : ClientSurfaceId) (time : ℕ) :
    Balanced (s.retireFingerScroll surface time) .scroll := by
  have hagrees : ScrollAgrees s (scrollMonitor.state s.log) := h.2
  unfold ScrollAgrees at hagrees
  unfold ClientRuntime.retireFingerScroll
  cases hcapture : s.fingerScrollCapture with
  | none => exact h
  | some capture =>
      rw [hcapture, Option.bind_some] at hagrees
      simp only []
      split_ifs
      · refine h.scrolled rfl ?_ rfl
        rw [hagrees]
        rfl
      · exact h

/-! ### Keys -/

/-- The record of a key. -/
def keyInput (surface : ClientSurfaceId) (keycode : LinuxKeycode) (state : KeyboardKeyState)
    (time : ℕ) : RuntimeRecord :=
  .input none { target := .keyboard surface, event := .keyboard keycode state, time := time }

theorem dispatchKeyboardTo_of_mem {route : ClientKeyboardRoute}
    (h : route.surface.source ∈ s.adapters) (keycode : LinuxKeycode) (state : KeyboardKeyState)
    (time : ℕ) : s.dispatchKeyboardTo route (.keyboard keycode state) time =
      (s.record (keyInput route.surface keycode state time), .delivered) :=
  if_pos h

theorem dispatchKeyboardTo_of_notMem {route : ClientKeyboardRoute}
    (h : route.surface.source ∉ s.adapters) (event : InputEventKind) (time : ℕ) :
    s.dispatchKeyboardTo route event time = (s, .unknownAdapter) :=
  if_neg h

section

variable (h : Balanced s .key)
include h

/-- One more transition or repeat of a key. -/
theorem Balanced.keyRecord {surface : ClientSurfaceId} {state : KeyboardKeyState}
    (hlog : t.log = s.log ++ [keyInput surface keycode state time]) (hadapters : t.adapters = s.adapters)
    (hroute : t.keyboardRoute = s.keyboardRoute)
    (hothers : ∀ key, key ≠ keycode → t.keyboardCaptures.lookup key = s.keyboardCaptures.lookup key)
      (hallows : (keyMonitor keycode).allows ((keyMonitor keycode).state s.log) (keyInput surface
      keycode state time)) (hagrees : KeyAgrees t keycode ((keyMonitor keycode).next ((keyMonitor
      keycode).state s.log) (keyInput surface keycode state time))) : Balanced t .key := by
  intro key
  rw [hlog]
  by_cases hkey : key = keycode
  · subst hkey
    exact (h key).concat hallows hagrees
  · refine (h key).concat (fun heq => absurd heq.symm hkey) ?_
    have hnext : (keyMonitor key).next ((keyMonitor key).state s.log)
        (keyInput surface keycode state time) = (keyMonitor key).state s.log :=
      if_neg fun heq => hkey heq.symm
    have hbefore : KeyAgrees s key ((keyMonitor key).state s.log) := (h key).2
    rw [hnext]
    unfold KeyAgrees at hbefore ⊢
    rwa [hothers key hkey, hroute, hadapters]

variable {capture : KeyboardCapture}

/-- What the monitor knows of a key that is captured. -/
theorem Balanced.captured (hcapture : s.keyboardCaptures.lookup keycode = some capture) :
    capture.route.surface.source ∈ s.adapters ∧
      ∃ repeats, (keyMonitor keycode).state s.log = some (capture.route.surface, repeats) ∧
        (capture.repeatAllowed = true → repeats = true ∨ s.keyboardRoute = none) :=
  (keyAgrees_some hcapture).mp (h keycode).2

theorem Balanced.uncaptured (hcapture : s.keyboardCaptures.lookup keycode = none) :
    (keyMonitor keycode).state s.log = none :=
  (keyAgrees_none hcapture).mp (h keycode).2

/-- A key that is captured is released at its surface. -/
theorem Balanced.released (hcapture : s.keyboardCaptures.lookup keycode = some capture)
    (hlog : t.log = s.log ++ [keyInput capture.route.surface keycode .released time])
    (hadapters : t.adapters = s.adapters) (hroute : t.keyboardRoute = s.keyboardRoute)
    (hcaptures : t.keyboardCaptures = s.keyboardCaptures.erase keycode) : Balanced t .key := by
  obtain ⟨-, repeats, hheld, -⟩ := h.captured hcapture
  refine h.keyRecord hlog hadapters hroute (fun key hkey => ?_) (fun _ => ?_) ?_
  · rw [hcaptures, AList.lookup_erase_eq, if_neg hkey]
  · rw [hheld]
    exact ⟨rfl, Or.inl rfl⟩
  · refine (keyAgrees_none ?_).mpr (if_pos rfl)
    rw [hcaptures, AList.lookup_erase_eq, if_pos rfl]

theorem Balanced.releaseKey (keycode : LinuxKeycode) (time : ℕ) :
    Balanced (s.releaseKey keycode time) .key ∧
      (s.releaseKey keycode time).keyboardCaptures.lookup keycode = none := by
  unfold ClientRuntime.releaseKey
  cases hcapture : s.keyboardCaptures.lookup keycode with
  | none => exact ⟨h, hcapture⟩
  | some capture =>
      obtain ⟨hadapter, -⟩ := h.captured hcapture
      have hsend := dispatchKeyboardTo_of_mem
        (s := { s with keyboardCaptures := s.keyboardCaptures.erase keycode }) hadapter keycode
        .released time
      simp only [hsend]
      refine ⟨h.released hcapture rfl rfl rfl rfl, ?_⟩
      show (s.keyboardCaptures.erase keycode).lookup keycode = none
      rw [AList.lookup_erase_eq, if_pos rfl]

/-- **A key is released where it was pressed, and repeats only there.** -/
theorem Balanced.dispatchKey (keycode : LinuxKeycode) (state : KeyboardKeyState) (time : ℕ) :
    Balanced (s.dispatchKey keycode state time).1 .key := by
  unfold ClientRuntime.dispatchKey
  cases state with
  | repeated =>
      cases hcapture : s.keyboardCaptures.lookup keycode with
      | none => exact h
      | some capture =>
          obtain ⟨hadapter, repeats, hheld, hrepeats⟩ := h.captured hcapture
          simp only []
          split_ifs with hblocked
          · exact h
          · obtain ⟨hallowed, hfocus⟩ := not_or.mp hblocked
            have hallowed : capture.repeatAllowed = true := by simpa using hallowed
            have hrepeating : repeats = true := by
              refine (hrepeats hallowed).resolve_right fun hnone => hfocus ?_
              rw [hnone]
              simp [resolvedKeyboardRoute]
            rw [dispatchKeyboardTo_of_mem hadapter]
            refine h.keyRecord rfl rfl rfl (fun _ _ => rfl) (fun _ => ?_) ?_
            · rw [hheld]
              exact ⟨rfl, Or.inr ⟨rfl, hrepeating⟩⟩
            · have hnext : (keyMonitor keycode).next ((keyMonitor keycode).state s.log)
                  (keyInput capture.route.surface keycode .repeated time) =
                    (keyMonitor keycode).state s.log := if_pos rfl
              rw [hnext]
              exact (h keycode).2
  | pressed =>
      obtain ⟨hreleased, hnone⟩ := h.releaseKey keycode time
      generalize s.releaseKey keycode time = t at hreleased hnone
      have hheld := hreleased.uncaptured hnone
      simp only [dispatchFocused]
      cases hfocus : t.resolvedKeyboardRoute t.keyboardRoute with
      | error error => exact hreleased
      | ok route =>
          cases route with
          | none => exact hreleased
          | some route =>
              simp only []
              by_cases hadapter : route.surface.source ∈ t.adapters
              · rw [dispatchKeyboardTo_of_mem hadapter]
                refine hreleased.keyRecord rfl rfl rfl (fun key hkey => ?_) (fun _ => ?_) ?_
                · show (t.keyboardCaptures.insert keycode _).lookup key = _
                  rw [AList.lookup_insert_eq, if_neg hkey]
                · rw [hheld]
                  simp
                · have hcapture : (t.keyboardCaptures.insert keycode ⟨route, true⟩).lookup keycode =
                      some ⟨route, true⟩ := by rw [AList.lookup_insert_eq, if_pos rfl]
                  refine (keyAgrees_some hcapture).mpr ?_
                  exact ⟨hadapter, true, if_pos rfl, fun _ => Or.inl rfl⟩
              · rw [dispatchKeyboardTo_of_notMem hadapter]
                exact hreleased
  | released =>
      cases hcapture : s.keyboardCaptures.lookup keycode with
      | some capture =>
          have hreleased := (h.releaseKey keycode time).1
          rw [ClientRuntime.releaseKey, hcapture] at hreleased
          exact hreleased
      | none =>
          have hheld := h.uncaptured hcapture
          simp only [dispatchFocused]
          cases hfocus : s.resolvedKeyboardRoute s.keyboardRoute with
          | error error => exact h
          | ok route =>
              cases route with
              | none => exact h
              | some route =>
                  simp only []
                  by_cases hadapter : route.surface.source ∈ s.adapters
                  · rw [dispatchKeyboardTo_of_mem hadapter]
                    refine h.keyRecord rfl rfl rfl (fun _ _ => rfl) (fun _ => ?_) ?_
                    · rw [hheld]
                      simp
                    · exact (keyAgrees_none hcapture).mpr (if_pos rfl)
                  · rw [dispatchKeyboardTo_of_notMem hadapter]
                    exact h

/-- Once the focus changes no key repeats. -/
theorem Balanced.refocused (hlog : t.log = s.log ++ [.refocused]) (hadapters : t.adapters = s.adapters)
      (hcaptures : t.keyboardCaptures = s.keyboardCaptures.mapValues fun _ capture => { capture with
      repeatAllowed := false }) : Balanced t .key := by
  intro keycode
  rw [hlog]
  refine (h keycode).concat trivial ?_
  unfold KeyAgrees
  rw [hcaptures, AList.lookup_mapValues]
  cases hcapture : s.keyboardCaptures.lookup keycode with
  | none =>
      show (keyMonitor keycode).next _ _ = none
      rw [h.uncaptured hcapture]
      rfl
  | some capture =>
      obtain ⟨hadapter, repeats, hheld, -⟩ := h.captured hcapture
      refine ⟨hadapters ▸ hadapter, false, ?_, fun hallowed => by cases hallowed⟩
      rw [hheld]
      rfl

theorem Balanced.setKeyboardRoute (route : Option ClientKeyboardRoute) :
    Balanced (s.setKeyboardRoute route) .key := by
  unfold ClientRuntime.setKeyboardRoute
  split_ifs with hroute
  · exact h.refocused rfl rfl rfl
  · have hsame : route = s.keyboardRoute := (not_not.mp hroute).symm
    have haside : Spares .key s { s with keyboardRoute := route } :=
      .aside rfl rfl ⟨rfl, hsame⟩ ⟨rfl, rfl⟩ rfl rfl rfl
    exact haside.balanced h

theorem Balanced.withAliases (aliases : Dict ClientSurfaceId ClientSurfaceId)
    (retired : List ClientSurfaceId) : Balanced (s.withAliases aliases retired) .key := by
  unfold ClientRuntime.withAliases
  simp only []
  split_ifs
  · exact h.refocused rfl rfl rfl
  · exact (Spares.aside rfl rfl ⟨rfl, rfl⟩ ⟨rfl, rfl⟩ rfl rfl rfl).balanced h

theorem Balanced.setRouteAlias (destination source : ClientSurfaceId) :
    Balanced (s.setRouteAlias destination source) .key := by
  unfold ClientRuntime.setRouteAlias
  split_ifs
  · exact h.withAliases _ _
  · exact h

theorem Balanced.removeRouteAlias (destination : ClientSurfaceId) :
    Balanced (s.removeRouteAlias destination) .key := by
  unfold ClientRuntime.removeRouteAlias
  split_ifs
  · exact h.withAliases _ _
  · exact h

theorem Balanced.clearFocus : Balanced s.clearFocus.1 .key := by
  unfold ClientRuntime.clearFocus
  split
  · exact h
  · split_ifs
    · exact (spares_record rfl).balanced (h.setKeyboardRoute none)
    · exact h

theorem Balanced.applyFocus (focus : ClientFocusRequest) : Balanced (s.applyFocus focus).1 .key := by
  unfold ClientRuntime.applyFocus
  split_ifs
  · have hleft : Spares .key s _ := spares_left focus
    have hasked := (hleft.trans
      (spares_record (r := .request focus.source (.focus focus)) rfl)).balanced h
    simp only []
    split_ifs
    · exact hasked.setKeyboardRoute _
    · exact hasked
  · exact h

theorem Balanced.applyRequest (request : ClientRequest) : Balanced (s.applyRequest request).1 .key := by
  unfold ClientRuntime.applyRequest
  split
  · exact h.clearFocus
  · split
    · exact h
    · exact h
    · exact h.applyFocus _
    · split_ifs
      · exact (spares_record rfl).balanced h
      · exact h

/-- Keys that are held by the surface itself are released there. -/
theorem Balanced.retireKeys (order : IterationOrder LinuxKeycode) (call : ℕ) (surface : ClientSurfaceId)
    (time : ℕ) (hown : ∀ keycode capture, s.keyboardCaptures.lookup keycode = some capture →
      s.surfaceResolvesTo capture.route.surface surface = true → capture.route.surface = surface) :
    Balanced (s.retireKeys order call surface time) .key := by
  unfold ClientRuntime.retireKeys
  have hheld : ∀ keycode ∈ s.heldKeys surface (order.arrange call s.keyboardCaptures.keys),
      ∃ capture, s.keyboardCaptures.lookup keycode = some capture ∧ capture.route.surface = surface := by
    intro keycode hmem
    obtain ⟨-, hresolves⟩ := List.mem_filter.mp hmem
    rw [Option.any_eq_true] at hresolves
    obtain ⟨capture, hcapture, hresolves⟩ := hresolves
    exact ⟨capture, hcapture, hown keycode capture hcapture hresolves⟩
  have hnodup : (s.heldKeys surface (order.arrange call s.keyboardCaptures.keys)).Nodup :=
    (order.nodup_arrange call s.keyboardCaptures.keys_nodup).filter _
  clear hown
  generalize s.heldKeys surface (order.arrange call s.keyboardCaptures.keys) = keys at hheld hnodup
  induction keys generalizing s with
  | nil => exact h
  | cons keycode keys ih =>
      obtain ⟨capture, hcapture, rfl⟩ := hheld keycode List.mem_cons_self
      obtain ⟨hadapter, -⟩ := h.captured hcapture
      rw [List.foldl_cons]
      have hsend := dispatchKeyboardTo_of_mem
        (s := { s with
          keyboardCaptures := s.keyboardCaptures.erase keycode
          retiredLocalKeys := keycode :: s.retiredLocalKeys }) hadapter keycode .released time
      simp only [hsend]
      refine ih (h.released hcapture rfl rfl rfl rfl) (fun key hkey => ?_) hnodup.of_cons
      obtain ⟨other, hother, hsurface⟩ := hheld key (List.mem_cons_of_mem _ hkey)
      refine ⟨other, ?_, hsurface⟩
      show (s.keyboardCaptures.erase keycode).lookup key = some other
      rw [AList.lookup_erase_eq, if_neg, hother]
      rintro rfl
      exact (List.nodup_cons.mp hnodup).1 hkey

end

end Client
