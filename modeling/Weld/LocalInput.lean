/-
**What balanced input is.**

A surface that was told that a key, a button, a gesture, a scroll or a touch contact began has to be told
how it ends, and nobody else may be.  Each of these is a monitor that reads what was handed to the
adapters.  It forgets what a surface holds when the surface is destroyed, or one that it had become an
alias of, and when the host loses focus.

Main definitions: `keyMonitor`, `buttonMonitor`, `contactMonitor`, `frameMonitor`, `gestureMonitor`,
`scrollMonitor`, `Balanced`, `Spares`.

Main results:

* `Spares.balanced` — such a step keeps the balance of the device.
-/

import Weld.ClientRuntime
import Weld.Monitor

namespace Client

/-! ### Monitors -/

/-- The surface that holds a key, and whether the key may repeat there.  A key that is held is released
where it was pressed; it repeats there until the focus changes. -/
def keyMonitor (keycode : LinuxKeycode) :
    Monitor RuntimeRecord (Option (ClientSurfaceId × Bool)) where
  init := none
  next
    | held, .input _ ⟨target, _, .keyboard key state, _⟩ =>
        if key = keycode then
          match state with
          | .pressed => some (target.surface, true)
          | .released => none
          | .repeated => held
        else held
    | held, .forgotten surface aliases => held.filter fun h => decide (h.1 ∉ surface :: aliases)
    | _, .hostFocusLost _ => none
    | held, .refocused => held.map fun h => (h.1, false)
    | held, _ => held
  allows
    | held, .input _ ⟨target, _, .keyboard key state, _⟩ =>
        key = keycode →
          match held with
          | none => state ≠ .repeated
          | some (surface, repeats) => target = .keyboard surface ∧
              (state = .released ∨ state = .repeated ∧ repeats = true)
    | _, _ => True

/-- The route that holds buttons, with the buttons it holds: all buttons take it. -/
def buttonMonitor : Monitor RuntimeRecord (Option (ClientPointerRoute × Finset LinuxButtonCode)) where
  init := none
  next
    | held, .input (some route) ⟨_, _, .pointerButton _ button state, _⟩ =>
        match held, state with
        | none, .pressed => some (route, {button})
        | none, .released => none
        | some (route, buttons), .pressed => some (route, insert button buttons)
        | some (route, buttons), .released =>
            if buttons.erase button = ∅ then none else some (route, buttons.erase button)
    | held, .forgotten surface aliases => held.filter fun h => decide (h.1.surface ∉ surface :: aliases)
    | _, .hostFocusLost _ => none
    | held, _ => held
  allows
    | held, .input route ⟨target, _, .pointerButton _ _ _, _⟩ =>
        ∃ taken, route = some taken ∧ target = .pointer taken.surface taken.layer ∧
          ∀ h ∈ held, h.1 = taken
    | _, _ => True

/-- The route of a touch contact, from its beginning to its end. -/
def contactMonitor (id : TouchId) : Monitor RuntimeRecord (Option ClientPointerRoute) where
  init := none
  next
    | held, .input (some route) ⟨_, _, .touch event, _⟩ =>
        match event with
        | .down other _ => if other = id then some route else held
        | .up other => if other = id then none else held
        | .cancel => if held = some route then none else held
        | .motion _ _ | .frame => held
    | held, _ => held
  allows
    | held, .input route ⟨target, _, .touch event, _⟩ =>
        ∃ taken, route = some taken ∧ target = .touch taken.surface taken.layer ∧
          match event with
          | .down other _ => other = id → held = none
          | .motion other _ | .up other => other = id → held = some taken
          | .frame | .cancel => True
    | _, _ => True

/-- Whether a route was sent contact events without a frame that completes them. -/
def frameMonitor (route : ClientPointerRoute) : Monitor RuntimeRecord Bool where
  init := false
  next
    | held, .input (some taken) ⟨_, _, .touch event, _⟩ =>
        if taken = route then !(decide (event = .frame) || decide (event = .cancel)) else held
    | held, _ => held
  allows _ _ := True

/-- The kind and the route of a gesture, from its beginning to its end. -/
def gestureMonitor : Monitor RuntimeRecord (Option (PointerGestureKind × ClientPointerRoute)) where
  init := none
  next
    | held, .input (some route) ⟨_, _, .pointerGesture gesture, _⟩ =>
        if gesture.isBegin then some (gesture.kind, route) else if gesture.isEnd then none else held
    | held, .forgotten surface aliases => held.filter fun h => decide (h.2.surface ∉ surface :: aliases)
    | _, .hostFocusLost _ => none
    | held, _ => held
  allows
    | held, .input route ⟨target, _, .pointerGesture gesture, _⟩ =>
        ∃ taken, route = some taken ∧ target = .pointer taken.surface taken.layer ∧
          held = if gesture.isBegin then none else some (gesture.kind, taken)
    | _, _ => True

/-- The route of a scroll with fingers, from its beginning to its end. -/
def scrollMonitor : Monitor RuntimeRecord (Option ClientPointerRoute) where
  init := none
  next
    | held, .input (some route) ⟨_, _, .pointerAxis _ axis, _⟩ =>
        if axis.source = .finger then
          match axis.phase with
          | .started => some route
          | .moved => held
          | .ended | .cancelled => none
        else held
    | held, .forgotten surface aliases => held.filter fun h => decide (h.surface ∉ surface :: aliases)
    | _, .hostFocusLost _ => none
    | held, _ => held
  allows
    | held, .input route ⟨target, _, .pointerAxis _ axis, _⟩ =>
        axis.source = .finger → ∃ taken, route = some taken ∧
          target = .pointer taken.surface taken.layer ∧
          held = if axis.phase = .started then none else some taken
    | _, _ => True

/-! ### Agreement with the runtime -/

inductive Device
  | key | button | touch | gesture | scroll
  deriving DecidableEq

/-- The part of a route that input really takes: its adapter is registered. -/
def ClientRuntime.reached (s : ClientRuntime) (route : Option ClientPointerRoute) :
    Option ClientPointerRoute :=
  route.filter fun route => decide (route.surface.source ∈ s.adapters)

/-- A key is held where it was captured.  Without a focus, a capture may be mistaken about repeats. -/
def KeyAgrees (s : ClientRuntime) (keycode : LinuxKeycode) (held : Option (ClientSurfaceId × Bool)) :
    Prop :=
  match s.keyboardCaptures.lookup keycode with
  | none => held = none
  | some capture => capture.route.surface.source ∈ s.adapters ∧
      ∃ repeats, held = some (capture.route.surface, repeats) ∧
        (capture.repeatAllowed = true → repeats = true ∨ s.keyboardRoute = none)

section KeyAgrees

variable {s : ClientRuntime} {keycode : LinuxKeycode} {held : Option (ClientSurfaceId × Bool)}

theorem keyAgrees_none (h : s.keyboardCaptures.lookup keycode = none) :
    KeyAgrees s keycode held ↔ held = none := by
  rw [KeyAgrees, h]

theorem keyAgrees_some {capture : KeyboardCapture}
    (h : s.keyboardCaptures.lookup keycode = some capture) :
    KeyAgrees s keycode held ↔ capture.route.surface.source ∈ s.adapters ∧
      ∃ repeats, held = some (capture.route.surface, repeats) ∧
        (capture.repeatAllowed = true → repeats = true ∨ s.keyboardRoute = none) := by
  rw [KeyAgrees, h]

end KeyAgrees

def ButtonAgrees (s : ClientRuntime)
    (held : Option (ClientPointerRoute × Finset LinuxButtonCode)) : Prop :=
  match s.pointerCapture with
  | .idle => held = none ∧ s.pressedButtons = ∅
  | .active route => held = (s.reached route).map (fun route => (route, s.pressedButtons)) ∧
      s.pressedButtons ≠ ∅

structure ContactAgrees (s : ClientRuntime) (id : TouchId) (held : Option ClientPointerRoute) :
    Prop where
  distinct : (s.touch.contacts.map Prod.fst).Nodup
  held : held = s.touch.contacts.lookup id
  reached : ∀ route, s.touch.contacts.lookup id = some route → route.surface.source ∈ s.adapters

def FrameAgrees (s : ClientRuntime) (route : ClientPointerRoute) (held : Bool) : Prop :=
  held = true → route ∈ s.touch.pending ∧ route.surface.source ∈ s.adapters

def GestureAgrees (s : ClientRuntime) (held : Option (PointerGestureKind × ClientPointerRoute)) :
    Prop :=
  held = s.gestureCapture.bind fun capture => (s.reached capture.route).map fun route =>
    (capture.kind, route)

def ScrollAgrees (s : ClientRuntime) (held : Option ClientPointerRoute) : Prop :=
  held = s.fingerScrollCapture.bind fun capture => s.reached capture.route

/-- The record of a device is balanced, and the monitor agrees with what is captured. -/
def Balanced (s : ClientRuntime) : Device → Prop
  | .key => ∀ keycode, (keyMonitor keycode).Follows (KeyAgrees s keycode) s.log
  | .button => buttonMonitor.Follows (ButtonAgrees s) s.log
  | .touch => (∀ id, (contactMonitor id).Follows (ContactAgrees s id) s.log) ∧
      ∀ route, (frameMonitor route).Follows (FrameAgrees s route) s.log
  | .gesture => gestureMonitor.Follows (GestureAgrees s) s.log
  | .scroll => scrollMonitor.Follows (ScrollAgrees s) s.log

/-! ### Steps that are about something else -/

/-- The device an input event belongs to. -/
def InputEventKind.device : InputEventKind → Option Device
  | .keyboard _ _ => some .key
  | .pointerButton _ _ _ => some .button
  | .touch _ => some .touch
  | .pointerGesture _ => some .gesture
  | .pointerAxis _ axis => if axis.source = .finger then some .scroll else none
  | .pointerMotion _ _ | .pointerLeft _ | .text _ => none

def RuntimeRecord.concerns (d : Device) : RuntimeRecord → Bool
  | .input _ event => event.event.device == some d
  | .refocused => d == .key
  | .forgotten _ _ | .hostFocusLost _ => true
  | .request _ _ | .retired _ _ => false

/-- What is captured of a device is the same. -/
def SameCapture (s t : ClientRuntime) : Device → Prop
  | .key => t.keyboardCaptures = s.keyboardCaptures ∧ t.keyboardRoute = s.keyboardRoute
  | .button => t.pointerCapture = s.pointerCapture ∧ t.pressedButtons = s.pressedButtons
  | .touch => t.touch.contacts = s.touch.contacts ∧ t.touch.pending = s.touch.pending
  | .gesture => t.gestureCapture = s.gestureCapture
  | .scroll => t.fingerScrollCapture = s.fingerScrollCapture

/-- A step that is none of a device's business. -/
structure Spares (d : Device) (s t : ClientRuntime) : Prop where
  adapters : t.adapters = s.adapters
  capture : SameCapture s t d
  log : ∃ more, t.log = s.log ++ more ∧ ∀ r ∈ more, r.concerns d = false

variable {s t : ClientRuntime} {d : Device} {r : RuntimeRecord}

theorem SameCapture.of_device
    (hkey : d = .key → t.keyboardCaptures = s.keyboardCaptures ∧ t.keyboardRoute = s.keyboardRoute)
    (hbutton : d = .button → t.pointerCapture = s.pointerCapture ∧ t.pressedButtons = s.pressedButtons)
    (htouch : d = .touch → t.touch.contacts = s.touch.contacts ∧ t.touch.pending = s.touch.pending)
    (hgesture : d = .gesture → t.gestureCapture = s.gestureCapture)
    (hscroll : d = .scroll → t.fingerScrollCapture = s.fingerScrollCapture) : SameCapture s t d := by
  cases d with
  | key => exact hkey rfl
  | button => exact hbutton rfl
  | touch => exact htouch rfl
  | gesture => exact hgesture rfl
  | scroll => exact hscroll rfl

theorem SameCapture.refl (s : ClientRuntime) (d : Device) : SameCapture s s d := by
  cases d <;> simp [SameCapture]

theorem SameCapture.trans {u : ClientRuntime} (h : SameCapture s t d) (h' : SameCapture t u d) :
    SameCapture s u d := by
  cases d with
  | key | button | touch => exact ⟨h'.1.trans h.1, h'.2.trans h.2⟩
  | gesture | scroll => exact Eq.trans h' h

theorem Spares.refl (d : Device) (s : ClientRuntime) : Spares d s s :=
  ⟨rfl, .refl s d, [], (List.append_nil _).symm, fun _ hr => absurd hr List.not_mem_nil⟩

theorem Spares.trans {u : ClientRuntime} (h : Spares d s t) (h' : Spares d t u) : Spares d s u := by
  obtain ⟨more, hlog, hmore⟩ := h.log
  obtain ⟨more', hlog', hmore'⟩ := h'.log
  refine ⟨h'.adapters.trans h.adapters, h.capture.trans h'.capture, more ++ more', ?_, fun r hr => ?_⟩
  · rw [hlog', hlog, List.append_assoc]
  · rcases List.mem_append.mp hr with hr | hr
    · exact hmore r hr
    · exact hmore' r hr

/-- A step that hands nothing out. -/
theorem Spares.silent (hadapters : t.adapters = s.adapters)
    (hcapture : SameCapture s t d) (hlog : t.log = s.log) : Spares d s t :=
  ⟨hadapters, hcapture, [], by rw [hlog, List.append_nil], fun _ hr => absurd hr List.not_mem_nil⟩

/-! ### Records that a monitor ignores -/

/-- An event of another kind of device leaves the monitor alone, and so do requests. -/
theorem RuntimeRecord.ignored {σ : Type} {m : Monitor RuntimeRecord σ}
    (h : r.concerns d = false)
    (hinput : ∀ held route target position kind time, InputEventKind.device kind ≠ some d →
      m.next held (.input route ⟨target, position, kind, time⟩) = held ∧
        m.allows held (.input route ⟨target, position, kind, time⟩))
    (hrefocused : d ≠ .key → m.Ignores .refocused)
    (hother : ∀ held, (∀ source request, m.next held (.request source request) = held ∧
        m.allows held (.request source request)) ∧
      ∀ surface time, m.next held (.retired surface time) = held ∧
        m.allows held (.retired surface time)) : m.Ignores r := by
  cases r with
  | input route event =>
      intro held
      exact hinput held route event.target event.hostPosition event.event event.time
        (beq_eq_false_iff_ne.mp h)
  | request source request => exact fun held => (hother held).1 source request
  | retired surface time => exact fun held => (hother held).2 surface time
  | hostFocusLost | forgotten => cases h
  | refocused => exact hrefocused (beq_eq_false_iff_ne.mp h)

theorem keyMonitor_ignores {keycode : LinuxKeycode}
    (h : r.concerns .key = false) : (keyMonitor keycode).Ignores r := by
  refine RuntimeRecord.ignored h (fun held route target position kind time hkind => ?_)
    (fun hne => absurd rfl hne) fun held => ⟨fun _ _ => ⟨rfl, trivial⟩, fun _ _ => ⟨rfl, trivial⟩⟩
  cases kind with
  | keyboard key state => exact absurd rfl hkind
  | _ => exact ⟨rfl, trivial⟩

theorem buttonMonitor_ignores (h : r.concerns .button = false) : buttonMonitor.Ignores r := by
  refine RuntimeRecord.ignored h (fun held route target position kind time hkind => ?_)
    (fun _ _ => ⟨rfl, trivial⟩) fun held => ⟨fun _ _ => ⟨rfl, trivial⟩, fun _ _ => ⟨rfl, trivial⟩⟩
  cases kind with
  | pointerButton position button state => exact absurd rfl hkind
  | _ => cases route <;> exact ⟨rfl, trivial⟩

theorem contactMonitor_ignores {id : TouchId} (h : r.concerns .touch = false) :
    (contactMonitor id).Ignores r := by
  refine RuntimeRecord.ignored h (fun held route target position kind time hkind => ?_)
    (fun _ _ => ⟨rfl, trivial⟩) fun held => ⟨fun _ _ => ⟨rfl, trivial⟩, fun _ _ => ⟨rfl, trivial⟩⟩
  cases kind with
  | touch event => exact absurd rfl hkind
  | _ => cases route <;> exact ⟨rfl, trivial⟩

theorem frameMonitor_ignores {route : ClientPointerRoute}
    (h : r.concerns .touch = false) : (frameMonitor route).Ignores r := by
  refine RuntimeRecord.ignored h (fun held route target position kind time hkind => ?_)
    (fun _ _ => ⟨rfl, trivial⟩) fun held => ⟨fun _ _ => ⟨rfl, trivial⟩, fun _ _ => ⟨rfl, trivial⟩⟩
  cases kind with
  | touch event => exact absurd rfl hkind
  | _ => cases route <;> exact ⟨rfl, trivial⟩

theorem gestureMonitor_ignores (h : r.concerns .gesture = false) : gestureMonitor.Ignores r := by
  refine RuntimeRecord.ignored h (fun held route target position kind time hkind => ?_)
    (fun _ _ => ⟨rfl, trivial⟩) fun held => ⟨fun _ _ => ⟨rfl, trivial⟩, fun _ _ => ⟨rfl, trivial⟩⟩
  cases kind with
  | pointerGesture gesture => exact absurd rfl hkind
  | _ => cases route <;> exact ⟨rfl, trivial⟩

theorem scrollMonitor_ignores (h : r.concerns .scroll = false) : scrollMonitor.Ignores r := by
  refine RuntimeRecord.ignored h (fun held route target position kind time hkind => ?_)
    (fun _ _ => ⟨rfl, trivial⟩) fun held => ⟨fun _ _ => ⟨rfl, trivial⟩, fun _ _ => ⟨rfl, trivial⟩⟩
  cases kind with
  | pointerAxis position axis =>
      -- a scroll that is not made with fingers
      have hsource : axis.source ≠ .finger := fun heq => hkind (if_pos heq)
      refine ⟨?_, fun heq => absurd heq hsource⟩
      cases route with
      | none => rfl
      | some route => exact if_neg hsource
  | _ => cases route <;> exact ⟨rfl, trivial⟩

/-- **A step that is none of a device's business keeps its balance.** -/
theorem Spares.balanced (h : Spares d s t) (hs : Balanced s d) : Balanced t d := by
  obtain ⟨hadapters, hcapture, more, hlog, hmore⟩ := h
  cases d with
  | key =>
      intro keycode
      rw [hlog]
      refine ((hs keycode).ignore fun r hr => keyMonitor_ignores (hmore r hr)).imp fun hagrees => ?_
      unfold KeyAgrees at hagrees ⊢
      rwa [hcapture.1, hcapture.2, hadapters]
  | button =>
      show buttonMonitor.Follows _ _
      rw [hlog]
      refine (Monitor.Follows.ignore hs fun r hr => buttonMonitor_ignores (hmore r hr)).imp fun h => ?_
      unfold ButtonAgrees ClientRuntime.reached at h ⊢
      rwa [hcapture.1, hcapture.2, hadapters]
  | touch =>
      refine ⟨fun id => ?_, fun route => ?_⟩
      · rw [hlog]
        refine ((hs.1 id).ignore fun r hr => contactMonitor_ignores (hmore r hr)).imp fun hagrees => ?_
        exact ⟨by rw [hcapture.1]; exact hagrees.distinct, by rw [hcapture.1]; exact hagrees.held,
          by rw [hcapture.1, hadapters]; exact hagrees.reached⟩
      · rw [hlog]
        refine ((hs.2 route).ignore fun r hr => frameMonitor_ignores (hmore r hr)).imp fun hagrees => ?_
        unfold FrameAgrees at hagrees ⊢
        rwa [hcapture.2, hadapters]
  | gesture =>
      show gestureMonitor.Follows _ _
      rw [hlog]
      refine (Monitor.Follows.ignore hs fun r hr => gestureMonitor_ignores (hmore r hr)).imp fun h => ?_
      unfold GestureAgrees ClientRuntime.reached at h ⊢
      rw [show t.gestureCapture = s.gestureCapture from hcapture, hadapters]
      exact h
  | scroll =>
      show scrollMonitor.Follows _ _
      rw [hlog]
      refine (Monitor.Follows.ignore hs fun r hr => scrollMonitor_ignores (hmore r hr)).imp fun h => ?_
      unfold ScrollAgrees ClientRuntime.reached at h ⊢
      rw [show t.fingerScrollCapture = s.fingerScrollCapture from hcapture, hadapters]
      exact h

end Client
