/-
**What a relay has to release.**

A relay forwards input from a peer that can vanish at any moment.  `RemoteInputState` remembers
what the peer holds down, so that the releases can be generated when a surface or the peer goes:
held keys and buttons, open gestures, the open finger scroll and, in a `TouchLedger`, touch
contacts.  `Seat` is the other end: what an application seat is left holding by the inputs it was
given.

Main definitions: `TouchLedger`, `RemoteInputState`, `Seat`, `Seat.observe`,
`RemoteInputState.held`.
-/

import Weld.ClientInput
import Weld.Dict

namespace Hoist

open Client

/-! ### Touch -/

/-- `contacts` are the fingers that are down, `pending` the targets with an unfinished frame. -/
structure TouchLedger where
  contacts : Dict TouchId ClientInputTarget := ∅
  pending : List ClientInputTarget := []

namespace TouchLedger

def accepts (l : TouchLedger) (target : ClientInputTarget) (event : TouchEvent) : Bool :=
  if !target.isTouch || !event.isValid then false
  else
    match event with
    | .down id _ =>
        decide (id ∉ l.contacts) && decide (l.contacts.size < maxTouchContacts) &&
          (decide (target ∈ l.pending) || decide (l.pending.length < maxTouchContacts))
    | .motion id _ | .up id => l.contacts.lookup id == some target
    | .frame => decide (target ∈ l.pending)
    | .cancel =>
        decide (target ∈ l.pending) || l.contacts.entries.any fun contact => contact.2 == target

/-- The contacts after an accepted event. -/
def touchContacts (contacts : Dict TouchId ClientInputTarget) (target : ClientInputTarget)
    (event : TouchEvent) : Dict TouchId ClientInputTarget :=
  match event with
  | .down id _ => contacts.insert id target
  | .up id => contacts.erase id
  | .cancel => contacts.retain fun _ current => current != target
  | .motion _ _ | .frame => contacts

/-- The targets with an unfinished frame after an accepted event. -/
def touchPending (pending : List ClientInputTarget) (target : ClientInputTarget)
    (event : TouchEvent) : List ClientInputTarget :=
  match event with
  | .frame | .cancel => pending.filter (· != target)
  | .down _ _ | .motion _ _ | .up _ => if target ∈ pending then pending else pending ++ [target]

def observe (l : TouchLedger) (target : ClientInputTarget) (event : TouchEvent) :
    TouchLedger × Bool :=
  if l.accepts target event then
    (⟨touchContacts l.contacts target event, touchPending l.pending target event⟩, true)
  else (l, false)

/-- The targets of a list that match, each once, in order of first appearance. -/
def distinctTargets (matching : ClientSurfaceId → Bool) (targets : List ClientInputTarget) :
    List ClientInputTarget :=
  targets.foldl (fun found target =>
      if matching target.surface && decide (target ∉ found) then found ++ [target] else found) []

/-- Forget everything on the matching surfaces; the answer names the targets to cancel. -/
def retire (l : TouchLedger) (order : IterationOrder TouchId) (call : ℕ)
    (matching : ClientSurfaceId → Bool) : TouchLedger × List ClientInputTarget :=
  let values := (order.arrange call l.contacts.keys).filterMap fun id => l.contacts.lookup id
  let targets := distinctTargets matching (values ++ l.pending)
  (⟨l.contacts.retain fun _ target => decide (target ∉ targets),
    l.pending.filter fun target => decide (target ∉ targets)⟩, targets)

end TouchLedger

/-! ### The ledger -/

structure RemoteKeyCapture where
  target : ClientInputTarget
  repeatAllowed : Bool
  deriving DecidableEq

structure RemoteFingerScroll where
  target : ClientInputTarget
  horizontalActive : Bool
  verticalActive : Bool
  deriving DecidableEq

structure RemoteInputState where
  touch : TouchLedger := {}
  keys : Dict LinuxKeycode RemoteKeyCapture := ∅
  buttons : Dict LinuxButtonCode (ClientInputTarget × Option InputPosition) := ∅
  gestures : List (PointerGestureKind × ClientInputTarget) := []
  fingerScroll : Option RemoteFingerScroll := none
  keyboardFocus : Option ClientSurfaceId := none
  lastTime : ℕ := 0

/-- The order in which the three tables of the ledger are iterated. -/
structure InputOrders where
  contacts : IterationOrder TouchId := .stored TouchId
  buttons : IterationOrder LinuxButtonCode := .stored LinuxButtonCode
  keys : IterationOrder LinuxKeycode := .stored LinuxKeycode

namespace RemoteInputState

variable (r : RemoteInputState) (target : ClientInputTarget)

/-- Whether an input may be forwarded at all.  Eligibility does not touch the ledger: a press that
is not delivered must not be released later. -/
def acceptsInput (event : InputEventKind) : Bool :=
  match event with
  | .touch event => r.touch.accepts target event
  | .keyboard keycode .repeated =>
      (r.keys.lookup keycode).any fun capture => capture.repeatAllowed && capture.target == target
  | _ => true

/-- A focus change ends the repeats of the keys held so far. -/
def observeRequest (request : ClientRequest) : RemoteInputState :=
  match request with
  | .focus focus =>
      { r with
        keys :=
          if r.keyboardFocus ≠ focus.surface then
            r.keys.mapValues fun _ capture => { capture with repeatAllowed := false }
          else r.keys
        keyboardFocus := focus.surface }
  | _ => r

def observeAxis (axis : RawScrollFrame) : RemoteInputState :=
  if axis.source ≠ .finger then r
  else
    match axis.phase with
    | .started =>
        { r with fingerScroll := some ⟨target, axis.horizontal.nonzero, axis.vertical.nonzero⟩ }
    | .moved =>
        { r with
          fingerScroll := r.fingerScroll.map fun scroll =>
            { scroll with
              horizontalActive :=
                (scroll.horizontalActive || axis.horizontal.nonzero) && !axis.horizontalStop
              verticalActive :=
                (scroll.verticalActive || axis.vertical.nonzero) && !axis.verticalStop } }
    | .ended | .cancelled => { r with fingerScroll := none }

def observeGesture (gesture : PointerGesture) : RemoteInputState :=
  if gesture.isBegin then { r with gestures := r.gestures ++ [(gesture.kind, target)] }
  else if gesture.isEnd then
    { r with gestures := r.gestures.filter fun capture => capture.1 != gesture.kind }
  else r

def observeButton
    (position : Option InputPosition) (button : LinuxButtonCode) (state : ButtonState) :
    RemoteInputState :=
  match state with
  | .pressed => { r with buttons := r.buttons.insert button (target, position) }
  | .released => { r with buttons := r.buttons.erase button }

def observeKey (keycode : LinuxKeycode) (state : KeyboardKeyState) : RemoteInputState :=
  match state with
  | .pressed => { r with keys := r.keys.insert keycode ⟨target, true⟩ }
  | .released => { r with keys := r.keys.erase keycode }
  | .repeated => r

/-- Record one input; the answer says whether it is forwarded. -/
def observeInput (input : ClientInputEvent) : RemoteInputState × Bool :=
  match input.event with
  | .touch event =>
      let (touch, forwarded) := r.touch.observe input.target event
      ({ r with lastTime := input.time, touch := touch }, forwarded)
  | .keyboard _ .repeated =>
      if r.acceptsInput input.target input.event then ({ r with lastTime := input.time }, true)
      else (r, false)
  | .keyboard keycode state =>
      (({ r with lastTime := input.time } : RemoteInputState).observeKey input.target keycode state,
        true)
  | .pointerButton position button state =>
      (({ r with lastTime := input.time } : RemoteInputState).observeButton input.target position
        button state, true)
  | .pointerAxis _ axis =>
      (({ r with lastTime := input.time } : RemoteInputState).observeAxis input.target axis, true)
  | .pointerGesture gesture =>
      (({ r with lastTime := input.time } : RemoteInputState).observeGesture input.target gesture,
        true)
  | .pointerMotion position _ =>
      ({ r with
          lastTime := input.time
          buttons := r.buttons.mapValues fun _ capture =>
            if capture.1 = input.target then (capture.1, some position) else capture }, true)
  | .pointerLeft _ | .text _ => ({ r with lastTime := input.time }, true)

/-! ### Releasing -/

variable (shouldRelease : ClientSurfaceId → Bool)

/-- The release of a held button, if its target is on a matching surface. -/
def buttonRelease (button : LinuxButtonCode) : Option ClientInputEvent :=
  match r.buttons.lookup button with
  | some (target, position) =>
      if shouldRelease target.surface then
        some ⟨target, none, .pointerButton position button .released, r.lastTime⟩
      else none
  | none => none

/-- The release of a held key, if its target is on a matching surface. -/
def keyRelease (keycode : LinuxKeycode) : Option ClientInputEvent :=
  match r.keys.lookup keycode with
  | some capture =>
      if shouldRelease capture.target.surface then
        some ⟨capture.target, none, .keyboard keycode .released, r.lastTime⟩
      else none
  | none => none

/-- The cancellation of the open finger scroll, if its target is on a matching surface. -/
def scrollRelease : List ClientInputEvent :=
  match r.fingerScroll with
  | some scroll =>
      if shouldRelease scroll.target.surface then
        [⟨scroll.target, none, .pointerAxis none
          (.cancelledFinger scroll.horizontalActive scroll.verticalActive), r.lastTime⟩]
      else []
  | none => []

/-- The inputs that release what is held on the matching surfaces. -/
def releases (orders : InputOrders) (call : ℕ)
    (shouldRelease : ClientSurfaceId → Bool) : List ClientInputEvent :=
  ((r.touch.retire orders.contacts call shouldRelease).2.map fun target =>
      ⟨target, none, .touch .cancel, r.lastTime⟩) ++
    (orders.buttons.arrange call r.buttons.keys).filterMap (r.buttonRelease shouldRelease) ++
    (orders.keys.arrange call r.keys.keys).filterMap (r.keyRelease shouldRelease) ++
    ((r.gestures.filter fun capture => shouldRelease capture.2.surface).map fun capture =>
      ⟨capture.2, none, .pointerGesture capture.1.cancelled, r.lastTime⟩) ++
    r.scrollRelease shouldRelease

/-- The ledger without what is held on the matching surfaces. -/
def forget (orders : InputOrders) (call : ℕ)
    (shouldRelease : ClientSurfaceId → Bool) : RemoteInputState :=
  { r with
    touch := (r.touch.retire orders.contacts call shouldRelease).1
    buttons := r.buttons.retain fun _ capture => !shouldRelease capture.1.surface
    keys := r.keys.retain fun _ capture => !shouldRelease capture.target.surface
    gestures := r.gestures.filter fun capture => !shouldRelease capture.2.surface
    fingerScroll := r.fingerScroll.filter fun scroll => !shouldRelease scroll.target.surface
    keyboardFocus := r.keyboardFocus.filter fun surface => !shouldRelease surface }

/-- Release what is held on the matching surfaces: the ledger afterwards and the effects, the
releases first and then the focus clear. -/
def releaseEffects (orders : InputOrders) (call : ℕ)
    (source : ClientSourceId) (shouldRelease : ClientSurfaceId → Bool) :
    RemoteInputState × List ClientAdapterEffect :=
  (r.forget orders call shouldRelease, (r.releases orders call shouldRelease).map .input ++
      if r.keyboardFocus.any shouldRelease then [.request (.focus ⟨source, none⟩)] else [])

end RemoteInputState

/-! ### The seat -/

/-- What a seat holds: every held key, button and gesture with the target of its latest press, the
open finger scroll, the touch contacts and the targets whose frame is unfinished. -/
@[ext] structure Seat where
  keys : LinuxKeycode → Option ClientInputTarget
  buttons : LinuxButtonCode → Option ClientInputTarget
  gestures : PointerGestureKind → Option ClientInputTarget
  scroll : Option ClientInputTarget
  contacts : TouchId → Option ClientInputTarget
  unframed : ClientInputTarget → Bool

namespace Seat

/-- A seat that holds nothing. -/
def empty : Seat := ⟨fun _ => none, fun _ => none, fun _ => none, none, fun _ => none, fun _ => false⟩

def observeTouch (s : Seat) (target : ClientInputTarget) : TouchEvent → Seat
  | .down id _ =>
      { s with
        contacts := Function.update s.contacts id (some target)
        unframed := Function.update s.unframed target true }
  | .motion _ _ => { s with unframed := Function.update s.unframed target true }
  | .up id =>
      { s with
        contacts := Function.update s.contacts id none
        unframed := Function.update s.unframed target true }
  | .frame => { s with unframed := Function.update s.unframed target false }
  | .cancel =>
      { s with
        contacts := fun id => (s.contacts id).filter (· != target)
        unframed := Function.update s.unframed target false }

/-- What a seat holds after one more input. -/
def observe (s : Seat) (input : ClientInputEvent) : Seat :=
  match input.event with
  | .keyboard keycode .pressed =>
      { s with keys := Function.update s.keys keycode (some input.target) }
  | .keyboard keycode .released => { s with keys := Function.update s.keys keycode none }
  | .pointerButton _ button .pressed =>
      { s with buttons := Function.update s.buttons button (some input.target) }
  | .pointerButton _ button .released =>
      { s with buttons := Function.update s.buttons button none }
  | .pointerGesture gesture =>
      if gesture.isBegin then
        { s with gestures := Function.update s.gestures gesture.kind (some input.target) }
      else if gesture.isEnd then
        { s with gestures := Function.update s.gestures gesture.kind none }
      else s
  | .pointerAxis _ axis =>
      if axis.source ≠ .finger then s
      else
        match axis.phase with
        | .started => { s with scroll := some input.target }
        | .moved => s
        | .ended | .cancelled => { s with scroll := none }
  | .touch event => s.observeTouch input.target event
  | _ => s

/-- What a seat holds after a list of effects, of which it sees the inputs. -/
def replay (s : Seat) (effects : List ClientAdapterEffect) : Seat :=
  effects.foldl (fun s effect => match effect with | .input input => s.observe input | _ => s) s

/-- Something is held with this target as its latest. -/
def HasTarget (s : Seat) (target : ClientInputTarget) : Prop :=
  (∃ keycode, s.keys keycode = some target) ∨
  (∃ button, s.buttons button = some target) ∨
  (∃ kind, s.gestures kind = some target) ∨
  s.scroll = some target ∨
  (∃ id, s.contacts id = some target) ∨
  s.unframed target = true

/-- Something is held whose latest target is on this surface. -/
def Holds (s : Seat) (surface : ClientSurfaceId) : Prop :=
  ∃ target, s.HasTarget target ∧ target.surface = surface

end Seat

/-- The latest capture of a gesture of this kind. -/
def latestGesture (gestures : List (PointerGestureKind × ClientInputTarget))
    (kind : PointerGestureKind) : Option ClientInputTarget :=
  (gestures.findRev? fun capture => capture.1 == kind).map (·.2)

/-- What the ledger says is held. -/
def RemoteInputState.held (r : RemoteInputState) : Seat where
  keys keycode := (r.keys.lookup keycode).map (·.target)
  buttons button := (r.buttons.lookup button).map (·.1)
  gestures := latestGesture r.gestures
  scroll := r.fingerScroll.map (·.target)
  contacts := r.touch.contacts.lookup
  unframed target := decide (target ∈ r.touch.pending)

end Hoist
