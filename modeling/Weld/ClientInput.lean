/-
**Adapter-addressed input.**

The input half of `weld-client`: an event is addressed to a target, a surface together with the
kind of device that reaches it.  Times are milliseconds of the host's input clock.

Main definitions: `ClientInputTarget`, `InputEventKind`, `ClientInputEvent`, `PointerGesture`,
`RawScrollFrame`, `TouchEvent`.
-/

import Weld.ClientSurface

namespace Client

/-! ### Keys and buttons -/

abbrev LinuxKeycode := ℕ
abbrev LinuxButtonCode := ℕ

inductive ButtonState
  | pressed | released
  deriving DecidableEq, Repr

inductive KeyboardKeyState
  | pressed | released | repeated
  deriving DecidableEq, Repr

structure InputPosition where
  x : FloatValue := .finite 0
  y : FloatValue := .finite 0
  deriving DecidableEq

structure InputDelta where
  x : FloatValue := .finite 0
  y : FloatValue := .finite 0
  deriving DecidableEq

structure RelativeMotion where
  delta : InputDelta
  unaccelerated : InputDelta
  timeMicros : ℕ
  deriving DecidableEq

/-! ### Scrolling -/

inductive RawScrollSource
  | wheel | finger | continuous
  deriving DecidableEq, Repr

inductive RawScrollPhase
  | started | moved | ended | cancelled
  deriving DecidableEq, Repr

structure RawScrollFrame where
  source : RawScrollSource
  phase : RawScrollPhase
  horizontal : FloatValue := .finite 0
  vertical : FloatValue := .finite 0
  horizontalV120 : Option ℤ := none
  verticalV120 : Option ℤ := none
  horizontalStop : Bool := false
  verticalStop : Bool := false
  deriving DecidableEq

def RawScrollFrame.cancelledFinger (horizontalStop verticalStop : Bool) : RawScrollFrame where
  source := .finger
  phase := .cancelled
  horizontalStop := horizontalStop
  verticalStop := verticalStop

/-! ### Gestures -/

inductive PointerGestureKind
  | swipe | pinch | hold
  deriving DecidableEq, Repr

inductive TouchpadSwipe
  | start (fingers : ℕ)
  | update (delta : InputDelta)
  | finish (cancelled : Bool)
  deriving DecidableEq

inductive TouchpadPinch
  | start (fingers : ℕ)
  | update (delta : InputDelta) (scale rotation : FloatValue)
  | finish (cancelled : Bool)
  deriving DecidableEq

inductive TouchpadHold
  | start (fingers : ℕ)
  | finish (cancelled : Bool)
  deriving DecidableEq

inductive PointerGesture
  | swipe (gesture : TouchpadSwipe)
  | pinch (gesture : TouchpadPinch)
  | hold (gesture : TouchpadHold)
  deriving DecidableEq

def PointerGesture.kind : PointerGesture → PointerGestureKind
  | swipe _ => .swipe
  | pinch _ => .pinch
  | hold _ => .hold

def PointerGesture.isBegin : PointerGesture → Bool
  | swipe (.start _) | pinch (.start _) | hold (.start _) => true
  | _ => false

def PointerGesture.isEnd : PointerGesture → Bool
  | swipe (.finish _) | pinch (.finish _) | hold (.finish _) => true
  | _ => false

/-- The event that cancels an open gesture. -/
def PointerGestureKind.cancelled : PointerGestureKind → PointerGesture
  | swipe => .swipe (.finish true)
  | pinch => .pinch (.finish true)
  | hold => .hold (.finish true)

@[simp] theorem PointerGestureKind.kind_cancelled (k : PointerGestureKind) :
    k.cancelled.kind = k := by
  cases k <;> rfl

@[simp] theorem PointerGestureKind.isEnd_cancelled (k : PointerGestureKind) :
    k.cancelled.isEnd = true := by
  cases k <;> rfl

@[simp] theorem PointerGestureKind.isBegin_cancelled (k : PointerGestureKind) :
    k.cancelled.isBegin = false := by
  cases k <;> rfl

/-! ### Touch -/

abbrev TouchId := ℕ

/-- Maximum simultaneous contacts accepted from one controller. -/
def maxTouchContacts : ℕ := 32

inductive TouchEvent
  | down (id : TouchId) (position : InputPosition)
  | motion (id : TouchId) (position : InputPosition)
  | up (id : TouchId)
  | frame
  | cancel
  deriving DecidableEq

def TouchEvent.isValid : TouchEvent → Bool
  | down _ position | motion _ position => position.x.isFinite && position.y.isFinite
  | _ => true

/-! ### Events -/

inductive ClientInputTarget
  | pointer (surface : ClientSurfaceId) (layer : SurfaceLayerId)
  | keyboard (surface : ClientSurfaceId)
  | touch (surface : ClientSurfaceId) (layer : SurfaceLayerId)
  deriving DecidableEq, Repr

def ClientInputTarget.surface : ClientInputTarget → ClientSurfaceId
  | pointer surface _ | keyboard surface | touch surface _ => surface

def ClientInputTarget.isTouch : ClientInputTarget → Bool
  | touch _ _ => true
  | _ => false

inductive InputEventKind
  | pointerMotion (position : InputPosition) (relative : Option RelativeMotion)
  | pointerLeft (position : InputPosition)
  | pointerButton (position : Option InputPosition) (button : LinuxButtonCode) (state : ButtonState)
  | pointerAxis (position : Option InputPosition) (axis : RawScrollFrame)
  | pointerGesture (gesture : PointerGesture)
  | keyboard (keycode : LinuxKeycode) (state : KeyboardKeyState)
  | touch (event : TouchEvent)
  | text (text : String)
  deriving DecidableEq

structure ClientInputEvent where
  target : ClientInputTarget
  hostPosition : Option InputPosition := none
  event : InputEventKind
  time : ℕ
  deriving DecidableEq

/-- The form an input event has on the wire, which carries no host position. -/
structure WireClientInputEvent where
  target : ClientInputTarget
  event : InputEventKind
  time : ℕ
  deriving DecidableEq

def ClientInputEvent.toWire (input : ClientInputEvent) : WireClientInputEvent :=
  ⟨input.target, input.event, input.time⟩

def WireClientInputEvent.intoClientEvent (input : WireClientInputEvent) : ClientInputEvent :=
  ⟨input.target, none, input.event, input.time⟩

/-! ### Effects of an adapter -/

inductive ClientAdapterEffect
  | request (request : ClientRequest)
  | input (input : ClientInputEvent)
  | inputDisconnected (source : ClientSourceId)
  | inputConnected (source : ClientSourceId)
  deriving DecidableEq

end Client
