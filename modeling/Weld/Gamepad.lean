/-
**The gamepad endpoints of a hoisted connection.**

`weld-hoist-core/src/gamepad.rs` lends one gamepad per connection: the receiving desktop runs a
`GamepadController`, the desktop that owns the applications a `GamepadSource` over a native device
provider.  A capture is named by a generation, a number the controller never issues twice.

The native provider is the only outside party.  Its answers — whether a device could be opened,
whether a write reached it — are arguments of the handlers, and everything it is asked to do is
recorded in the log `GamepadSource.devices`, oldest entry first.  Times are nanoseconds.

Main definitions: `GamepadSource.accept`, `GamepadSource.expire`, `GamepadSource.stop`, `Pending`,
`begin`, `sample`, `stop`, `pop`, `observe`, `disconnect`, `held`.
-/

import Mathlib.Algebra.GroupWithZero.Nat
import Mathlib.Data.List.Basic
import Mathlib.Data.Option.Basic

namespace Gamepad

/-! ### The protocol records -/

/-- A point in time, in nanoseconds. -/
abbrev Instant := ℕ

/-- How long a capture survives without a state. -/
def watchdog : ℕ := 750000000

/-- How long an unchanged sample need not be sent again. -/
def renewal : ℕ := 100000000

/-- The length of the controller's queue. -/
def capacity : ℕ := 64

/-- Generations are 64-bit. -/
def generationLimit : ℕ := 2 ^ 64

inductive HatDirection
  | negative | center | positive
  deriving DecidableEq, Repr

structure GamepadButtons where
  south : Bool := false
  east : Bool := false
  west : Bool := false
  north : Bool := false
  leftShoulder : Bool := false
  rightShoulder : Bool := false
  select : Bool := false
  start : Bool := false
  guide : Bool := false
  leftStick : Bool := false
  rightStick : Bool := false
  deriving DecidableEq, Repr

/-- A complete state; the default is the neutral one. -/
structure GamepadState where
  buttons : GamepadButtons := {}
  left : Int16 × Int16 := (0, 0)
  right : Int16 × Int16 := (0, 0)
  triggers : UInt16 × UInt16 := (0, 0)
  dpad : HatDirection × HatDirection := (.center, .center)
  deriving DecidableEq, Repr

inductive GamepadCaptureState
  | active | stopped | denied | timedOut | deviceFailed
  deriving DecidableEq, Repr

inductive GamepadRequest
  | beginCapture (generation : ℕ)
  | state (generation : ℕ) (state : GamepadState)
  | endCapture (generation : ℕ)
  deriving DecidableEq, Repr

inductive GamepadStatus
  | available
  | capture (generation : ℕ) (state : GamepadCaptureState)
  deriving DecidableEq, Repr

def GamepadRequest.generation : GamepadRequest → ℕ
  | .beginCapture g => g
  | .state g _ => g
  | .endCapture g => g

/-- Only adjacent analog updates may replace each other: buttons, hats and trigger thresholds are
barriers, and so are `Begin` and `End`. -/
def GamepadRequest.supersedes (self previous : GamepadRequest) : Bool :=
  match previous, self with
  | .state old a, .state generation b =>
      old == generation && a.buttons == b.buttons && a.dpad == b.dpad &&
        (decide (32768 ≤ a.triggers.1) == decide (32768 ≤ b.triggers.1) &&
          decide (32768 ≤ a.triggers.2) == decide (32768 ≤ b.triggers.2))
  | _, _ => false

/-- Only a state supersedes, and only a state of the same generation. -/
theorem GamepadRequest.supersedes_iff_state {r old : GamepadRequest}
    (h : r.supersedes old = true) :
    ∃ g a b, old = .state g a ∧ r = .state g b := by
  cases old <;> cases r <;> simp [supersedes] at h
  case state.state g a g' b =>
    obtain ⟨⟨⟨rfl, -⟩, -⟩, -⟩ := h
    exact ⟨_, a, b, rfl, rfl⟩

/-! ### What the native provider is asked to do -/

/-- One call on the provider or on the device it opened for a generation. -/
inductive DeviceEvent
  /-- The provider opened a device for this generation. -/
  | opened (device : ℕ)
  /-- The device was given the state of a request of the named generation. -/
  | applied (device request : ℕ) (state : GamepadState)
  /-- The device was given the neutral state. -/
  | neutralized (device : ℕ)
  /-- The device was destroyed. -/
  | dropped (device : ℕ)
  deriving DecidableEq, Repr

/-- The devices left open after one more call. -/
def hold (devices : List ℕ) : DeviceEvent → List ℕ
  | .opened g => g :: devices
  | .applied _ _ _ => devices
  | .neutralized _ => devices
  | .dropped g => devices.erase g

/-- **The devices a log leaves open.** -/
def held (log : List DeviceEvent) : List ℕ := log.foldl hold []

@[simp] theorem held_nil : held [] = [] := rfl

@[simp] theorem held_concat (log : List DeviceEvent) (e : DeviceEvent) :
    held (log ++ [e]) = hold (held log) e := by simp [held]

/-- The generations a log opened devices for, in order. -/
def openings (log : List DeviceEvent) : List ℕ :=
  log.filterMap fun | .opened g => some g | _ => none

@[simp] theorem openings_nil : openings [] = [] := rfl

@[simp] theorem openings_append (log log' : List DeviceEvent) :
    openings (log ++ log') = openings log ++ openings log' := List.filterMap_append ..

/-! ### The source -/

structure Capture where
  generation : ℕ
  deadline : Instant
  deriving DecidableEq, Repr

/-- The source side.  `provider` says whether host assembly injected a native provider. -/
structure GamepadSource where
  provider : Bool := false
  capture : Option Capture := none
  floor : ℕ := 0
  advertised : Bool := false
  devices : List DeviceEvent := []

namespace GamepadSource

def advertise (s : GamepadSource) : GamepadSource × Option GamepadStatus :=
  if s.provider && !s.advertised then ({ s with advertised := true }, some .available)
  else (s, none)

/-- Retire the capture: the device is given the neutral state and destroyed, whether or not the
write succeeds. -/
def stop (s : GamepadSource) (state : GamepadCaptureState) : GamepadSource × Option GamepadStatus :=
  match s.capture with
  | none => (s, none)
  | some c =>
      ({ s with
          capture := none
          devices := s.devices ++ [.neutralized c.generation] ++ [.dropped c.generation] },
        some (.capture c.generation state))

def expire (s : GamepadSource) (now : Instant) : GamepadSource × Option GamepadStatus :=
  if s.capture.any (fun c => decide (c.deadline ≤ now)) then s.stop .timedOut else (s, none)

/-- One request.  `openOk` and `writeOk` are the provider's and the device's answers. -/
def accept (s : GamepadSource) (request : GamepadRequest) (now : Instant)
    (openOk writeOk : Bool) : GamepadSource × Option GamepadStatus :=
  match request with
  | .beginCapture generation =>
      if generation ≤ s.floor then (s, none)
      else
        let s := (({ s with floor := generation } : GamepadSource).stop .stopped).1
        if s.provider then
          if openOk then
            ({ s with
                capture := some ⟨generation, now + watchdog⟩
                devices := s.devices ++ [.opened generation] },
              some (.capture generation .active))
          else (s, some (.capture generation .deviceFailed))
        else (s, some (.capture generation .denied))
  | .state generation state =>
      match s.capture.filter (fun c => c.generation == generation) with
      | none => (s, none)
      | some c =>
          let s := { s with devices := s.devices ++ [DeviceEvent.applied c.generation generation state] }
          if writeOk then ({ s with capture := some { c with deadline := now + watchdog } }, none)
          else s.stop .deviceFailed
  | .endCapture generation =>
      -- an `End` may overtake a cancelled `Begin`, so its generation is retired in any case
      let s := { s with floor := max s.floor generation }
      if s.capture.any (fun c => decide (c.generation ≤ generation)) then s.stop .stopped
      else (s, none)

end GamepadSource

/-! ### The controller -/

inductive GamepadMode
  | unavailable
  | ready
  | pending (generation : ℕ)
  | active (generation : ℕ)
  | rejected (state : GamepadCaptureState)
  | disconnected
  deriving DecidableEq, Repr

/-- The generation a mode is waiting for or working with. -/
def GamepadMode.current : GamepadMode → Option ℕ
  | .pending g => some g
  | .active g => some g
  | _ => none

/-- The state behind the controller's mutex.  `endRequest` is the pending `End`, which overtakes
the queue. -/
structure Pending where
  mode : GamepadMode := .unavailable
  generation : ℕ := 0
  queue : List GamepadRequest := []
  endRequest : Option ℕ := none
  lastSample : Option (GamepadState × Instant) := none

namespace Pending

def stop (p : Pending) : Pending :=
  match p.mode.current with
  | some g => { p with endRequest := some g, mode := .ready, queue := [], lastSample := none }
  | none => { p with queue := [], lastSample := none }

/-- Enter a new generation.  Only a ready or rejected controller may. -/
def begin (p : Pending) : Pending × Option ℕ :=
  match p.mode with
  | .ready | .rejected _ =>
      let generation := p.generation + 1
      if generation < generationLimit then
        ({ p with
            generation := generation
            mode := .pending generation
            queue := p.queue ++ [.beginCapture generation] },
          some generation)
      else (p, none)
  | _ => (p, none)

/-- One live controller sample. -/
def sample (p : Pending) (generation : ℕ) (state : GamepadState) (now : Instant) : Pending × Bool :=
  if p.mode ≠ .active generation then (p, false)
  else if p.lastSample.any (fun (old, sent) => old == state && decide (now - sent < renewal)) then
    (p, true)
  else
    let request := GamepadRequest.state generation state
    if p.queue.getLast?.any (fun last => request.supersedes last) then
      ({ p with
          queue := p.queue.dropLast ++ [request]
          lastSample := some (state, now) }, true)
    else if capacity ≤ p.queue.length then (p.stop, false)
    else ({ p with queue := p.queue ++ [request], lastSample := some (state, now) }, true)

/-- The next request for the wire. -/
def pop (p : Pending) : Pending × Option GamepadRequest :=
  match p.endRequest with
  | some generation => ({ p with endRequest := none }, some (.endCapture generation))
  | none =>
      match p.queue with
      | [] => (p, none)
      | r :: queue => ({ p with queue := queue }, some r)

def observe (p : Pending) (status : GamepadStatus) : Pending :=
  match status with
  | .available => if p.mode = .unavailable then { p with mode := .ready } else p
  | .capture generation state =>
      if p.mode.current = some generation then
        if state = .active then { p with mode := .active generation }
        else { p.stop with mode := .rejected state }
      else p

def disconnect (p : Pending) : Pending :=
  { p.stop with endRequest := none, mode := .disconnected }

end Pending

end Gamepad
