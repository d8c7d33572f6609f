/-
**What the two ends of a hoisted connection say to each other.**

A source relay hands `SourcePortCommand`s to its port; a binding carries them to the destination
relay as `DestinationPortRecord`s.  The destination relay answers with `DestinationEnvelope`s, each
addressed to one session.  The ports themselves, their queues and codecs, are outside this
development.

Main definitions: `SourcePortCommand`, `DestinationPortRecord`, `DestinationEnvelope`,
`SourcePortCommand.record`, `relocatedSurface`.
-/

import Weld.ClientInput
import Weld.Gamepad

namespace Hoist

open Client Gamepad

abbrev HoistSessionId := ℕ

/-- The session of gamepad control, which is no surface session. -/
def gamepadSession : HoistSessionId := 0

/-- Numbers on the wire are 64-bit. -/
def wireLimit : ℕ := 2 ^ 64

/-- The next number, unless the space is exhausted. -/
def checkedSucc (n : ℕ) : Option ℕ := if n + 1 < wireLimit then some (n + 1) else none

theorem checkedSucc_eq_some {n m : ℕ} : checkedSucc n = some m ↔ n + 1 < wireLimit ∧ m = n + 1 := by
  unfold checkedSucc
  split_ifs with h
  · simp [h, eq_comm]
  · simp [h]

/-! ### From the destination to the source -/

inductive DestinationMessage
  | request (request : ClientRequest)
  | input (input : WireClientInputEvent)
  | bufferReleased (useId : ClientBufferUseId)
  | reclaim
  | cursorReceived (surface : ClientSurfaceId) (sequence : ℕ)
  | gamepad (request : GamepadRequest)
  deriving DecidableEq

structure DestinationEnvelope where
  session : HoistSessionId
  message : DestinationMessage
  deriving DecidableEq

def requestSurface : ClientRequest → Option ClientSurfaceId
  | .surface request => some request.surface
  | .focus request => request.surface
  | .clearFocus => none

def destinationMessageSurface : DestinationMessage → Option ClientSurfaceId
  | .request request => requestSurface request
  | .input input => some input.target.surface
  | _ => none

/-! ### From the source to the destination -/

inductive SourcePortCommand
  | gamepad (status : GamepadStatus)
  | focusCleared
  | mapSurface (session : HoistSessionId) (surface : ClientSurfaceId)
  | surface (session : HoistSessionId) (event : ClientSurfaceEvent)
  | cursor (session : HoistSessionId) (update : ClientCursorUpdate) (sequence : ℕ)
  | withdrawSurface (session : HoistSessionId) (surface : ClientSurfaceId)
  | retireUpstreamBuffer (buffer : ClientBufferId)
  deriving DecidableEq

inductive DestinationPortEvent
  | gamepad (status : GamepadStatus)
  | mappedSurface (surface : ClientSurfaceId)
  | surface (event : ClientSurfaceEvent)
  | withdrawSurface (surface : ClientSurfaceId)
  | ended
  | cursor (update : ClientCursorUpdate) (sequence : ℕ)
  deriving DecidableEq

structure DestinationPortRecord where
  session : HoistSessionId
  event : DestinationPortEvent
  deriving DecidableEq

/-- The record a command arrives as.  A focus observation and a retired buffer stay with the
port. -/
def SourcePortCommand.record : SourcePortCommand → Option DestinationPortRecord
  | .gamepad info => some ⟨gamepadSession, .gamepad info⟩
  | .mapSurface session source => some ⟨session, .mappedSurface source⟩
  | .surface session event => some ⟨session, .surface event⟩
  | .cursor session update sequence => some ⟨session, .cursor update sequence⟩
  | .withdrawSurface session source => some ⟨session, .withdrawSurface source⟩
  | .focusCleared | .retireUpstreamBuffer _ => none

/-! ### Relocation -/

def relocatedSurface (destination : ClientSourceId) (source : ClientSurfaceId) : ClientSurfaceId :=
  ⟨⟨destination, source.client.localId⟩, source.localId⟩

/-- Surfaces of one adapter keep apart when relocated. -/
theorem relocatedSurface_injOn {destination : ClientSourceId} {a b : ClientSurfaceId}
    (hsource : a.source = b.source)
    (h : relocatedSurface destination a = relocatedSurface destination b) : a = b := by
  obtain ⟨⟨as, ac⟩, al⟩ := a
  simp only [relocatedSurface, ClientSurfaceId.mk.injEq, ClientId.mk.injEq, true_and] at h
  simp only [ClientSurfaceId.source] at hsource
  rw [hsource, h.1, h.2]

end Hoist
