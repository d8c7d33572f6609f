/-
**A source and a destination relay, connected.**

Every command the source's port takes that is meant for the peer is a record on its way to the
destination; every message the destination's port takes is an envelope on its way back.  Both ports
keep the order and lose nothing, so what is in flight is what was taken and not yet handed over.

What the destination knows is a function of the records it was handed.  `Mirror` is that function:
which surface is mapped under which session, and the last cursor of its mapping.

Main definitions: `Mirror`, `Mirror.Accepts`, `RelayPair`, `PairEvent`, `RelayPair.step`,
`PairEvent.Conforms`.
-/

import Weld.SourceRelay
import Weld.DestinationRelay
import Weld.History

namespace Hoist

open Client Gamepad

/-! ### What records tell -/

/-- What the destination knows of the source's surfaces. -/
structure Mirror where
  sessions : ClientSurfaceId → Option HoistSessionId := fun _ => none
  cursors : ClientSurfaceId → Option ClientCursor := fun _ => none

namespace Mirror

def forget (m : Mirror) (x : ClientSurfaceId) : Mirror :=
  ⟨Function.update m.sessions x none, Function.update m.cursors x none⟩

def step (m : Mirror) (record : DestinationPortRecord) : Mirror :=
  match record.event with
  | .mappedSurface x =>
      ⟨Function.update m.sessions x (some record.session), Function.update m.cursors x none⟩
  | .surface ⟨x, .destroyed⟩ => m.forget x
  | .withdrawSurface x => m.forget x
  | .cursor update _ =>
      if m.sessions update.surface = none then m
      else { m with cursors := Function.update m.cursors update.surface (some update.cursor) }
  | _ => m

/-- The destination takes the record for what it is. -/
def Accepts (upstream : ClientSourceId) (m : Mirror) (record : DestinationPortRecord) : Prop :=
  match record.event with
  | .gamepad _ => record.session = gamepadSession
  | .mappedSurface x => x.source = upstream ∧ m.sessions x = none
  | .surface event =>
      event.surface.source = upstream ∧ m.sessions event.surface = some record.session ∧
        event.kind ≠ .role .layer
  | .withdrawSurface _ => True
  | .cursor update _ =>
      update.surface.source = upstream ∧
        ∀ session, m.sessions update.surface = some session → session = record.session
  | .ended => False

def replay (records : List DestinationPortRecord) : Mirror := records.foldl step {}

@[simp] theorem replay_nil : replay [] = {} := rfl

@[simp] theorem replay_append_singleton (records : List DestinationPortRecord)
    (record : DestinationPortRecord) :
    replay (records ++ [record]) = (replay records).step record := by
  rw [replay, List.foldl_append]
  rfl

/-- The destination takes every record for what it is. -/
def WellFormed (upstream : ClientSourceId) (records : List DestinationPortRecord) : Prop :=
  History.Each (fun earlier record => (replay earlier).Accepts upstream record) records

end Mirror

/-! ### Cursors in flight -/

/-- The cursor update a record carries. -/
def DestinationPortRecord.cursorUpdate (record : DestinationPortRecord) : Option CursorInFlight :=
  match record.event with
  | .cursor update sequence => some ⟨record.session, update.surface, sequence⟩
  | _ => none

/-- The cursor updates of a stream, in order. -/
def cursorUpdates (records : List DestinationPortRecord) : List CursorInFlight :=
  records.filterMap (·.cursorUpdate)

@[simp] theorem cursorUpdates_nil : cursorUpdates [] = [] := rfl

theorem cursorUpdates_append (records more : List DestinationPortRecord) :
    cursorUpdates (records ++ more) = cursorUpdates records ++ cursorUpdates more :=
  List.filterMap_append

/-- The cursor update a message acknowledges. -/
def DestinationEnvelope.acknowledged (envelope : DestinationEnvelope) : Option CursorInFlight :=
  match envelope.message with
  | .cursorReceived surface sequence => some ⟨envelope.session, surface, sequence⟩
  | _ => none

def acknowledgements (envelopes : List DestinationEnvelope) : List CursorInFlight :=
  envelopes.filterMap (·.acknowledged)

theorem acknowledgements_append (envelopes more : List DestinationEnvelope) :
    acknowledgements (envelopes ++ more) = acknowledgements envelopes ++ acknowledgements more :=
  List.filterMap_append

/-! ### The pair -/

/-- The records for the peer the source's port has taken. -/
def SourceRelayAdapter.stream (s : SourceRelayAdapter) : List DestinationPortRecord :=
  s.submitted.filterMap (·.record)

def DestinationPortCommand.envelope : DestinationPortCommand → Option DestinationEnvelope
  | .message envelope => some envelope
  | _ => none

/-- The messages for the peer the destination's port has taken. -/
def DestinationRelayAdapter.messages (s : DestinationRelayAdapter) : List DestinationEnvelope :=
  s.submitted.filterMap (·.envelope)

/-- Two relays; `received` records and `consumed` messages have arrived. -/
structure RelayPair where
  source : SourceRelayAdapter
  destination : DestinationRelayAdapter
  received : ℕ := 0
  consumed : ℕ := 0

/-- A host calls the source, or the source services its port, which hands over some messages; a host
calls the destination, or the destination is handed the next record. -/
inductive PairEvent
  | source (env : SourceEnvironment) (call : SourceCall)
  | poll (env : SourceEnvironment) (count : ℕ)
  | destination (event : DestinationEvent)
  | deliver

namespace RelayPair

/-- A pair as it is constructed, with or without an access session, a gamepad provider and a gamepad
controller. -/
def new (upstreamSource descriptor : ClientSourceId) (admission : SourceAdmission)
    (provider access : Bool) (gamepad : Option Pending) : RelayPair where
  source := { (HostedRelay.new upstreamSource admission provider).relay with access := access }
  destination := .new upstreamSource descriptor gamepad

/-- The records in flight. -/
def records (p : RelayPair) : List DestinationPortRecord := p.source.stream.drop p.received

/-- The messages in flight. -/
def messages (p : RelayPair) : List DestinationEnvelope := p.destination.messages.drop p.consumed

/-- The cursor updates whose acknowledgement has not arrived. -/
def unacknowledged (p : RelayPair) : List CursorInFlight :=
  acknowledgements p.messages ++ cursorUpdates p.records

def service (p : RelayPair) (env : SourceEnvironment) (count : ℕ) : RelayPair :=
  { p with
    source := p.source.step env (.poll (.ok (p.messages.take count)))
    consumed := p.consumed + (p.messages.take count).length }

def deliver (env : DestinationEnvironment) (p : RelayPair) : RelayPair :=
  match p.records with
  | [] => p
  | record :: _ =>
      { p with
        destination := p.destination.step env (.record record)
        received := p.received + 1 }

def step (env : DestinationEnvironment) (p : RelayPair) : PairEvent → RelayPair
  | .source senv call => { p with source := p.source.step senv call }
  | .poll senv count => p.service senv count
  | .destination event => { p with destination := p.destination.step env event }
  | .deliver => p.deliver env

end RelayPair

/-! ### Ports that refuse nothing -/

structure SourceEnvironment.ErrorFree (env : SourceEnvironment) : Prop where
  submit : ∀ i, env.submit i = .ok ()
  accept : ∀ i, env.accept i = .ok ()
  progress : ∀ i, env.progress i = .ok ()
  setPresentation : ∀ i x claim, ∃ accepted, env.setPresentation i x claim = .ok accepted

def DestinationEnvironment.ErrorFree (env : DestinationEnvironment) : Prop :=
  ∀ i, env.submit i = .ok ()

/-- Access is installed at construction, records come from the source, and no port refuses
anything. -/
def PairEvent.Conforms : PairEvent → Prop
  | .source env call => env.ErrorFree ∧ call ≠ .installAccess ∧ ∀ polled, call ≠ .poll polled
  | .poll env _ => env.ErrorFree
  | .destination event => event ≠ .pollFailed ∧ ∀ record, event ≠ .record record
  | .deliver => True

end Hoist
