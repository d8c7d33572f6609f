/-
**The source of an encoded connection.**

`EncodedSourceState` of `weld-hoist-encoded` turns the commits of surfaces into encoded frames, one
batch at a time.  What cannot be encoded yet waits, surface by surface, in the order `pendingOrder`:
a commit of a surface that is being resized, or whose cadence does not allow a frame yet, and
everything behind it.  An unmap that keeps buffers, and what waits in front of it, ignores the
cadence.

Left out are the streams, tokens and timestamps of the frames, the rates asked of the encoder, and
the observations.  Whether the encoder and the budget accept what they are given is not up to the
source: `SourceBackend` says which of their uses in a call fails.  An operation that fails leaves no
state, since the port that runs it disconnects.

Main definitions: `EncodedSourceState`, `EncodedSourceState.turn`, `EncodedSourceState.nextBatch`.
-/

import Mathlib.Data.Finset.Basic
import Weld.PendingEvents
import Weld.Scheduling
import Weld.SourcePacing

namespace Encoded

open Client Gamepad Hoist

/-! ### The state -/

def maxPendingSourceEvents : ℕ := 128

def maxReplacementsPerCommit : ℕ := 16

inductive SourceError
  | tooManyReplacements (replaced : ℕ)
  | pendingEventBound
  | bufferInStructuralPath
  | noInFlight
  | unexpectedCompletion
  | backend (reason : String)
  deriving DecidableEq, Repr

/-- Why the uses of the encoder and of the budget in a call fail, if they do. -/
structure SourceBackend where
  refuses : ℕ → Option String := fun _ => none

/-- A batch is one commit: the frame being encoded, the number of frames still to submit and the
number of those encoded. -/
structure InFlightEncodeBatch where
  session : HoistSessionId
  surface : ClientSurfaceId
  event : ClientSurfaceEvent
  pending : ℕ
  completed : ℕ := 0
  cancelled : Bool := false

inductive SourceTransportPacket
  | media (session : HoistSessionId) (surface : ClientSurfaceId)
  | control (session : HoistSessionId) (event : ClientSurfaceEvent)

/-- How the encoder answers: with the frame it was asked for, with a failure or another frame, or
for a token it was not asked about. -/
inductive EncodeCompletion
  | encoded
  | failed (reason : String)
  | unexpected

structure EncodedSourceState where
  pacing : SourcePacing
  policy : SchedulingPolicy := {}
  activity : Activity := {}
  scheduler : Scheduler := {}
  output : List SourceTransportPacket := []
  admissionDeferred : Bool := false
  transportBlocked : Bool := false
  pending : Dict ClientSurfaceId (PendingClientEvents HoistSessionId) := ∅
  pendingOrder : List ClientSurfaceId := []
  resizing : Finset ClientSurfaceId := ∅
  inFlight : Option InFlightEncodeBatch := none

/-- The number of buffers a record replaces. -/
def replacedBufferCount (event : ClientSurfaceEvent) : ℕ :=
  match event.kind with
  | .commit commit => (commit.buffers.filter fun buffer => buffer.change.isReplaced).length
  | _ => 0

/-- A commit, mapped or unmapped as asked. -/
def isCommitWith (mapped : Bool) (event : ClientSurfaceEvent) : Bool :=
  match event.kind with
  | .commit commit => commit.mapped == mapped
  | _ => false

/-- The cadence applies to mapped commits with new contents. -/
def needsPacing (event : ClientSurfaceEvent) : Bool :=
  isCommitWith true event && decide (0 < replacedBufferCount event)

namespace EncodedSourceState

/-- A use of the encoder or of the budget. -/
def use (env : SourceBackend) (n : ℕ) : Except SourceError Unit :=
  match env.refuses n with
  | some reason => .error (.backend reason)
  | none => .ok ()

variable (s : EncodedSourceState)

/-- No record is taken from the queues. -/
def closed : Bool :=
  s.admissionDeferred || s.inFlight.isSome || s.transportBlocked || !s.output.isEmpty

/-- The number of records in the queues. -/
def pendingCount : ℕ :=
  (s.pending.entries.map fun entry => entry.2.events.length).sum

/-- The record a surface waits with. -/
def front (surface : ClientSurfaceId) : Option ClientSurfaceEvent :=
  ((s.pending.lookup surface).bind (·.front)).map (·.2)

/-! ### Sending and submitting -/

def sendWithoutBuffer (session : HoistSessionId)
    (event : ClientSurfaceEvent) : Except SourceError EncodedSourceState :=
  if 0 < replacedBufferCount event then .error .bufferInStructuralPath
  else .ok { s with output := s.output ++ [.control session event] }

def submitBatch (env : SourceBackend) (n : ℕ) (session : HoistSessionId)
    (event : ClientSurfaceEvent) : Except SourceError EncodedSourceState :=
  (use env n).map fun _ =>
    { s with
      inFlight := some
        { session, surface := event.surface, event, pending := replacedBufferCount event - 1 } }

def submitOrSendAt (env : SourceBackend) (n : ℕ)
    (session : HoistSessionId) (event : ClientSurfaceEvent) (now : Instant) :
    Except SourceError EncodedSourceState :=
  if maxReplacementsPerCommit < replacedBufferCount event then
    .error (.tooManyReplacements (replacedBufferCount event))
  else
    -- preparing the streams
    (use env n).bind fun _ =>
      if replacedBufferCount event = 0 then s.sendWithoutBuffer session event
      else
        (s.submitBatch env (n + 1) session event).map fun s =>
          { s with pacing := s.pacing.admitted event.surface now }

/-! ### Queueing -/

def queueEvent (session : HoistSessionId) (event : ClientSurfaceEvent) :
    Except SourceError EncodedSourceState :=
  let queue := (s.pending.lookup event.surface).getD {}
  let limit := queue.events.length + (maxPendingSourceEvents - s.pendingCount)
  match queue.tryPush session event limit with
  | (_, .error _) => .error .pendingEventBound
  | (queue, .ok _) =>
      .ok { s with
        pending := s.pending.insert event.surface queue
        pendingOrder :=
          if event.surface ∈ s.pending then s.pendingOrder
          else s.pendingOrder ++ [event.surface] }

/-- The queues without those of a surface; a batch of it is encoded to the end for nothing. -/
def discarded (surface : ClientSurfaceId) : EncodedSourceState :=
  { s with
    pending := s.pending.erase surface
    pendingOrder := s.pendingOrder.filter fun candidate => candidate != surface
    resizing := s.resizing.erase surface
    inFlight := s.inFlight.map fun batch =>
      if batch.surface = surface then { batch with cancelled := true, pending := 0, completed := 0 }
      else batch }

/-- Retiring the streams of the surface may fail. -/
def cancelEncode (env : SourceBackend) (n : ℕ)
    (surface : ClientSurfaceId) : Except SourceError EncodedSourceState :=
  (use env n).map fun _ => s.discarded surface

def cancelSurface (env : SourceBackend) (n : ℕ)
    (surface : ClientSurfaceId) : Except SourceError EncodedSourceState :=
  ({ s with
      scheduler := s.scheduler.forget s.activity surface
      activity := s.activity.remove surface
      pacing := s.pacing.forget surface } : EncodedSourceState).cancelEncode env n surface

def setResizing (surface : ClientSurfaceId) (resizing : Bool) : EncodedSourceState :=
  { s with
    resizing := if resizing then insert surface s.resizing else s.resizing.erase surface }

/-! ### New records -/

/-- What a record says about the activity of its surface. -/
def announced (session : HoistSessionId) (event : ClientSurfaceEvent) : EncodedSourceState :=
  let registered := s.activity.register session event.surface
  { s with
    activity :=
      match event.kind with
      | .role role => registered.role event.surface role
      | .commit commit => registered.mapped event.surface commit.mapped
      | _ => registered }

/-- The role of a surface is of interest to the budget. -/
def isRole (event : ClientSurfaceEvent) : Bool :=
  match event.kind with
  | .role _ => true
  | _ => false

/-- An unmap without buffers supersedes all pixels not published yet. -/
def isFullUnmap (event : ClientSurfaceEvent) : Bool :=
  match event.kind with
  | .commit commit => !commit.mapped && commit.buffers.isEmpty
  | _ => false

/-- Send what is left of a queue: everything but the commits. -/
def sendControls (s : EncodedSourceState) :
    List (PendingEvent HoistSessionId) → Except SourceError EncodedSourceState
  | [] => .ok s
  | record :: records =>
      if PendingClientEvents.isCommit record.event then s.sendControls records
      else (s.sendWithoutBuffer record.scope record.event).bind fun s => s.sendControls records

def fullUnmap (env : SourceBackend) (n : ℕ) (session : HoistSessionId)
    (event : ClientSurfaceEvent) : Except SourceError EncodedSourceState :=
  let records := ((s.pending.lookup event.surface).getD {}).events
  (s.cancelEncode env n event.surface).bind fun s =>
    (({ s with pacing := s.pacing.reset event.surface } : EncodedSourceState).sendControls
      records).bind fun s => s.sendWithoutBuffer session event

/-- A commit that arrives now has to wait. -/
def mustWait (event : ClientSurfaceEvent) (now : Instant) : Bool :=
  decide (event.surface ∈ s.resizing) || !s.pending.keys.isEmpty || s.closed ||
    (needsPacing event && !s.pacing.ready event.surface now)

def busy (surface : ClientSurfaceId) : Bool :=
  decide (surface ∈ s.pending) || s.inFlight.any fun batch => decide (batch.surface = surface)

/-- A record arrives.  The clock is read when the cadence is asked and again when a commit is
submitted. -/
def enqueue (env : SourceBackend) (session : HoistSessionId)
    (event : ClientSurfaceEvent) (now later : Instant) : Except SourceError EncodedSourceState :=
  let s := s.announced session event
  (if isRole event then use env 0 else .ok ()).bind fun _ =>
    if isFullUnmap event then s.fullUnmap env 1 session event
    else
      match event.kind with
      | .commit _ =>
          if s.mustWait event now then s.queueEvent session event
          else s.submitOrSendAt env 1 session event later
      | .destroyed =>
          (s.cancelSurface env 1 event.surface).bind fun s => s.sendWithoutBuffer session event
      | _ =>
          if s.busy event.surface then s.queueEvent session event
          else s.sendWithoutBuffer session event

/-! ### Completions -/

/-- What a finished batch publishes: its frames, then its commit. -/
def InFlightEncodeBatch.packets (batch : InFlightEncodeBatch) : List SourceTransportPacket :=
  List.replicate batch.completed (.media batch.session batch.surface) ++
    [.control batch.session batch.event]

def drainOne (env : SourceBackend) (n : ℕ)
    (completion : EncodeCompletion) : Except SourceError EncodedSourceState :=
  match s.inFlight, completion with
  | none, _ => .error .noInFlight
  | some _, .unexpected => .error .unexpectedCompletion
  | some batch, completion =>
      if batch.cancelled then (use env n).map fun _ => { s with inFlight := none }
      else
        match completion with
        | .failed reason => .error (.backend reason)
        | _ =>
            let batch := { batch with completed := batch.completed + 1 }
            match batch.pending with
            | pending + 1 =>
                (use env n).map fun _ => { s with inFlight := some { batch with pending } }
            | 0 => .ok { s with
                inFlight := none, output := s.output ++ InFlightEncodeBatch.packets batch }

def drain (s : EncodedSourceState) (env : SourceBackend) (n : ℕ) :
    List EncodeCompletion → Except SourceError EncodedSourceState
  | [] => .ok s
  | completion :: completions =>
      (s.drainOne env n completion).bind fun s => s.drain env (n + 1) completions

/-! ### Scheduling -/

/-- An unmap that keeps buffers waits in the queue of the surface: its ordered segment is drained
without cadence delay. -/
def hasUnmapBarrier (surface : ClientSurfaceId) : Bool :=
  (s.pending.lookup surface).any fun queue =>
    queue.records.any fun record => isCommitWith false record.2

def candidates : List ClientSurfaceId :=
  s.pendingOrder.filter fun surface =>
    (s.front surface).any fun event =>
      decide (surface ∉ s.resizing) || !PendingClientEvents.isCommit event

/-- The front of the surface has to wait for its cadence. -/
def waits (now : Instant) (surface : ClientSurfaceId) : Bool :=
  (s.front surface).any fun event =>
    needsPacing event && !s.pacing.ready surface now && !s.hasUnmapBarrier surface

def selected (now : Instant) : Scheduler × Option Selection :=
  s.scheduler.select s.candidates (s.candidates.filter (s.waits now)) s.activity s.policy now

/-- Take the front of a queue; a surface with more goes to the end of the order. -/
def popped (surface : ClientSurfaceId)
    (rest : List (PendingEvent HoistSessionId)) : EncodedSourceState :=
  let order := s.pendingOrder.filter fun candidate => candidate != surface
  if rest.isEmpty then { s with pending := s.pending.erase surface, pendingOrder := order }
  else { s with pending := s.pending.insert surface ⟨rest⟩, pendingOrder := order ++ [surface] }

/-- The record whose turn it is, and the state without it.  A selected surface is a candidate, so it
has a front. -/
def turn (now : Instant) : Option (Selection × PendingEvent HoistSessionId × EncodedSourceState) :=
  match (s.selected now).2 with
  | none => none
  | some selection =>
      match s.pending.lookup selection.surface with
      | none | some ⟨[]⟩ => none
      | some ⟨record :: rest⟩ =>
          some (selection, record,
            ({ s with scheduler := (s.selected now).1 } : EncodedSourceState).popped
              selection.surface rest)

/-- Take records in turn until one starts a batch. -/
def scheduleLoop (env : SourceBackend) (now : Instant) :
    ℕ → ℕ → EncodedSourceState → Except SourceError EncodedSourceState
  | 0, _, s => .ok { s with scheduler := (s.selected now).1 }
  | fuel + 1, n, s =>
      match s.turn now with
      | none => .ok { s with scheduler := (s.selected now).1 }
      | some (selection, record, s) =>
          (s.submitOrSendAt env n record.scope record.event now).bind fun s =>
            if s.inFlight.isSome then
              .ok { s with scheduler := s.scheduler.accepted selection now }
            else scheduleLoop env now fuel (n + 2) s

/-- Every turn takes a record, so there are no more turns than records. -/
def scheduleAt (env : SourceBackend) (now : Instant) : Except SourceError EncodedSourceState :=
  if s.closed then .ok s else scheduleLoop env now s.pendingCount 0 s

/-- The deadline a surface waits for. -/
def surfaceDeadline (surface : ClientSurfaceId) : Option Instant :=
  (s.front surface).bind fun event =>
    if !needsPacing event || decide (surface ∈ s.resizing) || s.pacing.paused surface then none
    else s.pacing.deadline surface

def nextDeadline : Option Instant :=
  if s.closed then none else (s.pending.keys.filterMap s.surfaceDeadline).min?

/-! ### What a call of the scheduler will start -/

/-- The surface of the first record that starts a batch, when records are taken in turn. -/
def nextBatchAfter (now : Instant) : ℕ → EncodedSourceState → Option ClientSurfaceId
  | 0, _ => none
  | fuel + 1, s =>
      match s.turn now with
      | none => none
      | some (_, record, s) =>
          if replacedBufferCount record.event = 0 then
            nextBatchAfter now fuel
              { s with output := s.output ++ [.control record.scope record.event] }
          else some record.event.surface

def nextBatch (now : Instant) : Option ClientSurfaceId :=
  if s.closed then none else nextBatchAfter now s.pendingCount s

end EncodedSourceState

end Encoded
