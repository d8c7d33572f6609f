/-
**The destination of an encoded connection.**

`EncodedDestinationState` of `weld-hoist-encoded` puts two streams together again: control records,
commits among them, and the encoded frames that the commits refer to.  A commit waits in the queue
of its surface until all its frames are decoded, and everything behind it waits with it.  A frame
waits until the control record that refers to it has arrived and its turn to be decoded has come.
The end of a surface discards its queue; a frame that is still to come for a discarded commit leaves
a tombstone behind.

Whether the decoder and the publisher accept what they are given is not up to the destination:
`DecoderAnswers` gives their answers, numbered by the uses made of them so far.  An operation that
fails leaves no state, since the port disconnects.  Tokens are unbounded numbers.  Left out are the
contents of frames, the extents handed to the decoder, the identities of published buffers and the
observations.

Main definitions: `WireClientSurfaceEvent`, `EncodedDestinationState`,
`EncodedDestinationState.poll`.
-/

import Mathlib.Data.Finset.Option
import Weld.Scheduling

namespace Encoded

open Client Gamepad Hoist

/-! ### What arrives -/

structure MediaFrameId where
  stream : ℕ
  generation : ℕ
  sequence : ℕ
  deriving DecidableEq, Repr

/-- A stream and its generation. -/
abbrev EncodedGeneration := ℕ × ℕ

def MediaFrameId.epoch (frame : MediaFrameId) : EncodedGeneration :=
  (frame.stream, frame.generation)

inductive WireSurfaceBufferChange
  | retained (metadata : ClientBufferMetadata)
  | replaced (metadata : ClientBufferMetadata) (frame : MediaFrameId)
  | removed
  deriving DecidableEq, Repr

/-- The frame a change refers to. -/
def WireSurfaceBufferChange.frame? : WireSurfaceBufferChange → Option MediaFrameId
  | .replaced _ frame => some frame
  | _ => none

structure WireSurfaceBufferUpdate where
  layer : SurfaceLayerId
  change : WireSurfaceBufferChange
  deriving DecidableEq, Repr

structure WireClientSurfaceCommit where
  revision : ℕ
  alphaMode : SurfaceAlphaMode := .discarded
  mapped : Bool
  root : Option SurfaceLayerPlacement := none
  windowGeometry : Option SurfaceWindowGeometry := none
  overlays : List SurfaceLayerPlacement := []
  inputs : List SurfaceInputPlacement := []
  buffers : List WireSurfaceBufferUpdate := []
  deriving DecidableEq

inductive WireClientSurfaceEventKind
  | role (role : ClientSurfaceRole)
  | commit (commit : WireClientSurfaceCommit)
  | interaction (kind : ToplevelInteractionRequestKind)
  | stateRequest (kind : ToplevelStateRequestKind)
  | destroyed
  | metadata (metadata : ClientSurfaceMetadata)
  deriving DecidableEq

structure WireClientSurfaceEvent where
  surface : ClientSurfaceId
  kind : WireClientSurfaceEventKind
  deriving DecidableEq

/-- The frames a record refers to. -/
def encodedFrames (event : WireClientSurfaceEvent) : List MediaFrameId :=
  match event.kind with
  | .commit commit => commit.buffers.filterMap fun buffer => buffer.change.frame?
  | _ => []

/-- What control carries besides surfaces is handed on as it is, or refused. -/
inductive EncodedSourceMessage
  | surface (event : WireClientSurfaceEvent)
  | withdraw (surface : ClientSurfaceId)
  | audio (valid : Bool)
  | bufferRetired
  | relayed
  deriving DecidableEq

structure SourceEnvelope where
  session : HoistSessionId
  message : EncodedSourceMessage
  deriving DecidableEq

/-- An encoded frame, with the length of its payload. -/
structure MediaEnvelope where
  session : HoistSessionId
  frame : MediaFrameId
  bytes : ℕ
  deriving DecidableEq, Repr

inductive SourcePacket
  | control (envelope : SourceEnvelope)
  | media (envelope : MediaEnvelope)
  deriving DecidableEq

/-! ### The state -/

def maxDestinationEvents : ℕ := 128
def maxReplacements : ℕ := 16
def maxPendingMediaFrames : ℕ := 128
def maxReferencedFrames : ℕ := 128
def maxPendingMediaBytes : ℕ := 64 * 1024 * 1024
def maxEncodedAccessUnitBytes : ℕ := 32 * 1024 * 1024

inductive DestinationError
  | replacementLimit
  | alphaMode
  | eventBound
  | mediaFrameBound
  | payloadByteBound
  | cancelledFrameBound
  | crossedSessions
  | deliveredTwice
  | metadataDisappeared
  | decodedFrameDisappeared
  | unexpectedToken
  | unexpectedFrames
  | invalidAudio
  | nativeRetirement
  | backend (reason : String)
  deriving DecidableEq, Repr

inductive SubmitAnswer
  | accepted
  | busy
  | failed (reason : String)
  deriving DecidableEq, Repr

/-- The answers of the decoder and of the publisher, by the number of the use. -/
structure DecoderAnswers where
  now : ℕ → Instant := fun _ => 0
  submit : ℕ → SubmitAnswer := fun _ => .accepted
  retire : ℕ → Option String := fun _ => none
  publish : ℕ → Option String := fun _ => none

structure QueuedDestinationEvent where
  session : HoistSessionId
  event : WireClientSurfaceEvent

structure PendingMedia where
  session : HoistSessionId
  bytes : ℕ

structure InFlightDecode where
  frame : MediaFrameId
  cancelled : Bool := false

/-- A decoder answers a token with frames, or fails. -/
structure DecodeCompletion where
  token : ℕ
  result : Except String (List MediaFrameId)

/-- `output` is what the current call publishes, and `uses` counts the uses of the decoder. -/
structure EncodedDestinationState where
  policy : SchedulingPolicy := {}
  activity : Activity := {}
  scheduler : Scheduler := {}
  queues : Dict ClientSurfaceId (List QueuedDestinationEvent) := ∅
  mediaFrames : Dict MediaFrameId PendingMedia := ∅
  decoded : Finset MediaFrameId := ∅
  decodeInFlight : Dict ℕ InFlightDecode := ∅
  readySurfaces : List ClientSurfaceId := []
  cancelledFrames : Dict MediaFrameId HoistSessionId := ∅
  streams : Dict (ClientSurfaceId × SurfaceLayerId) EncodedGeneration := ∅
  pendingRetirement : Finset EncodedGeneration := ∅
  nextToken : ℕ := 1
  uses : ℕ := 0
  output : List (HoistSessionId × WireClientSurfaceEvent) := []

structure ReceiveBudget where
  controlRecords : ℕ
  mediaRecords : ℕ
  mediaBytes : ℕ
  deriving DecidableEq, Repr

namespace EncodedDestinationState

/-! ### Counting -/

variable (s : EncodedDestinationState)

/-- The number of queued records. -/
def events : ℕ := s.queues.total fun _ queue => queue.length

/-- The number of frames the queued records refer to. -/
def replacements : ℕ :=
  s.queues.total fun _ queue => (queue.map fun queued => (encodedFrames queued.event).length).sum

def mediaBytes : ℕ := s.mediaFrames.total fun _ media => media.bytes

/-- What the transport may deliver.  Every control record reserves the references of a whole commit;
tombstones take room from control, never from the media that clears them. -/
def receiveBudget : ReceiveBudget where
  controlRecords :=
    min ((maxReferencedFrames - (s.cancelledFrames.size + s.replacements)) / maxReplacements)
      (maxDestinationEvents - s.events)
  mediaRecords := maxPendingMediaFrames - s.mediaFrames.size
  mediaBytes := maxPendingMediaBytes - s.mediaBytes

/-! ### Retiring generations -/

/-- The records queued for all surfaces. -/
def queuedEvents : List QueuedDestinationEvent :=
  s.queues.entries.flatMap fun entry => entry.2

/-- A generation is needed by an inventory, by a frame that is not decoded yet, or by a job. -/
def needed : List EncodedGeneration :=
  (s.streams.entries.map fun entry => entry.2) ++
    ((s.queuedEvents.flatMap fun queued => encodedFrames queued.event).filter fun frame =>
      decide (frame ∉ s.decoded)).map MediaFrameId.epoch ++
    s.mediaFrames.keys.map MediaFrameId.epoch ++
    s.decodeInFlight.entries.map fun entry => entry.2.frame.epoch

variable (env : DecoderAnswers)

def sweepRetirement (s : EncodedDestinationState) :
    Except DestinationError EncodedDestinationState :=
  let ready := s.pendingRetirement.filter fun generation => generation ∉ s.needed
  match (List.range ready.card).findSome? fun i => env.retire (s.uses + i) with
  | some reason => .error (.backend reason)
  | none =>
      .ok { s with
        pendingRetirement := s.pendingRetirement \ ready, uses := s.uses + ready.card }

/-- The inventory of a commit replaces that of its surface; a layer that is gone or has a new
generation leaves its old one to be retired. -/
def updateStreamGenerations (event : WireClientSurfaceEvent) : EncodedDestinationState :=
  match event.kind with
  | .commit commit =>
      let kept : ClientSurfaceId × SurfaceLayerId → Bool := fun key =>
        decide (key.1 ≠ event.surface) || commit.buffers.any fun buffer =>
          buffer.layer == key.2 && decide (buffer.change ≠ .removed)
      let gone := (s.streams.entries.filter fun entry => !kept entry.1).map fun entry => entry.2
      commit.buffers.foldl (fun s buffer =>
          let key := (event.surface, buffer.layer)
          let previous := s.streams.lookup key
          match buffer.change with
          | .retained _ => s
          | .removed =>
              { s with
                streams := s.streams.erase key
                pendingRetirement := s.pendingRetirement ∪ previous.toFinset }
          | .replaced _ frame =>
              { s with
                streams := s.streams.insert key frame.epoch
                pendingRetirement :=
                  s.pendingRetirement ∪
                    (previous.filter fun old => decide (old ≠ frame.epoch)).toFinset })
        { s with
          streams := s.streams.retain fun key _ => kept key
          pendingRetirement := s.pendingRetirement ∪ gone.toFinset }
  | _ => s

def retireSurfaceGenerations (surface : ClientSurfaceId) : EncodedDestinationState :=
  let gone := (s.streams.entries.filter fun entry => decide (entry.1.1 = surface)).map fun entry =>
    entry.2
  { s with
    streams := s.streams.retain fun key _ => decide (key.1 ≠ surface)
    pendingRetirement := s.pendingRetirement ∪ gone.toFinset }

/-! ### Publishing -/

/-- Hand decoded frames to the publisher. -/
def publishFrames (env : DecoderAnswers) :
    List MediaFrameId → EncodedDestinationState → Except DestinationError EncodedDestinationState
  | [], s => .ok s
  | frame :: frames, s =>
      if frame ∈ s.decoded then
        match env.publish s.uses with
        | some reason => .error (.backend reason)
        | none =>
            publishFrames env frames { s with decoded := s.decoded.erase frame, uses := s.uses + 1 }
      else .error .decodedFrameDisappeared

/-- Publish the front of a queue, unless it refers to a frame that is not decoded.  A record without
frames is always published. -/
def publishFront (s : EncodedDestinationState) (surface : ClientSurfaceId) :
    Except DestinationError (Option EncodedDestinationState) :=
  match s.queues.lookup surface with
  | none | some [] => .ok none
  | some (front :: rest) =>
      if (encodedFrames front.event).all fun frame => decide (frame ∈ s.decoded) then
        (publishFrames env (encodedFrames front.event)
          { s with queues := s.queues.insert surface rest }).map fun s =>
            some { s with output := s.output ++ [(front.session, front.event)] }
      else .ok none

/-- One round over the surfaces, and whether it published anything. -/
def publishPass (env : DecoderAnswers) :
    List ClientSurfaceId → EncodedDestinationState →
      Except DestinationError (EncodedDestinationState × Bool)
  | [], s => .ok (s, false)
  | surface :: surfaces, s =>
      (publishFront env s surface).bind fun published =>
        match published with
        | none => publishPass env surfaces s
        | some s => (publishPass env surfaces s).map fun result => (result.1, true)

/-- Drop the empty queues. -/
def tidied : EncodedDestinationState :=
  let queues := s.queues.retain fun _ queue => !queue.isEmpty
  { s with
    queues
    readySurfaces := s.readySurfaces.filter fun surface => decide (surface ∈ queues) }

/-- Rounds, until one publishes nothing.  Each of the others publishes a record, so there are no
more of them than records. -/
def publishLoop (env : DecoderAnswers) :
    ℕ → EncodedDestinationState → Except DestinationError EncodedDestinationState
  | 0, s => .ok s
  | fuel + 1, s =>
      (publishPass env s.readySurfaces s).bind fun result =>
        if result.2 then publishLoop env fuel result.1.tidied else .ok result.1.tidied

def publishReady (s : EncodedDestinationState) : Except DestinationError EncodedDestinationState :=
  (sweepRetirement env s).bind fun s =>
    (publishLoop env (s.events + 1) s).bind (sweepRetirement env)

/-! ### Decoding -/

/-- The frame is decoded or on its way. -/
def submitted (frame : MediaFrameId) : Bool :=
  decide (frame ∈ s.decoded) || s.decodeInFlight.entries.any fun entry =>
    decide (entry.2.frame = frame)

/-- A change of a buffer that the decoder may look ahead to. -/
def compatibleChange : WireSurfaceBufferChange → WireSurfaceBufferChange → Bool
  | .replaced old oldFrame, .replaced new newFrame =>
      old == new && oldFrame.stream == newFrame.stream &&
        oldFrame.generation == newFrame.generation
  | .replaced old _, .retained new | .retained old, .retained new => old == new
  | _, _ => false

/-- The commits differ in revision and contents alone. -/
def compatibleDecodeLookahead (first next : WireClientSurfaceEvent) : Bool :=
  match first.kind, next.kind with
  | .commit first, .commit next =>
      first.mapped && next.mapped && decide (first.root = next.root) &&
        decide (first.windowGeometry = next.windowGeometry) &&
        decide (first.overlays = next.overlays) && decide (first.inputs = next.inputs) &&
        first.buffers.length == next.buffers.length &&
        (first.buffers.zip next.buffers).all fun pair =>
          pair.1.layer == pair.2.layer && compatibleChange pair.1.change pair.2.change
  | _, _ => false

/-- The frames whose turn it is in a queue: those of the front, or those of its successor once all
frames of the front are submitted. -/
def framesInTurn (front : QueuedDestinationEvent)
    (rest : List QueuedDestinationEvent) : List MediaFrameId :=
  let frames := encodedFrames front.event
  match rest with
  | next :: _ =>
      if !frames.isEmpty && frames.all s.submitted && next.session == front.session &&
          compatibleDecodeLookahead front.event next.event then encodedFrames next.event
      else frames
  | [] => frames

/-- The frame of a surface to decode next, with the session of its record. -/
def decodeCandidate (surface : ClientSurfaceId) : Option (HoistSessionId × MediaFrameId) :=
  match s.queues.lookup surface with
  | none | some [] => none
  | some (front :: rest) =>
      ((s.framesInTurn front rest).find? fun frame =>
        !s.submitted frame && decide (frame ∈ s.mediaFrames)).map fun frame =>
          (front.session, frame)

/-- Offer a frame to the decoder; a busy decoder gives it back. -/
def scheduleDecode (s : EncodedDestinationState) (frame : MediaFrameId)
    (session : HoistSessionId) : Except DestinationError (EncodedDestinationState × Bool) :=
  match s.mediaFrames.lookup frame with
  | none => .ok (s, false)
  | some media =>
      if media.session ≠ session then .error .crossedSessions
      else if s.queuedEvents.all fun queued => decide (frame ∉ encodedFrames queued.event) then
        .error .metadataDisappeared
      else
        let taken :=
          { s with
            mediaFrames := s.mediaFrames.erase frame
            nextToken := s.nextToken + 1
            uses := s.uses + 1 }
        match env.submit s.uses with
        | .accepted =>
            .ok ({ taken with
              decodeInFlight := s.decodeInFlight.insert s.nextToken { frame } }, true)
        | .busy =>
            .ok ({ taken with mediaFrames := taken.mediaFrames.insert frame media }, false)
        | .failed reason => .error (.backend reason)

def candidates : List ClientSurfaceId :=
  s.readySurfaces.filter fun surface => (s.decodeCandidate surface).isSome

/-- Submit frames in turn until no surface has one that the decoder may still accept. -/
def advanceLoop (env : DecoderAnswers) :
    ℕ → List ClientSurfaceId → EncodedDestinationState →
      Except DestinationError EncodedDestinationState
  | 0, _, s => .ok s
  | fuel + 1, busy, s =>
      let now := env.now s.uses
      let (scheduler, selection) := s.scheduler.select s.candidates busy s.activity s.policy now
      let s := { s with scheduler }
      match selection with
      | none => .ok s
      | some selection =>
          match s.decodeCandidate selection.surface with
          | none => .ok s
          | some (session, frame) =>
              (s.scheduleDecode env frame session).bind fun result =>
                if result.2 then
                  advanceLoop env fuel busy
                    { result.1 with
                      scheduler := result.1.scheduler.accepted selection now
                      readySurfaces := result.1.readySurfaces.rotateLeft
                        (result.1.readySurfaces.idxOf selection.surface + 1) }
                else advanceLoop env fuel (busy ++ [selection.surface]) result.1

/-- Every turn submits a frame or finds the decoder busy with another surface. -/
def advance (s : EncodedDestinationState) : Except DestinationError EncodedDestinationState :=
  (s.publishReady env).bind fun s =>
    (advanceLoop env (s.mediaFrames.size + s.readySurfaces.length + 1) [] s).bind
      (sweepRetirement env)

/-! ### Cancelling -/

/-- A frame of a discarded commit.  Only media that has never arrived needs a tombstone. -/
def cancelFrame (session : HoistSessionId) (frame : MediaFrameId) :
    Except DestinationError EncodedDestinationState :=
  let discarded :=
    { s with
      pendingRetirement := insert frame.epoch s.pendingRetirement
      mediaFrames := s.mediaFrames.erase frame
      decoded := s.decoded.erase frame }
  match s.decodeInFlight.entries.find? fun entry => decide (entry.2.frame = frame) with
  | some entry =>
      .ok { discarded with
        decodeInFlight := s.decodeInFlight.modify entry.1 fun job => { job with cancelled := true } }
  | none =>
      if frame ∈ s.mediaFrames ∨ frame ∈ s.decoded then .ok discarded
      else if s.cancelledFrames.size < maxReferencedFrames then
        .ok { discarded with cancelledFrames := s.cancelledFrames.insert frame session }
      else .error .cancelledFrameBound

def cancelFrames (s : EncodedDestinationState) :
    List (HoistSessionId × MediaFrameId) → Except DestinationError EncodedDestinationState
  | [] => .ok s
  | (session, frame) :: frames => (s.cancelFrame session frame).bind fun s => s.cancelFrames frames

/-- The frames of a queue with the sessions of their records. -/
def framesOf (queue : List QueuedDestinationEvent) : List (HoistSessionId × MediaFrameId) :=
  queue.flatMap fun queued => (encodedFrames queued.event).map fun frame => (queued.session, frame)

def cancelSurface (s : EncodedDestinationState) (surface : ClientSurfaceId) :
    Except DestinationError EncodedDestinationState :=
  ({ s with
      readySurfaces := s.readySurfaces.filter fun candidate => candidate != surface
      scheduler := s.scheduler.forget s.activity surface
      activity := s.activity.remove surface
      queues := s.queues.erase surface } : EncodedDestinationState).cancelFrames
    (framesOf ((s.queues.lookup surface).getD [])) |>.bind fun s =>
      (s.retireSurfaceGenerations surface).sweepRetirement env

/-! ### Arrivals -/

/-- What a record says about the activity of its surface. -/
def announced (session : HoistSessionId)
    (event : WireClientSurfaceEvent) : EncodedDestinationState :=
  let registered := s.activity.register session event.surface
  { s with
    activity :=
      match event.kind with
      | .role role => registered.role event.surface role
      | .commit commit => registered.mapped event.surface commit.mapped
      | _ => registered }

def isMetadata (event : WireClientSurfaceEvent) : Bool :=
  match event.kind with
  | .metadata _ => true
  | _ => false

def keepsAlpha (event : WireClientSurfaceEvent) : Bool :=
  match event.kind with
  | .commit commit => decide (commit.alphaMode ≠ .discarded)
  | _ => false

/-- Decoded buffers are opaque. -/
def markEncodedBuffersOpaque (event : WireClientSurfaceEvent) : WireClientSurfaceEvent :=
  match event.kind with
  | .commit commit =>
      { event with
        kind := .commit
          { commit with
            buffers := commit.buffers.map fun buffer =>
              { buffer with
                change :=
                  match buffer.change with
                  | .retained metadata => .retained { metadata with isOpaque := true }
                  | .replaced metadata frame => .replaced { metadata with isOpaque := true } frame
                  | .removed => .removed } } }
  | _ => event

/-- The records of a queue that a new one leaves: newer metadata supersedes older metadata. -/
def remaining (queue : List QueuedDestinationEvent) (session : HoistSessionId)
    (event : WireClientSurfaceEvent) : List QueuedDestinationEvent :=
  if isMetadata event then
    queue.filter fun queued => decide (queued.session ≠ session) || !isMetadata queued.event
  else queue

def enqueue (s : EncodedDestinationState) (session : HoistSessionId)
    (event : WireClientSurfaceEvent) : Except DestinationError EncodedDestinationState :=
  let s := s.announced session event
  if maxReplacements < (encodedFrames event).length then .error .replacementLimit
  else if keepsAlpha event then .error .alphaMode
  else if event.kind = .destroyed then
    (s.cancelSurface env event.surface).map fun s =>
      { s with output := s.output ++ [(session, event)] }
  else
    let s := s.updateStreamGenerations (markEncodedBuffersOpaque event)
    let queue := (s.queues.lookup event.surface).getD []
    let kept := remaining queue session event
    if s.events - (queue.length - kept.length) < maxDestinationEvents then
      publishReady env
        { s with
          readySurfaces :=
            if queue.isEmpty then s.readySurfaces ++ [event.surface] else s.readySurfaces
          queues := s.queues.insert event.surface
            (kept ++ [⟨session, markEncodedBuffersOpaque event⟩]) }
    else .error .eventBound

def enqueueMedia (packet : MediaEnvelope) : Except DestinationError EncodedDestinationState :=
  match s.cancelledFrames.lookup packet.frame with
  | some session =>
      if session = packet.session then
        .ok { s with cancelledFrames := s.cancelledFrames.erase packet.frame }
      else .error .crossedSessions
  | none =>
      if maxPendingMediaFrames ≤ s.mediaFrames.size then .error .mediaFrameBound
      else if s.receiveBudget.mediaBytes < packet.bytes then .error .payloadByteBound
      else if packet.frame ∈ s.mediaFrames then .error .deliveredTwice
      else
        .ok { s with
          mediaFrames := s.mediaFrames.insert packet.frame ⟨packet.session, packet.bytes⟩ }

/-! ### Completions -/

def drainOne (completion : DecodeCompletion) : Except DestinationError EncodedDestinationState :=
  match s.decodeInFlight.lookup completion.token with
  | none => .error .unexpectedToken
  | some job =>
      let s := { s with decodeInFlight := s.decodeInFlight.erase completion.token }
      if job.cancelled then
        .ok { s with pendingRetirement := insert job.frame.epoch s.pendingRetirement }
      else
        match completion.result with
        | .error reason => .error (.backend reason)
        | .ok frames =>
            if frames = [job.frame] then .ok { s with decoded := insert job.frame s.decoded }
            else .error .unexpectedFrames

def drainAll (s : EncodedDestinationState) :
    List DecodeCompletion → Except DestinationError EncodedDestinationState
  | [] => .ok s
  | completion :: completions => (s.drainOne completion).bind fun s => s.drainAll completions

def drain (s : EncodedDestinationState)
    (completions : List DecodeCompletion) : Except DestinationError EncodedDestinationState :=
  (s.drainAll completions).bind (advance env)

/-! ### The port -/

def applySourcePacket (s : EncodedDestinationState) :
    SourcePacket → Except DestinationError EncodedDestinationState
  | .media packet => s.enqueueMedia packet
  | .control envelope =>
      match envelope.message with
      | .surface event => s.enqueue env envelope.session event
      | .withdraw surface => s.cancelSurface env surface
      | .audio valid => if valid then .ok s else .error .invalidAudio
      | .bufferRetired => .error .nativeRetirement
      | .relayed => .ok s

def applySourcePackets (env : DecoderAnswers) (s : EncodedDestinationState) :
    List SourcePacket → Except DestinationError EncodedDestinationState
  | [] => .ok s
  | packet :: packets =>
      (s.applySourcePacket env packet).bind fun s => s.applySourcePackets env packets

/-- Apply the packets the transport delivers, then collect what was decoded and advance. -/
def poll (s : EncodedDestinationState) (packets : List SourcePacket)
    (completions : List DecodeCompletion) : Except DestinationError EncodedDestinationState :=
  (({ s with output := [] } : EncodedDestinationState).applySourcePackets env packets).bind
    fun s => s.drain env completions

end EncodedDestinationState

end Encoded
