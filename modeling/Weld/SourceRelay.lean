/-
**The source relay.**

`SourceRelayAdapter` of `weld-hoist-core/src/relay.rs` hoists the surfaces of one local adapter
over a port it does not trust to stay alive.  It caches what it observes, maps surfaces under
sessions, forwards their events, and admits what the peer asks for or types.

Whatever the relay asks of its surroundings — is the access session still authorized, is the port
ready, did the port take this command, in which order does this hash table come out — is answered
by a `SourceEnvironment`, by the number of the question: `calls` counts the questions a handler has
asked.  So every answer may differ from the one before, and the authorization can be lost between
any two of them.

Main definitions: `SourceEnvironment`, `SourceRelayAdapter`, `SourceCall`,
`SourceRelayAdapter.step`, `HostedRelay`.
-/

import Weld.HoistMessages
import Weld.RemoteInput
import Weld.Cascade

namespace Hoist

open Client Gamepad

/-! ### The surroundings -/

theorem ok_ne_release (_ : ℕ) (_ : ClientSurfaceId) (claim accepted : ClientPresentationClaim)
    (hclaim : claim ≠ .release)
    (h : (.ok claim : Except String ClientPresentationClaim) = .ok accepted) :
    accepted ≠ .release := by
  cases h
  exact hclaim

/-- What the surroundings answer to the questions of one handler.  A port that lowers a
presentation claim still claims. -/
structure SourceEnvironment where
  authorized : ℕ → Bool := fun _ => true
  ready : ℕ → Bool := fun _ => true
  submit : ℕ → Except String Unit := fun _ => .ok ()
  accept : ℕ → Except String Unit := fun _ => .ok ()
  progress : ℕ → Except String Unit := fun _ => .ok ()
  setPresentation : ℕ → ClientSurfaceId → ClientPresentationClaim →
    Except String ClientPresentationClaim := fun _ _ claim => .ok claim
  surfaces : IterationOrder ClientSurfaceId := .stored ClientSurfaceId
  inputs : InputOrders := {}
  now : ℕ → Instant := fun _ => 0
  openDevice : ℕ → Bool := fun _ => true
  writeDevice : ℕ → Bool := fun _ => true
  claims : ∀ i surface claim accepted, claim ≠ .release →
    setPresentation i surface claim = .ok accepted → accepted ≠ .release := by exact ok_ne_release

/-! ### The state -/

structure CachedSurface where
  role : Option ClientSurfaceRole := none
  metadata : Option ClientSurfaceMetadata := none
  sentMetadata : Option ClientSurfaceMetadata := none
  commit : Option ClientSurfaceCommit := none
  cursor : Option ClientCursor := none
  sentCursor : Option ClientCursor := none
  deriving DecidableEq

structure CursorInFlight where
  session : HoistSessionId
  surface : ClientSurfaceId
  sequence : ℕ
  deriving DecidableEq

inductive SourceAdmission
  | manual | allToplevels
  deriving DecidableEq, Repr

/-- One source-side relay.  `access` says whether an access session was installed; whether it is
still authorized is asked of the surroundings, and not any more once the relay has failed.
`submitted` and `presented` are what the port has taken: its commands in order, and each
presentation preference with the claim it accepted. -/
structure SourceRelayAdapter where
  access : Bool := false
  gamepad : GamepadSource := {}
  upstreamSource : ClientSourceId
  cache : Dict ClientSurfaceId CachedSurface := ∅
  mappings : Dict ClientSurfaceId HoistSessionId := ∅
  effects : List ClientAdapterEffect := []
  failed : Bool := false
  warning : Option String := none
  remoteInput : RemoteInputState := {}
  connected : Bool := true
  submitted : List SourcePortCommand := []
  presented : List (ClientSurfaceId × ClientPresentationClaim × ClientPresentationClaim) := []
  pendingCursors : List ClientSurfaceId := []
  pendingMaps : Dict ClientSurfaceId HoistSessionId := ∅
  cursorInFlight : Option CursorInFlight := none
  nextCursorSequence : Option ℕ := some 1
  admission : SourceAdmission := .manual
  nextSession : Option ℕ := some 1
  admissionStarted : Bool := false
  inputStarted : Bool := false
  presentations : Dict ClientSurfaceId ClientPresentationClaim := ∅
  presentationUpdates : List ClientPresentationUpdate := []
  calls : ℕ := 0

namespace SourceRelayAdapter

variable (env : SourceEnvironment) (s : SourceRelayAdapter)

/-- One more question was asked. -/
def tick : SourceRelayAdapter := { s with calls := s.calls + 1 }

variable (surface : ClientSurfaceId)

def roleOf : Option ClientSurfaceRole :=
  (s.cache.lookup surface).bind (·.role)

/-- The owner a cached popup names. -/
def popupOwnerOf : Option ClientSurfaceId :=
  (s.roleOf surface).bind (·.popupOwner)

/-- The request that returns a surface to its own scale. -/
def scaleReset : ClientAdapterEffect :=
  .request (.surface ⟨surface, .setPreferredScale none⟩)

/-! ### Failing, and asking the port -/

def fail (reason : String) : SourceRelayAdapter :=
  if s.failed then s
  else
    let released := s.remoteInput.releaseEffects env.inputs s.calls s.upstreamSource fun _ => true
    { s with
      failed := true
      warning := some reason
      gamepad := (s.gamepad.stop .stopped).1
      presentations := ∅
      presentationUpdates := s.presentationUpdates ++
        (env.surfaces.arrange s.calls s.presentations.keys).map fun surface => ⟨surface, .release⟩
      cursorInFlight := none
      pendingCursors := []
      pendingMaps := ∅
      connected := false
      remoteInput := released.1
      effects := s.effects ++ released.2 ++ [.inputDisconnected s.upstreamSource] ++
        (env.surfaces.arrange (s.calls + 1) s.mappings.keys).map scaleReset
      cache := ∅
      calls := s.calls + 2 }

def isAuthorized : Bool := !s.access || env.authorized s.calls

/-- Queued work loses its authority with the access session; only the releases that failing
generates may still cross. -/
def revoke : SourceRelayAdapter :=
  ({ s with effects := [], presentationUpdates := [], calls := s.calls + 1 } :
    SourceRelayAdapter).fail env "access session revoked"

def checkAccess : SourceRelayAdapter × Bool :=
  if s.failed then (s, false)
  else if s.isAuthorized env then (s.tick, true)
  else (s.revoke env, false)

def submit (command : SourcePortCommand) : SourceRelayAdapter × Bool :=
  match env.submit s.calls with
  | .ok _ => ({ s with submitted := s.submitted ++ [command], calls := s.calls + 1 }, true)
  | .error reason => (s.tick.fail env reason, false)

def gamepadStatus (status : Option GamepadStatus) : SourceRelayAdapter :=
  match status with
  | some status => (s.submit env (.gamepad status)).1
  | none => s

def installAccess : SourceRelayAdapter :=
  if s.access || s.inputStarted || !s.mappings.keys.isEmpty then
    s.fail env "access must be installed before source admission"
  else { s with access := true }

variable (session : HoistSessionId)

def sendSurface (event : ClientSurfaceEvent) : SourceRelayAdapter :=
  let checked := s.checkAccess env
  if checked.2 then (checked.1.submit env (.surface session event)).1 else checked.1

/-- Release held input on the surfaces of a host component. -/
def releaseInput (owns : ClientSurfaceId → Bool) : SourceRelayAdapter :=
  let released := s.remoteInput.releaseEffects env.inputs s.calls s.upstreamSource owns
  { s with
    remoteInput := released.1
    effects := s.effects ++ released.2
    calls := s.calls + 1 }

/-! ### Presentation -/

/-- The cached popups of a surface, in iteration order. -/
def cachedPopups (owner : ClientSurfaceId) : List ClientSurfaceId :=
  (env.surfaces.arrange s.calls s.cache.keys).filter fun surface =>
    decide (s.popupOwnerOf surface = some owner)

variable (source : ClientSurfaceId)

def recordClaim (claim : ClientPresentationClaim) : SourceRelayAdapter :=
  { s with presentations := s.presentations.insert source claim }

/-- The port accepted a claim: tell the host. -/
def publishClaim (claim accepted : ClientPresentationClaim) : SourceRelayAdapter :=
  { s with
    presentationUpdates := s.presentationUpdates ++ [⟨source, accepted⟩]
    presented := s.presented ++ [(source, claim, accepted)]
    calls := s.calls + 1 }

/-- Claim a presentation for a mapped surface, unless the claim is the one it has. -/
def claimPresentation (claim : ClientPresentationClaim) (s : SourceRelayAdapter)
    (source : ClientSurfaceId) : SourceRelayAdapter × List ClientSurfaceId :=
  if s.presentations.lookup source = some claim then (s.recordClaim source claim, [])
  else
    match env.setPresentation s.calls source claim with
    | .error reason => ((s.recordClaim source claim).tick.fail env reason, [])
    | .ok accepted =>
        let s := (s.recordClaim source claim).publishClaim source claim accepted
        (s.tick, s.cachedPopups env source)

def setPresentationBody (claim : ClientPresentationClaim) (s : SourceRelayAdapter)
    (source : ClientSurfaceId) : SourceRelayAdapter × List ClientSurfaceId :=
  let checked := s.checkAccess env
  if checked.2 && decide (source ∈ checked.1.mappings) then
    checked.1.claimPresentation env claim source
  else (checked.1, [])

/-- Claim a presentation for a mapped surface and its popups. -/
def setPresentation (claim : ClientPresentationClaim) : SourceRelayAdapter :=
  Cascade.run (setPresentationBody env claim) (s.mappings.size + 1) s source

def releasePresentation : SourceRelayAdapter :=
  if surface ∈ s.presentations then
    { s with
      presentations := s.presentations.erase surface
      presentationUpdates := s.presentationUpdates ++ [⟨surface, .release⟩] }
  else s

/-! ### Cursors -/

/-- The session and the cursor to send for a pending surface, unless it was unmapped, withdrew its
cursor or changed back to the one already sent. -/
def cursorToSend : Option (HoistSessionId × ClientCursor) :=
  match s.mappings.lookup surface, s.cache.lookup surface with
  | some session, some cached =>
      match cached.cursor with
      | some cursor => if cached.sentCursor = some cursor then none else some (session, cursor)
      | none => none
  | _, _ => none

def transmitCursor (surface : ClientSurfaceId) (cursor : ClientCursor) : SourceRelayAdapter :=
  match s.nextCursorSequence with
  | none => s.fail env "cursor sequence space is exhausted"
  | some sequence =>
      (({ s with
          nextCursorSequence := checkedSucc sequence
          cache := s.cache.modify surface fun cached => { cached with sentCursor := some cursor }
          cursorInFlight := some ⟨session, surface, sequence⟩ } : SourceRelayAdapter).submit env
        (.cursor session ⟨surface, cursor⟩ sequence)).1

/-- The loop over the pending cursors: the first one that still needs sending is sent. -/
def sendPending (s : SourceRelayAdapter) : List ClientSurfaceId → SourceRelayAdapter
  | [] => { s with pendingCursors := [] }
  | surface :: pending =>
      match s.cursorToSend surface with
      | none => sendPending s pending
      | some (session, cursor) =>
          ({ s with pendingCursors := pending } : SourceRelayAdapter).transmitCursor env session
            surface cursor

def sendNextCursor : SourceRelayAdapter :=
  let checked := s.checkAccess env
  if !checked.2 || checked.1.cursorInFlight.isSome then checked.1
  else checked.1.sendPending env checked.1.pendingCursors

def queueCursor : SourceRelayAdapter :=
  if surface ∉ s.mappings ∨ s.failed = true then s
  else
    ({ s with
        pendingCursors :=
          if surface ∈ s.pendingCursors then s.pendingCursors
          else s.pendingCursors ++ [surface] } : SourceRelayAdapter).sendNextCursor env

/-! ### Mapping -/

/-- A toplevel can be mapped, and a popup whose owner is. -/
def mappable : ClientSurfaceRole → Bool
  | .toplevel _ => true
  | .popup popup => decide (popup.owner ∈ s.mappings)
  | .layer => false

/-- The claim a new mapping starts with: that of the owner, for a popup. -/
def initialClaim (role : ClientSurfaceRole) : ClientPresentationClaim :=
  (role.popupOwner.bind fun owner => s.presentations.lookup owner).getD (.active none)

def replayRole (source : ClientSurfaceId) (role : Option ClientSurfaceRole) : SourceRelayAdapter :=
  match role with
  | some role => s.sendSurface env session ⟨source, .role role⟩
  | none => s

def replayMetadata (source : ClientSurfaceId)
    (metadata : Option ClientSurfaceMetadata) : SourceRelayAdapter :=
  match metadata with
  | some metadata =>
      ({ s with
          cache := s.cache.modify source fun cached =>
            { cached with sentMetadata := some metadata } } : SourceRelayAdapter).sendSurface env
        session ⟨source, .metadata metadata⟩
  | none => s

def replayCommit (source : ClientSurfaceId)
    (commit : Option ClientSurfaceCommit) : SourceRelayAdapter :=
  match commit with
  | some commit => s.sendSurface env session ⟨source, .commit commit⟩
  | none => s

/-- A new mapping is told what was observed before it. -/
def replay (source : ClientSurfaceId) : SourceRelayAdapter :=
  match s.cache.lookup source with
  | none => s
  | some cached =>
      ((s.replayRole env session source cached.role).replayMetadata env session source
        cached.metadata).replayCommit env session source cached.commit

/-- The cached popups a new mapping brings along. -/
def admissiblePopups (owner : ClientSurfaceId) : List ClientSurfaceId :=
  (env.surfaces.arrange s.calls s.cache.keys).filter fun surface =>
    (s.admission == .manual || ((s.cache.lookup surface).bind (·.commit)).any (·.mapped)) &&
      decide (s.popupOwnerOf surface = some owner)

def enlist (source : ClientSurfaceId) : SourceRelayAdapter :=
  { s with mappings := s.mappings.insert source session }

/-- Map a surface whose role allows it. -/
def mapAdmitted (source : ClientSurfaceId)
    (role : ClientSurfaceRole) : SourceRelayAdapter × List ClientSurfaceId :=
  let s := s.enlist session source
  let s := s.setPresentation env source (s.initialClaim role)
  let submitted := s.submit env (.mapSurface session source)
  if submitted.2 then
    let s := (submitted.1.replay env session source).queueCursor env source
    (s.tick, s.admissiblePopups env source)
  else (submitted.1, [])

/-- The first session reserved for a surface of unknown role keeps it. -/
def reserve (source : ClientSurfaceId) : SourceRelayAdapter :=
  { s with pendingMaps := s.pendingMaps.insertNew source session }

def dropReservation : SourceRelayAdapter :=
  { s with pendingMaps := s.pendingMaps.erase source }

/-- Map a surface, if the port is ready and the surface is one of ours and not mapped yet. -/
def mapLive (s : SourceRelayAdapter) (source : ClientSurfaceId) :
    SourceRelayAdapter × List ClientSurfaceId :=
  if env.ready s.calls && decide (source.source = s.upstreamSource) &&
      decide (source ∉ s.mappings) then
    match s.roleOf source with
    | none => (s.tick.reserve session source, [])
    | some role =>
        if s.mappable role then s.tick.mapAdmitted env session source role else (s.tick, [])
  else (s.tick, [])

def mapBody (s : SourceRelayAdapter) (source : ClientSurfaceId) :
    SourceRelayAdapter × List ClientSurfaceId :=
  let checked := s.checkAccess env
  if checked.2 then checked.1.mapLive env session source else (checked.1, [])

def map (source : ClientSurfaceId) : SourceRelayAdapter :=
  Cascade.run (mapBody env session) (s.cache.size + 1) s source

/-- Map a toplevel under a session of its own, a popup under that of its owner. -/
def admitRole : SourceRelayAdapter :=
  match s.roleOf source with
  | some (.toplevel _) =>
      match s.nextSession with
      | none => s.fail env "hoist session identifiers exhausted"
      | some next =>
          ({ s with nextSession := checkedSucc next } : SourceRelayAdapter).map env next source
  | some (.popup popup) =>
      match s.mappings.lookup popup.owner with
      | none => s
      | some session => s.map env session source
  | some .layer | none => s

/-- Automatic admission of a surface that has committed content. -/
def admitSurface : SourceRelayAdapter :=
  if s.admission ≠ .allToplevels ∨ s.failed = true then s
  else if env.ready s.calls && decide (source ∉ s.mappings) &&
      ((s.cache.lookup source).bind (·.commit)).any (·.mapped) then s.tick.admitRole env source
  else s.tick

/-! ### Unmapping -/

/-- The mapped popups of a surface, in iteration order. -/
def mappedPopups (owner : ClientSurfaceId) : List ClientSurfaceId :=
  (env.surfaces.arrange s.calls s.mappings.keys).filter fun surface =>
    decide (s.popupOwnerOf surface = some owner)

def unlist : SourceRelayAdapter :=
  { s with mappings := s.mappings.erase source }

/-- The destination forgets a withdrawn surface, so nothing counts as sent to it. -/
def forgetSent : SourceRelayAdapter :=
  { s with
    pendingCursors := s.pendingCursors.filter (· != source)
    cache := s.cache.modify source fun cached =>
      { cached with sentCursor := none, sentMetadata := none } }

def resetScale : SourceRelayAdapter :=
  { s with effects := s.effects ++ [scaleReset source] }

/-- Take a surface back before the destination is told. -/
def withdraw : SourceRelayAdapter :=
  ((((s.unlist source).releasePresentation source).forgetSent source).releaseInput env
    (· == source)).resetScale source

def unmapBody : SourceRelayAdapter × List ClientSurfaceId :=
  match s.mappings.lookup source with
  | none => (s.dropReservation source, [])
  | some session =>
      let submitted := ((s.dropReservation source).withdraw env source).submit env
        (.withdrawSurface session source)
      if submitted.2 then (submitted.1.tick, submitted.1.mappedPopups env source)
      else (submitted.1, [])

def unmap : SourceRelayAdapter :=
  Cascade.run (unmapBody env) (s.mappings.size + 1) s source

/-! ### Observing -/

/-- Desktop content: a layer surface, or the popup of one. -/
def desktopSurface : Bool :=
  match s.roleOf source with
  | some .layer => true
  | some (.popup popup) => decide (s.roleOf popup.owner = some .layer)
  | _ => false

/-- Change a cache entry, creating it if need be. -/
def remember (f : CachedSurface → CachedSurface) : SourceRelayAdapter :=
  { s with cache := s.cache.insert source (f ((s.cache.lookup source).getD {})) }

def observeMetadata (metadata : ClientSurfaceMetadata) : SourceRelayAdapter :=
  let s := s.remember source fun cached => { cached with metadata := some metadata }
  match s.mappings.lookup source with
  | some session =>
      if (s.cache.lookup source).bind (·.sentMetadata) = some metadata then s
      else
        (s.remember source fun cached => { cached with sentMetadata := some metadata }).sendSurface
          env session ⟨source, .metadata metadata⟩
  | none => s

def dropContent : SourceRelayAdapter :=
  { s with
    cache := s.cache.mapValues fun id cached =>
      if id = source ∨ cached.role.bind (·.popupOwner) = some source then
        { cached with commit := none }
      else cached }

def observeRole (role : ClientSurfaceRole) : SourceRelayAdapter :=
  let s := s.remember source fun cached => { cached with role := some role }
  if s.desktopSurface source then (s.unmap env source).dropContent source
  else
    match s.pendingMaps.lookup source with
    | some session =>
        (s.dropReservation source).map env session source
    | none =>
        match s.mappings.lookup source with
        | some session => s.sendSurface env session ⟨source, .role role⟩
        | none =>
            match s.admission, role.popupOwner.bind fun owner => s.mappings.lookup owner with
            | .manual, some session => s.map env session source
            | _, _ => s.admitSurface env source

/-- The latest commit, with the buffers the relay never forwarded; an unmapped surface has no
cursor. -/
def commitTo (commit : ClientSurfaceCommit) (cached : CachedSurface) : CachedSurface :=
  { cached with
    cursor := if commit.mapped then cached.cursor else none
    sentCursor := if commit.mapped then cached.sentCursor else none
    commit :=
      match cached.commit with
      | some previous => some (commit.carryUnobservedContentFrom previous)
      | none => some commit }

def rememberCommit (commit : ClientSurfaceCommit) : SourceRelayAdapter :=
  { s with
    cache := s.cache.insert source (commitTo commit ((s.cache.lookup source).getD {}))
    pendingCursors :=
      if commit.mapped then s.pendingCursors else s.pendingCursors.filter (· != source) }

def observeCommit (commit : ClientSurfaceCommit) : SourceRelayAdapter :=
  if s.desktopSurface source then s
  else
    match s.mappings.lookup source with
    | some session =>
        (s.rememberCommit source commit).sendSurface env session ⟨source, .commit commit⟩
    | none => (s.rememberCommit source commit).admitSurface env source

def forgetSurface : SourceRelayAdapter :=
  { s with
    cache := s.cache.erase source
    pendingCursors := s.pendingCursors.filter (· != source) }

/-- A destroyed surface that is mapped leaves with its own event. -/
def sendDestroyed : SourceRelayAdapter :=
  match s.mappings.lookup source with
  | some session => (s.unlist source).sendSurface env session ⟨source, .destroyed⟩
  | none => s

def observeDestroyed : SourceRelayAdapter :=
  let s := (s.cachedPopups env source).foldl (fun s child => s.unmap env child)
    (s.dropReservation source).tick
  (((s.releasePresentation source).releaseInput env (· == source)).sendDestroyed env
    source).forgetSurface source

def observe (event : ClientSurfaceEvent) : SourceRelayAdapter :=
  let checked := s.checkAccess env
  let s := checked.1
  if !checked.2 || decide (event.surface.source ≠ s.upstreamSource) then s
  else
    match event.kind with
    | .metadata metadata => s.observeMetadata env event.surface metadata
    | .role role => s.observeRole env event.surface role
    | .commit commit => s.observeCommit env event.surface commit
    | .interaction _ | .stateRequest _ =>
        match s.mappings.lookup event.surface with
        | some session => s.sendSurface env session event
        | none => s
    | .destroyed => s.observeDestroyed env event.surface

def observeCursorUpdate (update : ClientCursorUpdate) : SourceRelayAdapter :=
  let checked := s.checkAccess env
  let s := checked.1
  if !checked.2 || decide (update.surface.source ≠ s.upstreamSource) then s
  else
    let cached := (s.cache.lookup update.surface).getD {}
    if cached.cursor = some update.cursor then s.remember update.surface id
    else
      (s.remember update.surface fun cached =>
        { cached with cursor := some update.cursor }).queueCursor env update.surface

def observeRetiredBuffer (buffer : ClientBufferId) : SourceRelayAdapter :=
  let checked := s.checkAccess env
  if checked.2 && decide (buffer.source = checked.1.upstreamSource) then
    (checked.1.submit env (.retireUpstreamBuffer buffer)).1
  else checked.1

/-! ### What the peer sends -/

def expireGamepad (now : Instant) : SourceRelayAdapter :=
  ({ s with
      gamepad := (s.gamepad.expire now).1
      calls := s.calls + 1 } : SourceRelayAdapter).gamepadStatus env (s.gamepad.expire now).2

def applyGamepad (request : GamepadRequest) (now : Instant) : SourceRelayAdapter :=
  let accepted := s.gamepad.accept request now (env.openDevice s.calls) (env.writeDevice s.calls)
  ({ s with gamepad := accepted.1, calls := s.calls + 1 } : SourceRelayAdapter).gamepadStatus env
    accepted.2

def acceptGamepad (request : GamepadRequest) : SourceRelayAdapter × Bool :=
  if session ≠ gamepadSession ∨ env.ready s.calls = false then
    (s.tick.fail env "gamepad control outside an authorized connection", false)
  else
    let now := env.now s.tick.calls
    let s := s.tick.expireGamepad env now
    if s.failed then (s, false)
    else (s.applyGamepad env request now, !(s.applyGamepad env request now).failed)

def acceptCursorReceived (surface : ClientSurfaceId) (sequence : ℕ) : SourceRelayAdapter × Bool :=
  match s.cursorInFlight with
  | none =>
      if s.nextCursorSequence.any fun next => decide (next ≤ sequence) then
        (s.fail env "cursor acknowledgement precedes transmission", false)
      else (s, true)
  | some active =>
      if sequence < active.sequence then (s, true)
      else if (⟨session, surface, sequence⟩ : CursorInFlight) ≠ active then
        (s.fail env "cursor acknowledgement does not match the outstanding update", false)
      else
        let s := ({ s with cursorInFlight := none } : SourceRelayAdapter).sendNextCursor env
        (s, !s.failed)

/-- What a destination message is about; a focus clear is about the surface that has the focus. -/
def messageTarget (message : DestinationMessage) : Option ClientSurfaceId :=
  match message with
  | .request (.focus focus) => focus.surface.or s.remoteInput.keyboardFocus
  | _ => destinationMessageSurface message

def isFocus : DestinationMessage → Bool
  | .request (.focus _) => true
  | _ => false

/-- Record a message the port has accepted and pass it on. -/
def applyAccepted (message : DestinationMessage) : SourceRelayAdapter :=
  match message with
  | .request (.surface ⟨_, .setBitratePreference _⟩) => s
  | .request (.surface ⟨surface, .setPresentation rate⟩) =>
      s.setPresentation env surface
        (match rate with
        | some rate => .active (some rate)
        | none => .paused)
  | .request request =>
      { s with
        remoteInput := s.remoteInput.observeRequest request
        effects := s.effects ++ [.request request] }
  | .input input =>
      let event := input.intoClientEvent
      let observed := s.remoteInput.observeInput event
      { s with
        remoteInput := observed.1
        effects := if observed.2 then s.effects ++ [.input event] else s.effects }
  | .bufferReleased _ | .reclaim | .cursorReceived _ _ | .gamepad _ => s

/-- The eligibility of an input, then delivery through the port. -/
def deliver (message : DestinationMessage) : SourceRelayAdapter × Bool :=
  let eligible :=
    match message with
    | .input input => s.remoteInput.acceptsInput input.target input.event
    | _ => true
  if !eligible then (s, true)
  else
    match env.accept s.calls with
    | .error reason => (s.tick.fail env reason, false)
    | .ok _ => (s.tick.applyAccepted env message, true)

variable (envelope : DestinationEnvelope)

/-- A message for a surface that is not mapped is late, not wrong.  A focus request of a live
session clears the attention nonetheless. -/
def ignoreUnmapped : SourceRelayAdapter × Bool :=
  if isFocus envelope.message && s.mappings.entries.any (fun entry => entry.2 == envelope.session)
  then s.submit env .focusCleared
  else (s, true)

/-- A message about one surface belongs to the session the surface is mapped under. -/
def route (surface : ClientSurfaceId) : SourceRelayAdapter × Bool :=
  match s.mappings.lookup surface with
  | none => s.ignoreUnmapped env envelope
  | some session =>
      if session = envelope.session then s.deliver env envelope.message
      else (s.fail env "destination message crossed hoist sessions", false)

/-- A message past the access check. -/
def acceptLive : SourceRelayAdapter × Bool :=
  match envelope.message with
  | .gamepad request => s.acceptGamepad env envelope.session request
  | .cursorReceived surface sequence =>
      s.acceptCursorReceived env envelope.session surface sequence
  | .request (.focus focus) =>
      if focus.source ≠ s.upstreamSource then
        (s.fail env "destination focus targeted another source", false)
      else
        match s.messageTarget envelope.message with
        | none => (s, true)
        | some surface => s.route env envelope surface
  | .request _ | .input _ | .bufferReleased _ | .reclaim =>
      match s.messageTarget envelope.message with
      | none => s.deliver env envelope.message
      | some surface => s.route env envelope surface

def acceptDestination : SourceRelayAdapter × Bool :=
  let checked := s.checkAccess env
  if checked.2 then checked.1.acceptLive env envelope else (checked.1, false)

/-- The loop over one batch of messages, which ends at the first that stops the connection. -/
def acceptAll (s : SourceRelayAdapter) : List DestinationEnvelope → SourceRelayAdapter
  | [] => s
  | envelope :: envelopes =>
      let accepted := s.acceptDestination env envelope
      if accepted.2 then acceptAll accepted.1 envelopes else accepted.1

def connectInput : SourceRelayAdapter :=
  if s.inputStarted then s
  else
    { s with
      inputStarted := true
      effects := s.effects ++ [.inputConnected s.upstreamSource] }

def advertiseGamepad : SourceRelayAdapter :=
  ({ s with gamepad := s.gamepad.advertise.1 } : SourceRelayAdapter).gamepadStatus env
    s.gamepad.advertise.2

/-- Start input once the port is ready, and advertise the gamepad. -/
def startInput : SourceRelayAdapter :=
  if env.ready s.calls then s.tick.connectInput.advertiseGamepad env else s.tick

/-- Admit what was observed before the port was ready. -/
def admitCached : SourceRelayAdapter :=
  (env.surfaces.arrange s.calls s.cache.keys).foldl (fun s surface => s.admitSurface env surface)
    { s with admissionStarted := true, calls := s.calls + 1 }

def startAdmission : SourceRelayAdapter :=
  if s.admission ≠ .allToplevels ∨ s.admissionStarted = true then s
  else if env.ready s.calls then s.tick.admitCached env
  else s.tick

/-- Before the port is polled: the gamepad's watchdog. -/
def beginPoll : SourceRelayAdapter :=
  let checked := s.checkAccess env
  if checked.2 then checked.1.expireGamepad env (env.now checked.1.calls) else checked.1

/-- Before a batch is accepted: input and admission start when the port is ready. -/
def prepareBatch : SourceRelayAdapter :=
  let s := s.startInput env
  if s.failed then s else s.startAdmission env

/-- After a batch: admit new work. -/
def finishPoll : SourceRelayAdapter :=
  let checked := s.checkAccess env
  if checked.2 then
    match env.progress checked.1.calls with
    | .ok _ => checked.1.tick
    | .error reason => checked.1.tick.fail env reason
  else checked.1

/-- One service of the port; `polled` is what it returned.  A relay that has failed accepts
nothing. -/
def poll (polled : Except String (List DestinationEnvelope)) : SourceRelayAdapter :=
  let s := s.beginPoll env
  if s.failed then s
  else
    match polled with
    | .error reason => s.fail env reason
    | .ok envelopes => ((s.prepareBatch env).acceptAll env envelopes).finishPoll env

/-! ### The calls the host makes -/

/-- The queued presentation updates are handed to the host: what is left, and what it gets. -/
def takeUpdates : SourceRelayAdapter × List ClientPresentationUpdate :=
  ({ s with presentationUpdates := [] }, s.presentationUpdates)

def drainPresentationClaims : SourceRelayAdapter × List ClientPresentationUpdate :=
  (s.checkAccess env).1.takeUpdates

/-- The queued effects are handed to the host: what is left, and what it gets. -/
def takeEffects : SourceRelayAdapter × List ClientAdapterEffect :=
  ({ s with effects := [] }, s.effects)

def drainEffects : SourceRelayAdapter × List ClientAdapterEffect :=
  (s.checkAccess env).1.takeEffects

/-- Commands are for relays that are mapped by hand. -/
def command (run : SourceRelayAdapter → SourceRelayAdapter) : SourceRelayAdapter :=
  if s.admission ≠ .manual then s else run s

end SourceRelayAdapter

/-- A call of the host. -/
inductive SourceCall
  | installAccess
  | map (session : HoistSessionId) (source : ClientSurfaceId)
  | unmap (source : ClientSurfaceId)
  | observe (event : ClientSurfaceEvent)
  | observeCursorUpdate (update : ClientCursorUpdate)
  | observeRetiredBuffer (buffer : ClientBufferId)
  | releaseInput (owns : ClientSurfaceId → Bool)
  | poll (polled : Except String (List DestinationEnvelope))
  | drainPresentationClaims
  | drainEffects

/-- The relay after a call; the questions of the call are numbered from zero. -/
def SourceRelayAdapter.step (env : SourceEnvironment) (s : SourceRelayAdapter) (call : SourceCall) :
    SourceRelayAdapter :=
  let s := { s with calls := 0 }
  match call with
  | .installAccess => s.installAccess env
  | .map session source => s.command fun s => s.map env session source
  | .unmap source => s.command fun s => s.unmap env source
  | .observe event => s.observe env event
  | .observeCursorUpdate update => s.observeCursorUpdate env update
  | .observeRetiredBuffer buffer => s.observeRetiredBuffer env buffer
  | .releaseInput owns => s.releaseInput env owns
  | .poll polled => s.poll env polled
  | .drainPresentationClaims => (s.drainPresentationClaims env).1
  | .drainEffects => (s.drainEffects env).1

/-! ### A relay and its host -/

/-- A call of the host together with what the surroundings answer during it. -/
structure HostCall where
  env : SourceEnvironment := {}
  call : SourceCall

/-- A claim map after one more update. -/
def applyUpdate (claims : ClientSurfaceId → Option ClientPresentationClaim)
    (update : ClientPresentationUpdate) : ClientSurfaceId → Option ClientPresentationClaim :=
  Function.update claims update.surface
    (if update.claim = .release then none else some update.claim)

def applyUpdates (claims : ClientSurfaceId → Option ClientPresentationClaim)
    (updates : List ClientPresentationUpdate) : ClientSurfaceId → Option ClientPresentationClaim :=
  updates.foldl applyUpdate claims

/-- A relay with what its host has drained from it so far: the effects folded into a seat, the
presentation updates into a claim map. -/
structure HostedRelay where
  relay : SourceRelayAdapter
  seat : Seat := .empty
  claims : ClientSurfaceId → Option ClientPresentationClaim := fun _ => none

namespace HostedRelay

/-- A relay as it is constructed. -/
def new (upstreamSource : ClientSourceId) (admission : SourceAdmission) (provider : Bool) :
    HostedRelay where
  relay :=
    { upstreamSource := upstreamSource, admission := admission, gamepad := { provider := provider } }

def step (h : HostedRelay) (e : HostCall) : HostedRelay where
  relay := h.relay.step e.env e.call
  seat :=
    match e.call with
    | .drainEffects =>
        h.seat.replay (({ h.relay with calls := 0 } : SourceRelayAdapter).drainEffects e.env).2
    | _ => h.seat
  claims :=
    match e.call with
    | .drainPresentationClaims =>
        applyUpdates h.claims
          (({ h.relay with calls := 0 } : SourceRelayAdapter).drainPresentationClaims e.env).2
    | _ => h.claims

/-- The seat once everything emitted has been drained. -/
def emitted (h : HostedRelay) : Seat := h.seat.replay h.relay.effects

/-- The claim map once everything queued has been drained. -/
def claimed (h : HostedRelay) : ClientSurfaceId → Option ClientPresentationClaim :=
  applyUpdates h.claims h.relay.presentationUpdates

end HostedRelay

end Hoist
