/-
**The destination relay.**

`DestinationRelayAdapter` of `weld-hoist-core/src/relay.rs` presents the surfaces a peer has mapped
as surfaces of its own: it renames them, keeps track of which session each belongs to, rewrites the
roles that name other surfaces, and sends back the requests and inputs the host addresses to them.

The answers of the port and the orders in which hash tables come out are those of a
`DestinationEnvironment`, by the number of the question.  `trace` records what was mapped, published
and remembered as a cursor, in order; nothing in the relay reads it.

Main definitions: `DestinationEnvironment`, `DestinationRelayAdapter`, `applyRecord`, `mapSurface`,
`relocatedRole`, `refreshChildrenOf`, `destroySurface`, `endSession`, `fail`, `applyRequest`,
`applyInput`, `hostFocusLost`, `poll`, `DestinationEvent`, `DestinationRelayAdapter.step`.

Main results:

* `DestinationRelayAdapter.poll_eq_exec` — servicing the port is a run of such steps.
-/

import Weld.HoistMessages
import Weld.RemoteInput
import Weld.PendingEvents
import Weld.Transition

namespace Hoist

open Client Gamepad

/-! ### The surroundings -/

inductive DestinationPortCommand
  | focusCleared
  | message (envelope : DestinationEnvelope)
  | routeMapped (source destination : ClientSurfaceId)
  | routeUnmapped (destination : ClientSurfaceId)
  deriving DecidableEq

/-- What the surroundings answer. -/
structure DestinationEnvironment where
  submit : ℕ → Except String Unit := fun _ => .ok ()
  surfaces : IterationOrder ClientSurfaceId := .stored ClientSurfaceId
  inputs : InputOrders := {}

/-- What becomes of a destination surface: it is mapped, an event is published for it, its cursor
is remembered. -/
inductive RouteEvent
  | mapped (surface : ClientSurfaceId)
  | published (event : ClientSurfaceEvent)
  | cursor (surface : ClientSurfaceId) (cursor : ClientCursor)
  deriving DecidableEq

/-! ### The state -/

/-- One destination-side relay.  `submitted` is what the port has taken, in order. -/
structure DestinationRelayAdapter where
  gamepad : Option Pending := none
  upstreamSource : ClientSourceId
  descriptor : ClientSourceId
  sessions : Dict ClientSurfaceId HoistSessionId := ∅
  roles : Dict ClientSurfaceId ClientSurfaceRole := ∅
  events : PendingClientEvents Unit := {}
  input : RemoteInputState := {}
  failed : Bool := false
  cursorUpdates : Dict ClientSurfaceId ClientCursor := ∅
  submitted : List DestinationPortCommand := []
  trace : List RouteEvent := []
  calls : ℕ := 0

namespace DestinationRelayAdapter

variable (env : DestinationEnvironment)

/-- A relay as it is constructed. -/
def new (upstreamSource descriptor : ClientSourceId) (gamepad : Option Pending) :
    DestinationRelayAdapter :=
  { upstreamSource := upstreamSource, descriptor := descriptor, gamepad := gamepad }

variable (s : DestinationRelayAdapter)

/-- One more question was asked. -/
def tick : DestinationRelayAdapter := { s with calls := s.calls + 1 }

variable (source : ClientSurfaceId)

/-- The destination's name of a source surface. -/
def relocated : ClientSurfaceId :=
  relocatedSurface s.descriptor source

def sourceSurface (destination : ClientSurfaceId) : Option ClientSurfaceId :=
  if destination.source = s.descriptor then
    some ⟨⟨s.upstreamSource, destination.client.localId⟩, destination.localId⟩
  else none

def publish (event : ClientSurfaceEvent) : DestinationRelayAdapter :=
  { s with
    events := s.events.push () event
    trace := s.trace ++ [.published event] }

/-! ### Roles -/

/-- A role under the names of the destination.  A parent that is not mapped is left out; a popup
needs its owner. -/
def relocatedRole : ClientSurfaceRole → Option ClientSurfaceRole
  | .layer => none
  | .toplevel state =>
      some (.toplevel { state with
        parent := state.parent.bind fun parent =>
          if parent ∈ s.sessions then some (s.relocated parent) else none })
  | .popup state =>
      if state.owner ∈ s.sessions then
        some (.popup { state with owner := s.relocated state.owner })
      else none

def publishRole (role : ClientSurfaceRole) : DestinationRelayAdapter :=
  match s.relocatedRole role with
  | some role => s.publish ⟨s.relocated source, .role role⟩
  | none => s

/-- The mapped surfaces whose role names a surface, with their roles. -/
def childrenOf (parent : ClientSurfaceId) : List (ClientSurfaceId × ClientSurfaceRole) :=
  (env.surfaces.arrange s.calls s.roles.keys).filterMap fun surface =>
    match s.roles.lookup surface with
    | some role =>
        if role.referent = some parent ∧ surface ∈ s.sessions then some (surface, role) else none
    | none => none

def refreshChildrenOf (parent : ClientSurfaceId) : DestinationRelayAdapter :=
  (s.childrenOf env parent).foldl (fun s child => s.publishRole child.1 child.2) s.tick

/-! ### Taking surfaces away -/

/-- Take a surface out of the tables; what is held on it is forgotten without a packet. -/
def retire : DestinationRelayAdapter :=
  { s with
    sessions := s.sessions.erase source
    roles := s.roles.erase source
    input := (s.input.releaseEffects env.inputs s.calls s.descriptor (· == s.relocated source)).1
    calls := s.calls + 1 }

def dropCursor : DestinationRelayAdapter :=
  { s with cursorUpdates := s.cursorUpdates.erase (s.relocated source) }

/-- `destroy_surface` without notifying the port. -/
def destroyQuietly : DestinationRelayAdapter :=
  if source ∈ s.sessions then
    ((s.dropCursor source).retire env source).publish ⟨s.relocated source, .destroyed⟩
  else s.dropCursor source

/-- The relay after the gamepad controller was told. -/
def disconnectGamepad : DestinationRelayAdapter :=
  { s with failed := true, gamepad := s.gamepad.map Pending.disconnect }

def fail : DestinationRelayAdapter :=
  if s.failed then s
  else
    (env.surfaces.arrange s.calls s.sessions.keys).foldl (destroyQuietly env)
      s.disconnectGamepad.tick

def submit (command : DestinationPortCommand) : DestinationRelayAdapter × Bool :=
  match env.submit s.calls with
  | .ok _ => ({ s with submitted := s.submitted ++ [command], calls := s.calls + 1 }, true)
  | .error _ => (s.tick.fail env, false)

/-- `destroy_surface`, with the port notified. -/
def destroySurface : DestinationRelayAdapter :=
  if source ∈ s.sessions then
    ((((s.dropCursor source).retire env source).submit env
      (.routeUnmapped (s.relocated source))).1).publish ⟨s.relocated source, .destroyed⟩
  else s.dropCursor source

variable (session : HoistSessionId)

/-- The surfaces of a session, in iteration order. -/
def sessionSurfaces : List ClientSurfaceId :=
  (env.surfaces.arrange s.calls s.sessions.keys).filter fun surface =>
    decide (s.sessions.lookup surface = some session)

def endSession : DestinationRelayAdapter :=
  (s.sessionSurfaces env session).foldl (destroySurface env) s.tick

/-! ### Records -/

def sendDestination (message : DestinationMessage) : DestinationRelayAdapter :=
  (s.submit env (.message ⟨session, message⟩)).1

def enlist (source : ClientSurfaceId) : DestinationRelayAdapter :=
  { s with
    sessions := s.sessions.insert source session
    trace := s.trace ++ [.mapped (s.relocated source)] }

def mapSurface (source : ClientSurfaceId) : DestinationRelayAdapter × Bool :=
  if source.source ≠ s.upstreamSource then (s.fail env, false)
  else
    match s.sessions.lookup source with
    | some current => if current = session then (s, true) else (s.fail env, false)
    | none =>
        let submitted := (s.enlist session source).submit env
          (.routeMapped source (s.relocated source))
        if submitted.2 then (submitted.1.refreshChildrenOf env source, true)
        else (submitted.1, false)

def recordCursor (update : ClientCursorUpdate) : DestinationRelayAdapter :=
  { s with
    cursorUpdates := s.cursorUpdates.insert (s.relocated update.surface) update.cursor
    trace := s.trace ++ [.cursor (s.relocated update.surface) update.cursor] }

/-- A cursor is remembered for a mapped surface and acknowledged in any case: withdrawn feedback
must release the source's slot as well. -/
def applyCursor (update : ClientCursorUpdate) (sequence : ℕ) : DestinationRelayAdapter × Bool :=
  if update.surface.source ≠ s.upstreamSource then (s.fail env, false)
  else
    match s.sessions.lookup update.surface with
    | some current =>
        if current ≠ session then (s.fail env, false)
        else
          ((s.recordCursor update).sendDestination env session
            (.cursorReceived update.surface sequence), true)
    | none => (s.sendDestination env session (.cursorReceived update.surface sequence), true)

def setRole (role : ClientSurfaceRole) : DestinationRelayAdapter :=
  { s with roles := s.roles.insert source role }

/-- An event of a surface that is mapped under the session of the record. -/
def applyMapped (event : ClientSurfaceEvent) : DestinationRelayAdapter × Bool :=
  match event.kind with
  | .destroyed => (s.destroySurface env event.surface, true)
  | .role .layer => (s.fail env, false)
  | .role role => ((s.setRole event.surface role).publishRole event.surface role, true)
  | kind => (s.publish ⟨s.relocated event.surface, kind⟩, true)

def applySurface (event : ClientSurfaceEvent) : DestinationRelayAdapter × Bool :=
  if event.surface.source ≠ s.upstreamSource then (s.fail env, false)
  else if s.sessions.lookup event.surface ≠ some session then (s.fail env, false)
  else s.applyMapped env event

def observeGamepad (status : GamepadStatus) : DestinationRelayAdapter :=
  { s with gamepad := s.gamepad.map (·.observe status) }

def applyRecord (record : DestinationPortRecord) : DestinationRelayAdapter × Bool :=
  match record.event with
  | .gamepad status =>
      if record.session ≠ gamepadSession then (s.fail env, false)
      else (s.observeGamepad status, true)
  | .cursor update sequence => s.applyCursor env record.session update sequence
  | .mappedSurface source => s.mapSurface env record.session source
  | .surface event => s.applySurface env record.session event
  | .withdrawSurface surface => (s.destroySurface env surface, true)
  | .ended => (s.endSession env record.session, true)

/-! ### Servicing the port -/

/-- The loop over one batch of records, which ends at the first that is refused. -/
def applyAll (s : DestinationRelayAdapter) : List DestinationPortRecord → DestinationRelayAdapter
  | [] => s
  | record :: records =>
      let applied := s.applyRecord env record
      if applied.2 then applyAll applied.1 records else applied.1

/-- One turn of the loop that sends what the gamepad controller has queued. -/
def sendGamepad : DestinationRelayAdapter :=
  if s.failed then s
  else
    match s.gamepad with
    | none => s
    | some controller =>
        match controller.pop.2 with
        | none => s
        | some request =>
            ({ s with gamepad := some controller.pop.1 } : DestinationRelayAdapter).sendDestination
              env gamepadSession (.gamepad request)

/-- The number of turns until the controller has nothing queued. -/
def gamepadBacklog : ℕ :=
  match s.gamepad with
  | none => 0
  | some controller => controller.queue.length + controller.endRequest.toList.length

def sendGamepads : ℕ → DestinationRelayAdapter → DestinationRelayAdapter
  | 0, s => s
  | n + 1, s => sendGamepads n (s.sendGamepad env)

/-- One service of the port; `polled` is what it returned. -/
def poll (polled : Except String (List DestinationPortRecord)) : DestinationRelayAdapter :=
  if s.failed then s
  else
    match polled with
    | .error _ => s.fail env
    | .ok records =>
        let s := s.applyAll env records
        sendGamepads env s.gamepadBacklog s

/-! ### Requests and inputs of the host -/

variable (request : ClientRequest)

/-- Put a request under the names of the source. -/
def rewriteRequestSurface (source : ClientSurfaceId) : ClientRequest :=
  match request with
  | .surface ⟨_, .setOutputs _ _ preferredScale120⟩ =>
      .surface ⟨source, .setPreferredScale preferredScale120⟩
  | .surface ⟨_, kind⟩ => .surface ⟨source, kind⟩
  | .focus _ => .focus ⟨source.source, some source⟩
  | .clearFocus => .clearFocus

/-- The destination surface a request is about; a focus clear is about the surface that has the
focus. -/
def requestTarget : Option ClientSurfaceId :=
  match request with
  | .focus focus => focus.surface.or s.input.keyboardFocus
  | _ => requestSurface request

def rewriteRequest (source : ClientSurfaceId) : ClientRequest :=
  match request with
  | .focus ⟨_, none⟩ => .focus ⟨s.upstreamSource, none⟩
  | _ => rewriteRequestSurface request source

def observeRequest : DestinationRelayAdapter :=
  { s with input := s.input.observeRequest request }

def focusTargets (source : ClientSourceId) : ClientRequest → Bool
  | .focus focus => decide (focus.source = source)
  | _ => false

/-- A request whose target is a surface of the source. -/
def applyRequestTo (source : ClientSurfaceId) : DestinationRelayAdapter :=
  match s.sessions.lookup source with
  | none => if focusTargets s.descriptor request then (s.submit env .focusCleared).1 else s
  | some session =>
      (s.observeRequest request).sendDestination env session
        (.request (s.rewriteRequest request source))

def applyRequest : DestinationRelayAdapter :=
  match (s.requestTarget request).bind s.sourceSurface with
  | none => s
  | some source => s.applyRequestTo env request source

/-- An input target under the names of the source. -/
def retarget : ClientInputTarget → ClientInputTarget
  | .touch _ layer => .touch source layer
  | .pointer _ layer => .pointer source layer
  | .keyboard _ => .keyboard source

def forwardInput (source : ClientSurfaceId) (event : ClientInputEvent) : DestinationRelayAdapter :=
  s.sendDestination env session
    (.input ({ event with target := retarget source event.target } : ClientInputEvent).toWire)

/-- The source surface of a destination surface, with its session, if it is mapped. -/
def routeOf (destination : ClientSurfaceId) : Option (ClientSurfaceId × HoistSessionId) :=
  (s.sourceSurface destination).bind fun source =>
    (s.sessions.lookup source).map (source, ·)

def recordInput (event : ClientInputEvent) : DestinationRelayAdapter :=
  { s with input := (s.input.observeInput event).1 }

def applyInput (event : ClientInputEvent) : DestinationRelayAdapter :=
  match s.routeOf event.target.surface with
  | none => s
  | some (source, session) =>
      if (s.input.observeInput event).2 then
        (s.recordInput event).forwardInput env session source event
      else s.recordInput event

def restoreFocus (focus : Option ClientSurfaceId) : DestinationRelayAdapter :=
  { s with input := { s.input with keyboardFocus := focus } }

/-- One release, while the relay has not failed. -/
def applyRelease (previousFocus : Option ClientSurfaceId) (s : DestinationRelayAdapter)
    (effect : ClientAdapterEffect) : DestinationRelayAdapter :=
  if s.failed then s
  else
    match effect with
    | .inputDisconnected _ | .inputConnected _ => s
    | .input input =>
        match s.routeOf input.target.surface with
        | none => s
        | some (source, session) => s.forwardInput env session source input
    | .request request => (s.restoreFocus previousFocus).applyRequest env request

/-- The ledger of a host that lost the focus: everything is released. -/
def releaseAll (time : ℕ) : DestinationRelayAdapter × List ClientAdapterEffect :=
  let released := ({ s.input with lastTime := time } : RemoteInputState).releaseEffects env.inputs
    s.calls s.descriptor fun _ => true
  ({ s with input := released.1, calls := s.calls + 1 }, released.2)

def hostFocusLost (time : ℕ) : DestinationRelayAdapter :=
  (s.releaseAll env time).2.foldl (applyRelease env s.input.keyboardFocus) (s.releaseAll env time).1

/-! ### What the host takes -/

/-- The queued events are handed to the host. -/
def drainEvents : DestinationRelayAdapter × List ClientSurfaceEvent :=
  ({ s with events := {} }, s.events.events.map (·.event))

/-- The remembered cursors are handed to the host. -/
def drainCursorUpdates : DestinationRelayAdapter × List ClientCursorUpdate :=
  ({ s with cursorUpdates := ∅, calls := s.calls + 1 },
    (env.surfaces.arrange s.calls s.cursorUpdates.keys).filterMap fun surface =>
      (s.cursorUpdates.lookup surface).map (⟨surface, ·⟩))

end DestinationRelayAdapter

/-! ### Steps -/

/-- What can happen to a destination relay: the port delivers a record or fails, a queued gamepad
request is sent, the user works the gamepad, or the host calls. -/
inductive DestinationEvent
  | record (record : DestinationPortRecord)
  | pollFailed
  | sendGamepad
  | gamepad (use : Pending → Pending)
  | applyRequest (request : ClientRequest)
  | applyInput (event : ClientInputEvent)
  | hostFocusLost (time : ℕ)
  | drainEvents
  | drainCursorUpdates

namespace DestinationRelayAdapter

variable (env : DestinationEnvironment)

/-- The relay after one event. -/
def step (s : DestinationRelayAdapter) : DestinationEvent → DestinationRelayAdapter
  | .record record => (s.applyRecord env record).1
  | .pollFailed => s.fail env
  | .sendGamepad => s.sendGamepad env
  | .gamepad use => { s with gamepad := s.gamepad.map use }
  | .applyRequest request => s.applyRequest env request
  | .applyInput event => s.applyInput env event
  | .hostFocusLost time => s.hostFocusLost env time
  | .drainEvents => s.drainEvents.1
  | .drainCursorUpdates => (s.drainCursorUpdates env).1

variable {env}

variable (env) in
theorem applyAll_eq_exec (s : DestinationRelayAdapter) (records : List DestinationPortRecord) :
    ∃ es, s.applyAll env records = Transition.exec (step env) s es := by
  induction records generalizing s with
  | nil => exact ⟨[], rfl⟩
  | cons record records ih =>
      rw [applyAll]
      split_ifs
      · obtain ⟨es, hes⟩ := ih (s.applyRecord env record).1
        exact ⟨.record record :: es, hes⟩
      · exact ⟨[.record record], rfl⟩

theorem sendGamepads_eq_exec (n : ℕ) (s : DestinationRelayAdapter) :
    sendGamepads env n s = Transition.exec (step env) s (List.replicate n .sendGamepad) := by
  induction n generalizing s with
  | zero => rfl
  | succ n ih =>
      rw [sendGamepads, ih, List.replicate_succ, Transition.exec_cons]
      rfl

/-- **Servicing the port is a run of single steps.** -/
theorem poll_eq_exec (s : DestinationRelayAdapter)
    (polled : Except String (List DestinationPortRecord)) :
    ∃ es, s.poll env polled = Transition.exec (step env) s es := by
  unfold poll
  split_ifs
  · exact ⟨[], rfl⟩
  · cases polled with
    | error reason => exact ⟨[.pollFailed], rfl⟩
    | ok records =>
        obtain ⟨es, hes⟩ := applyAll_eq_exec env s records
        refine ⟨es ++ List.replicate (s.applyAll env records).gamepadBacklog .sendGamepad, ?_⟩
        rw [Transition.exec_append, ← hes]
        exact sendGamepads_eq_exec _ _

end DestinationRelayAdapter

end Hoist
