/-
**The owners of frame callbacks.**

A client asks for a frame callback with every commit and draws its next frame when the callback is
done.  Two consumers complete callbacks.  Native presentation stages those of the roots it composes
and completes what it staged once the frame is on the screen; the adapters that claimed a root have
its callbacks completed at the rate of the fastest claim, by a timer of the server's own.  Which of
the two owns a root follows from the claims and from the local presentation the policy published,
and when it changes the callbacks that wait change hands.

A callback is known by its surface and its number among the callbacks of that surface.  The event
loop runs every handler to its end.  A hash map is iterated in an order that the event carries, as
nobody promised one.  The toplevels, popups and layers are one map here, as no identity is in two of
them.

Main definitions: `PresentationClaims`, `Server`, `step`.
-/

import Weld.SourcePacing
import Mathlib.Data.Finset.Basic

namespace FrameCallbacks

open Client

abbrev SurfaceId := ClientSurfaceId
abbrev OutputId := ClientOutputId
abbrev WlSurface := ℕ
abbrev WlCallback := ℕ
abbrev Instant := ℕ
abbrev Duration := ℕ

def u64Max : ℕ := 2 ^ 64 - 1

/-! ### Claims -/

/-- The consumers of one root, and when its callbacks were last completed for them. -/
structure Demand where
  owners : Dict ClientSourceId ClientPresentationClaim := ∅
  last : Option Instant := none

structure PresentationClaims where
  roots : Dict SurfaceId Demand := ∅
  localRates : Dict SurfaceId (Option PresentationRate) := ∅
  localHandoffs : Finset SurfaceId := ∅

/-- The fastest of some rates. -/
def fastest : List PresentationRate → Option PresentationRate
  | [] => none
  | rate :: rates =>
      match fastest rates with
      | none => some rate
      | some other => some (if other.millihertz < rate.millihertz then rate else other)

namespace Demand

/-- The rates of the active claims; each one without a rate counts at the rate of the output. -/
def rates (demand : Demand) (fallback : PresentationRate) : List PresentationRate :=
  demand.owners.entries.filterMap fun owner =>
    match owner.2 with
    | .active rate => some (rate.getD fallback)
    | .release | .paused => none

end Demand

namespace PresentationClaims

variable (claims : PresentationClaims)

def update (owner : ClientSourceId) (update : ClientPresentationUpdate) : PresentationClaims :=
  match update.claim with
  | .release =>
      match claims.roots.lookup update.surface with
      | none => claims
      | some demand =>
          let owners := demand.owners.erase owner
          if owners.keys = [] then
            { claims with roots := claims.roots.erase update.surface }
          else
            { claims with roots := claims.roots.insert update.surface { demand with owners } }
  | claim =>
      let demand := (claims.roots.lookup update.surface).getD {}
      { claims with
        roots := claims.roots.insert update.surface
          { demand with owners := demand.owners.insert owner claim } }

variable (surface : SurfaceId)

def claimed : Bool :=
  (claims.roots.lookup surface).isSome

/-- Explicit local demand stands beside the adapters; until the policy publishes it, an adapter's
claim takes over from the implicit native owner. -/
def native : Bool :=
  let activeAdapter :=
    match claims.roots.lookup surface with
    | none => false
    | some demand => demand.owners.entries.any fun owner => owner.2.isActive
  if activeAdapter then
    false
  else
    match claims.localRates.lookup surface with
    | none => !claims.claimed surface
    | some rate => rate.isSome

def timeout (fallback : PresentationRate) (now : Instant) : Option Duration :=
  if claims.native surface then
    none
  else
    (claims.roots.lookup surface).bind fun demand =>
      let localRate := (claims.localRates.lookup surface).join
      (fastest (demand.rates fallback ++ localRate.toList)).map fun rate =>
        match demand.last with
        | none => 0
        | some last => last + rate.interval - now

def completed (now : Instant) : PresentationClaims :=
  { claims with roots := claims.roots.modify surface fun demand => { demand with last := some now } }

/-- The handoffs are forgotten whether or not any of them still stands. -/
def takeLocalDemand : Bool × PresentationClaims :=
  (decide (∃ surface ∈ claims.localHandoffs, claims.native surface = true),
    { claims with localHandoffs := ∅ })

def forget : PresentationClaims where
  roots := claims.roots.erase surface
  localRates := claims.localRates.erase surface
  localHandoffs := claims.localHandoffs.erase surface

end PresentationClaims

/-! ### The server -/

/-- The callbacks taken from one surface of the tree of a root. -/
structure SurfaceCallbacks where
  root : SurfaceId
  surface : WlSurface
  callbacks : List WlCallback
  deriving DecidableEq

structure SurfaceState where
  alive : Bool := true
  /-- The callbacks of the current state, oldest first. -/
  frameCallbacks : List WlCallback := []

/-- The output a root is presented on follows from its kind. -/
inductive RootKind
  | toplevel (preferred : OutputId)
  | popup (owner : Option SurfaceId)
  | layer
  deriving DecidableEq, Repr

/-- A root: its role, its surface, whether a buffer maps it, and the surfaces of its tree. -/
structure FrameRoot where
  kind : RootKind
  surface : WlSurface
  roleAlive : Bool := true
  clientMapped : Bool := false
  tree : List WlSurface

/-- Who completes a callback. -/
inductive Consumer
  | nativePresentation
  | independentTimer
  deriving DecidableEq, Repr

/-- A callback that was done, by whom, and whether its root was native at that moment. -/
structure Completion where
  root : SurfaceId
  surface : WlSurface
  callback : WlCallback
  consumer : Consumer
  rootNative : Bool
  deriving DecidableEq

/-- A callback that was dropped undone, and the root it was taken for, if it was taken. -/
structure Loss where
  root : Option SurfaceId
  surface : WlSurface
  callback : WlCallback
  deriving DecidableEq

structure Server where
  presentationClaims : PresentationClaims := {}
  roots : Dict SurfaceId FrameRoot := ∅
  surfaces : WlSurface → SurfaceState := fun _ => {}
  outputs : Dict OutputId (Option ℤ) := ∅
  primaryOutput : OutputId
  presentationRequested : Bool := false
  nextPresentationId : ℕ := 1
  stagedFrameCallbacks : List (ℕ × List SurfaceCallbacks) := []
  independentCallbacks : Dict SurfaceId (List SurfaceCallbacks) := ∅
  clock : Instant := 0
  /-- The root whose tree a surface belongs to, until that root is forgotten. -/
  homes : WlSurface → Option SurfaceId := fun _ => none
  /-- How many callbacks a surface has asked for. -/
  committed : WlSurface → ℕ := fun _ => 0
  completions : List Completion := []
  losses : List Loss := []
  /-- The roots that were destroyed. -/
  forgotten : Finset SurfaceId := ∅

namespace Server

/-! ### Completing, restoring and taking -/

variable (s : Server)

/-- The callbacks of a group, done one after the other. -/
def completionsOf (consumer : Consumer) (group : SurfaceCallbacks) : List Completion :=
  group.callbacks.map fun callback =>
    ⟨group.root, group.surface, callback, consumer, s.presentationClaims.native group.root⟩

def lossesOf (group : SurfaceCallbacks) : List Loss :=
  group.callbacks.map fun callback => ⟨some group.root, group.surface, callback⟩

/-- The callbacks of a dead surface are dropped. -/
def complete (consumer : Consumer) (group : SurfaceCallbacks) : Server :=
  if (s.surfaces group.surface).alive then
    { s with completions := s.completions ++ s.completionsOf consumer group }
  else
    { s with losses := s.losses ++ lossesOf group }

def completeAll (consumer : Consumer) (groups : List SurfaceCallbacks) : Server :=
  groups.foldl (fun s group => s.complete consumer group) s

/-- The callbacks of a group are put in front of those its surface asked for since. -/
def restore (group : SurfaceCallbacks) : Server :=
  if (s.surfaces group.surface).alive then
    { s with
      surfaces := Function.update s.surfaces group.surface
        { s.surfaces group.surface with
          frameCallbacks := group.callbacks ++ (s.surfaces group.surface).frameCallbacks } }
  else
    { s with losses := s.losses ++ lossesOf group }

/-- The current callbacks of the live surfaces of a tree. -/
def takeCallbacks (root : SurfaceId) : List WlSurface → (WlSurface → SurfaceState) →
    List SurfaceCallbacks × (WlSurface → SurfaceState)
  | [], surfaces => ([], surfaces)
  | surface :: tree, surfaces =>
      let current := surfaces surface
      if current.alive && !current.frameCallbacks.isEmpty then
        let rest := takeCallbacks root tree
          (Function.update surfaces surface { current with frameCallbacks := [] })
        (⟨root, surface, current.frameCallbacks⟩ :: rest.1, rest.2)
      else
        takeCallbacks root tree surfaces

/-! ### Roots -/

/-- The role and the surface of a root are alive and the client has mapped it. -/
def presented (root : FrameRoot) : Bool :=
  root.roleAlive && (s.surfaces root.surface).alive && root.clientMapped

variable (o : IterationOrder SurfaceId)

def mappedFrameRoots : List (SurfaceId × FrameRoot) :=
  (o.arrange 0 s.roots.keys).filterMap fun id =>
    (s.roots.lookup id).bind fun root => if s.presented root then some (id, root) else none

variable (surface : SurfaceId)

/-- A layer takes no claims. -/
def acceptsClaims : Bool :=
  match s.roots.lookup surface with
  | none => false
  | some root => decide (root.kind ≠ .layer)

def rootHasCallbacks (id : SurfaceId) (root : FrameRoot) : Bool :=
  (match s.independentCallbacks.lookup id with
    | none => false
    | some groups => !groups.isEmpty) ||
  root.tree.any fun surface =>
    (s.surfaces surface).alive && !(s.surfaces surface).frameCallbacks.isEmpty

/-- The roots somebody claims. -/
def independentFrameRoots : List (SurfaceId × FrameRoot) :=
  (o.arrange 0 s.presentationClaims.roots.keys).filterMap fun id =>
    (s.roots.lookup id).bind fun root =>
      if decide (root.kind ≠ .layer) && s.presented root then some (id, root) else none

/-- The rate of the output a root is on: a popup is where its owner is. -/
def fallbackPresentationRate : PresentationRate :=
  let owner :=
    match (s.roots.lookup surface).map FrameRoot.kind with
    | some (.popup owner) => owner.getD surface
    | _ => surface
  let preferred :=
    match (s.roots.lookup owner).map FrameRoot.kind with
    | some (.toplevel preferred) => preferred
    | _ => s.primaryOutput
  match (s.outputs.lookup preferred).join with
  | none => .hz60
  | some refresh =>
      if h : 1000 ≤ refresh.toNat ∧ refresh.toNat ≤ 1000000 then ⟨refresh.toNat, h⟩ else .hz60

/-! ### Changing the owner of a root -/

/-- Push groups to the list of a root; the list exists from the first push on. -/
def pushIndependent (independent : Dict SurfaceId (List SurfaceCallbacks)) (surface : SurfaceId)
    (groups : List SurfaceCallbacks) : Dict SurfaceId (List SurfaceCallbacks) :=
  groups.foldl (fun independent group =>
      independent.insert surface ((independent.lookup surface).getD [] ++ [group]))
    independent

/-- What is staged for a root is extracted before a native completion can signal it. -/
def extractStaged : Server :=
  let extracted := s.stagedFrameCallbacks.flatMap fun staged =>
    staged.2.filter fun group => group.root = surface
  { s with
    stagedFrameCallbacks := s.stagedFrameCallbacks.map fun staged =>
      (staged.1, staged.2.filter fun group => group.root ≠ surface)
    independentCallbacks := pushIndependent s.independentCallbacks surface extracted }

/-- The oldest callbacks come first in the current state of their surface: the groups are restored
from the last to the first. -/
def restoreIndependent : Server :=
  match s.independentCallbacks.lookup surface with
  | none => s
  | some groups =>
      groups.foldr (fun group s => s.restore group)
        { s with independentCallbacks := s.independentCallbacks.erase surface }

/-- Callbacks that are not staged need native composition, too. -/
def requestHandoff : Server :=
  let pending := (s.mappedFrameRoots (.stored SurfaceId)).any fun found =>
    decide (found.1 = surface) && s.rootHasCallbacks found.1 found.2
  { s with
    presentationRequested := true
    presentationClaims :=
      if pending then
        { s.presentationClaims with
          localHandoffs := insert surface s.presentationClaims.localHandoffs }
      else
        s.presentationClaims }

def transitionCallbackOwner (wasNative : Bool) : Server :=
  let native := s.presentationClaims.native surface
  if wasNative && !native then
    s.extractStaged surface
  else if !wasNative && native then
    (s.restoreIndependent surface).requestHandoff surface
  else
    s

def applyPresentationClaim (owner : ClientSourceId) (update : ClientPresentationUpdate) : Server :=
  if s.acceptsClaims update.surface then
    let wasNative := s.presentationClaims.native update.surface
    { s with presentationClaims := s.presentationClaims.update owner update
      }.transitionCallbackOwner update.surface wasNative
  else
    s

def setLocalPresentation (rate : Option PresentationRate) : Server :=
  if s.acceptsClaims surface then
    let wasNative := s.presentationClaims.native surface
    { s with
      presentationClaims :=
        { s.presentationClaims with
          localRates := s.presentationClaims.localRates.insert surface rate }
      }.transitionCallbackOwner surface wasNative
  else
    s

def takeLocalCallbackDemand : Bool × Server :=
  let (pending, presentationClaims) := s.presentationClaims.takeLocalDemand
  (pending, { s with presentationClaims })

/-! ### Native presentation -/

/-- Take the callbacks of the native ones among the roots. -/
def stageRoots (s : Server) : List (SurfaceId × FrameRoot) →
    (WlSurface → SurfaceState) → List SurfaceCallbacks × (WlSurface → SurfaceState)
  | [], surfaces => ([], surfaces)
  | (id, root) :: roots, surfaces =>
      if s.presentationClaims.native id then
        let taken := takeCallbacks id root.tree surfaces
        let rest := s.stageRoots roots taken.2
        (taken.1 ++ rest.1, rest.2)
      else
        s.stageRoots roots surfaces

def stageFrameCallbacks : ℕ × Server :=
  let presentationId := s.nextPresentationId
  let staged := s.stageRoots (s.mappedFrameRoots o) s.surfaces
  (presentationId, { s with
      presentationRequested := false
      nextPresentationId := min (presentationId + 1) u64Max
      surfaces := staged.2
      stagedFrameCallbacks := s.stagedFrameCallbacks ++ [(presentationId, staged.1)] })

/-- Complete what was staged up to a presentation, from the front of the queue. -/
def completeStaged (presentationId : ℕ) : List (ℕ × List SurfaceCallbacks) → Server → Server
  | [], s => { s with stagedFrameCallbacks := [] }
  | (id, callbacks) :: staged, s =>
      if id ≤ presentationId then
        completeStaged presentationId staged (s.completeAll .nativePresentation callbacks)
      else
        { s with stagedFrameCallbacks := (id, callbacks) :: staged }

def completeFrameCallbacks (presentationId : ℕ) : Server :=
  completeStaged presentationId s.stagedFrameCallbacks s

/-! ### The timer of the adapters -/

def independentCallbackTimeout (now : Instant) : Option Duration :=
  (((s.independentFrameRoots o).filter fun found => s.rootHasCallbacks found.1 found.2).filterMap
    fun found =>
      s.presentationClaims.timeout found.1 (s.fallbackPresentationRate found.1) now).min?

def due (now : Instant) : List (SurfaceId × FrameRoot) :=
  (s.independentFrameRoots o).filter fun found =>
    s.rootHasCallbacks found.1 found.2 &&
      decide (s.presentationClaims.timeout found.1 (s.fallbackPresentationRate found.1) now = some 0)

def serviceRoot (now : Instant) (found : SurfaceId × FrameRoot) : Server :=
  let waiting := (s.independentCallbacks.lookup found.1).getD []
  let taken := takeCallbacks found.1 found.2.tree s.surfaces
  let done := { s with
    independentCallbacks := s.independentCallbacks.erase found.1
    surfaces := taken.2 }.completeAll .independentTimer (waiting ++ taken.1)
  { done with presentationClaims := done.presentationClaims.completed found.1 now }

def serviceIndependentCallbacks (now : Instant) : Server :=
  (s.due o now).foldl (fun s found => s.serviceRoot now found) s

/-! ### Destruction -/

/-- The claims and the callbacks of a destroyed root go with it. -/
def forgetPresentation : Server :=
  let independent := (s.independentCallbacks.lookup surface).getD []
  let staged := s.stagedFrameCallbacks.flatMap fun staged =>
    staged.2.filter fun group => group.root = surface
  { s with
    presentationClaims := s.presentationClaims.forget surface
    independentCallbacks := s.independentCallbacks.erase surface
    stagedFrameCallbacks := s.stagedFrameCallbacks.map fun staged =>
      (staged.1, staged.2.filter fun group => group.root ≠ surface)
    losses := s.losses ++ (independent ++ staged).flatMap lossesOf }

/-- The role of a root is destroyed: the root leaves its store and is forgotten. -/
def retire (id : SurfaceId) : Server :=
  if id ∈ s.roots then
    { s with
      roots := s.roots.erase id
      homes := fun surface => if s.homes surface = some id then none else s.homes surface
      forgotten := insert id s.forgotten }.forgetPresentation id
  else
    s

/-- A surface is destroyed with the callbacks of its current state. -/
def kill (surface : WlSurface) : Server :=
  { s with
    surfaces := Function.update s.surfaces surface { alive := false, frameCallbacks := [] }
    losses := s.losses ++ (s.surfaces surface).frameCallbacks.map fun callback =>
      ⟨none, surface, callback⟩ }

/-! ### Clients -/

/-- A commit applies the callbacks that were asked for since the one before. -/
def commit (surface : WlSurface) (callbacks : ℕ) : Server :=
  if (s.surfaces surface).alive then
    { s with
      surfaces := Function.update s.surfaces surface
        { s.surfaces surface with
          frameCallbacks := (s.surfaces surface).frameCallbacks ++
            List.range' (s.committed surface) callbacks }
      committed := Function.update s.committed surface (s.committed surface + callbacks) }
  else
    s

/-- Identities are unique in the process, and a surface has one role at a time. -/
def create (id : SurfaceId) (kind : RootKind) (surface : WlSurface) : Server :=
  if id ∉ s.roots ∧ id ∉ s.forgotten ∧ s.homes surface = none then
    { s with
      roots := s.roots.insert id { kind, surface, tree := [surface] }
      homes := Function.update s.homes surface (some id) }
  else
    s

/-- A surface joins the tree of a root; it does not leave one root for another. -/
def attach (id : SurfaceId) (surface : WlSurface) : Server :=
  if id ∈ s.roots ∧ (s.homes surface = none ∨ s.homes surface = some id) then
    { s with
      roots := s.roots.modify id fun root => { root with tree := root.tree ++ [surface] }
      homes := Function.update s.homes surface (some id) }
  else
    s

end Server

/-! ### Runs -/

inductive Event
  | commit (surface : WlSurface) (callbacks : ℕ)
  | claim (owner : ClientSourceId) (update : ClientPresentationUpdate)
  | setLocal (surface : SurfaceId) (rate : Option PresentationRate)
  | takeLocalDemand
  | stage (order : IterationOrder SurfaceId)
  | complete (presentationId : ℕ)
  | service (elapsed : Duration) (order : IterationOrder SurfaceId)
  | create (id : SurfaceId) (kind : RootKind) (surface : WlSurface)
  | attach (id : SurfaceId) (surface : WlSurface)
  | detach (id : SurfaceId) (surface : WlSurface)
  | setMapped (id : SurfaceId) (clientMapped : Bool)
  | setPreferred (id : SurfaceId) (preferred : OutputId)
  | setMode (output : OutputId) (refresh : Option ℤ)
  | removeOutput (output : OutputId)
  | closeRole (id : SurfaceId)
  | retire (id : SurfaceId)
  | kill (surface : WlSurface)

def FrameRoot.setPreferred (root : FrameRoot) (preferred : OutputId) : FrameRoot :=
  match root.kind with
  | .toplevel _ => { root with kind := .toplevel preferred }
  | _ => root

def step (s : Server) : Event → Server
  | .commit surface callbacks => s.commit surface callbacks
  | .claim owner update => s.applyPresentationClaim owner update
  | .setLocal surface rate => s.setLocalPresentation surface rate
  | .takeLocalDemand => s.takeLocalCallbackDemand.2
  | .stage order => (s.stageFrameCallbacks order).2
  | .complete presentationId => s.completeFrameCallbacks presentationId
  | .service elapsed order =>
      { s with clock := s.clock + elapsed }.serviceIndependentCallbacks order (s.clock + elapsed)
  | .create id kind surface => s.create id kind surface
  | .attach id surface => s.attach id surface
  | .detach id surface =>
      { s with
        roots := s.roots.modify id fun root =>
          { root with tree := root.tree.filter fun other => other ≠ surface } }
  | .setMapped id clientMapped =>
      { s with roots := s.roots.modify id fun root => { root with clientMapped } }
  | .setPreferred id preferred =>
      { s with roots := s.roots.modify id fun root => root.setPreferred preferred }
  | .setMode output refresh => { s with outputs := s.outputs.insert output refresh }
  | .removeOutput output => { s with outputs := s.outputs.erase output }
  | .closeRole id => { s with roots := s.roots.modify id fun root => { root with roleAlive := false } }
  | .retire id => s.retire id
  | .kill surface => s.kill surface

end FrameCallbacks
