/-
**The surface tree of a window.**

A client builds a window from a root surface and subsurfaces below and above it.  When it commits,
the compositor walks the tree from the bottom up, takes what every surface was given since the last
time, imports the buffers, and describes the result in one snapshot: the layers that have pixels,
and where the root, what is above it and what takes input are placed.  A layer keeps its pixels from
one snapshot to the next, and is then listed as retained.

The surfaces of a tree are distinct, and positions are unbounded.  What a surface was given belongs
to the surface: the walk takes it away.  The feedback that clients asked for is kept beside the
surfaces, as it is taken when the snapshot is made.

Main definitions: `Tree.visits`, `SurfaceTreeState`, `Turn.applyCommit`,
`SurfaceTreeState.snapshot`, `SurfaceTreeState.update`, `SurfaceTreeState.removeSurface`,
`releaseUntrackedSurfaceTree`.
-/

import Weld.ClientBuffers
import Mathlib.Data.List.Sort

namespace SurfaceTree

open Client

/-- An object a client asked for on a surface, to learn when its commit was shown. -/
structure FeedbackCallback where
  surface : ObjectId
  number : ℕ
  deriving DecidableEq

/-! ### Input regions -/

inductive RectangleKind
  | add | subtract
  deriving DecidableEq

structure RegionAttributes where
  rects : List (RectangleKind × Rectangle) := []
  deriving DecidableEq

inductive InputRegionUpdate
  | unchanged
  | changed (region : Option RegionAttributes)
  deriving DecidableEq

/-- The rectangles that take input, as the region and the bounds determine them. -/
structure SurfaceInputRegion where
  region : Option RegionAttributes := none
  bounds : Option Rectangle := none
  dirty : Bool := false
  rects : List Rectangle := []
  deriving DecidableEq

def effectiveRegion (smithay : Smithay) (region : RegionAttributes) (bounds : Rectangle) :
    List Rectangle :=
  region.rects.foldl (fun effective (kind, rectangle) =>
      match smithay.intersection bounds rectangle with
      | none => effective
      | some rectangle =>
          match kind with
          | .add => effective ++ [rectangle]
          | .subtract => smithay.subtractRectsMany effective rectangle)
    []

namespace SurfaceInputRegion

def agrees (input : SurfaceInputRegion) (region : Option RegionAttributes) : Bool :=
  match input.region, region with
  | none, none => true
  | some previous, some current =>
      previous.rects.length == current.rects.length &&
        (previous.rects.zip current.rects).all fun (old, new) =>
          old.2 == new.2 && old.1 == new.1
  | _, _ => false

def update (input : SurfaceInputRegion) : InputRegionUpdate → SurfaceInputRegion
  | .unchanged => input
  | .changed region => { input with region, dirty := true }

def refresh (smithay : Smithay) (input : SurfaceInputRegion) (bounds : Option Rectangle) :
    SurfaceInputRegion :=
  if !input.dirty && input.bounds == bounds then
    input
  else
    { input with
      bounds
      dirty := false
      rects :=
        match bounds, input.region with
        | none, _ => []
        | some bounds, some region => effectiveRegion smithay region bounds
        | some bounds, none => [bounds] }

end SurfaceInputRegion

/-! ### Trees -/

/-- The current state of a surface.  A buffer and its points are there until somebody takes them. -/
structure Surface where
  objectId : ObjectId
  isSubsurface : Bool := false
  location : Point := {}
  assignment : Option BufferAssignment := none
  acquirePoint : Option DrmSyncPoint := none
  releasePoint : Option DrmSyncPoint := none
  bufferScale : ℤ := 1
  bufferTransform : Transform := .normal
  inputRegion : Option RegionAttributes := none
  viewport : ViewportCachedState := {}
  deriving DecidableEq

/-- A surface from which everything has been taken. -/
def Surface.drained (surface : Surface) : Surface :=
  { surface with assignment := none, acquirePoint := none, releasePoint := none }

def surfaceOffset (surface : Surface) : Point :=
  if surface.isSubsurface then surface.location else {}

/-- A surface with the trees stacked below and above it, from the bottom up. -/
inductive Tree
  | node (surface : Surface) (below above : List Tree)

structure TraversalContext where
  position : Point := {}
  parent : Option ObjectId := none
  deriving DecidableEq

/-- A surface met on a walk, and what its parent passed down. -/
structure Visit where
  surface : Surface
  context : TraversalContext

def TraversalContext.descend (context : TraversalContext) (surface : Surface) :
    TraversalContext where
  position := context.position.add (surfaceOffset surface)
  parent := some surface.objectId

namespace Tree

def root : Tree → Surface
  | node surface _ _ => surface

mutual

/-- The walk from the bottom up. -/
def visits (context : TraversalContext) : Tree → List Visit
  | node surface below above =>
      visitsAll (context.descend surface) below ++
        ⟨surface, context⟩ :: visitsAll (context.descend surface) above

def visitsAll (context : TraversalContext) : List Tree → List Visit
  | [] => []
  | tree :: trees => visits context tree ++ visitsAll context trees

end

mutual

/-- The tree after somebody took everything its surfaces were given. -/
def drain : Tree → Tree
  | node surface below above => node surface.drained (drainAll below) (drainAll above)

def drainAll : List Tree → List Tree
  | [] => []
  | tree :: trees => drain tree :: drainAll trees

end

/-- The surfaces of the tree, from the bottom up. -/
def surfaces (tree : Tree) : List Surface := (tree.visits {}).map Visit.surface

end Tree

/-- A tree as the protocol library keeps it: no surface is in two places. -/
structure ClientTree where
  tree : Tree
  distinct : (tree.surfaces.map Surface.objectId).Nodup

/-! ### State -/

structure TreeNode where
  objectId : ObjectId
  parent : Option ObjectId
  position : Point
  deriving DecidableEq

structure CommittedNode where
  node : TreeNode
  assignment : Option BufferAssignment
  releasePoint : Option DrmSyncPoint
  bufferScale : ℤ
  bufferTransform : Transform
  inputRegion : InputRegionUpdate
  /-- Read from the surface when the node is applied. -/
  viewport : ViewportCachedState
  deriving DecidableEq

structure CachedSurfaceBuffer where
  layer : SurfaceLayerId
  metadata : Option SurfaceBufferMetadata := none
  view : Option SurfaceContentView := none
  isOpaque : Bool := false
  clientMapped : Bool := false
  input : SurfaceInputRegion := {}
  deriving DecidableEq

structure SurfaceTreeState where
  shmOnly : Bool := false
  buffers : Dict ObjectId CachedSurfaceBuffer := ∅
  nodes : List TreeNode := []
  rootGeometry : Option Rectangle := none
  nextLayerId : Option ℕ := some 1

structure PendingSurfaceBufferUpdate where
  layer : SurfaceLayerId
  width : ℕ
  height : ℕ
  content : PendingSurfaceBufferContent
  isOpaque : Bool
  deriving DecidableEq

structure PendingSurfaceTreeSnapshot where
  feedback : List (SurfaceLayerId × List FeedbackCallback) := []
  clientMapped : Bool := false
  root : Option SurfaceLayerPlacement := none
  windowGeometry : Option SurfaceWindowGeometry := none
  overlays : List SurfaceLayerPlacement := []
  inputs : List SurfaceInputPlacement := []
  buffers : List PendingSurfaceBufferUpdate := []
  deriving DecidableEq

/-- The layers a snapshot lists. -/
def PendingSurfaceTreeSnapshot.layers (snapshot : PendingSurfaceTreeSnapshot) :
    List SurfaceLayerId :=
  snapshot.buffers.map PendingSurfaceBufferUpdate.layer

/-! ### Committing a surface -/

/-- A new scale or transform applies to the buffer a surface has; an invalid one is ignored. -/
def CachedSurfaceBuffer.rescale (smithay : Smithay) (cached : CachedSurfaceBuffer)
    (viewport : ViewportCachedState) (bufferScale : ℤ) (bufferTransform : Transform) :
    CachedSurfaceBuffer :=
  match cached.metadata with
  | none => cached
  | some previous =>
      match checkedBufferScale bufferScale with
      | .error _ => cached
      | .ok scale =>
          let metadata := { previous with scale, transform := bufferTransform }
          match surfaceContentView smithay viewport metadata with
          | .error _ => cached
          | .ok view => { cached with metadata := some metadata, view := some view }

def CachedSurfaceBuffer.accept (cached : CachedSurfaceBuffer) (imported : ImportedBuffer) :
    CachedSurfaceBuffer :=
  { cached with
    clientMapped := true
    metadata := some imported.metadata
    view := some imported.view
    isOpaque := imported.isOpaque }

/-- The surface stays or becomes mapped, but has nothing to show. -/
def CachedSurfaceBuffer.clear (cached : CachedSurfaceBuffer) (clientMapped : Bool) :
    CachedSurfaceBuffer :=
  { cached with clientMapped, metadata := none, view := none }

namespace SurfaceTreeState

variable (s : SurfaceTreeState)

def clientMapped (id : ObjectId) : Bool :=
  match s.buffers.lookup id with
  | none => false
  | some buffer => buffer.clientMapped

def layerOf (id : ObjectId) : Option SurfaceLayerId :=
  (s.buffers.lookup id).map CachedSurfaceBuffer.layer

/-- The layer of a surface; a surface without one gets the next, unless they ran out. -/
def layerFor (id : ObjectId) (releases : Releases) :
    Option SurfaceLayerId × SurfaceTreeState × Releases :=
  match s.buffers.lookup id with
  | some buffer => (some buffer.layer, s, releases)
  | none =>
      match s.nextLayerId with
      | none => (none, s, releases)
      | some raw =>
          (some raw, { s with
              nextLayerId := Hoist.checkedSucc raw
              buffers := s.buffers.insert id { layer := raw } },
            releases.record (.allocated id raw))

def modify (id : ObjectId) (f : CachedSurfaceBuffer → CachedSurfaceBuffer) : SurfaceTreeState :=
  { s with buffers := s.buffers.modify id f }

def committedNode (visit : Visit) : CommittedNode where
  node :=
    { objectId := visit.surface.objectId
      parent := visit.context.parent
      position := visit.context.position.add (surfaceOffset visit.surface) }
  assignment := visit.surface.assignment
  releasePoint := visit.surface.releasePoint
  bufferScale := visit.surface.bufferScale
  bufferTransform := visit.surface.bufferTransform
  inputRegion :=
    match s.buffers.lookup visit.surface.objectId with
    | none => .changed visit.surface.inputRegion
    | some cached =>
        if cached.input.agrees visit.surface.inputRegion then .unchanged
        else .changed visit.surface.inputRegion
  viewport := visit.surface.viewport

end SurfaceTreeState

/-- An update in progress: the state, what was done so far, and the new contents. -/
structure Turn where
  tree : SurfaceTreeState
  releases : Releases
  contentUpdates : Dict ObjectId PendingSurfaceBufferContent := ∅

namespace Turn

section

variable (smithay : Smithay)

/-- Show a new buffer on a surface that has a layer. -/
def attach (turn : Turn) (committed : CommittedNode) (buffer : WlBuffer)
    (releasePoint : Option DrmSyncPoint) : Turn :=
  let id := committed.node.objectId
  match importBuffer smithay committed.viewport buffer committed.bufferScale
    committed.bufferTransform releasePoint turn.tree.shmOnly turn.releases with
  | (.ok imported, releases) =>
      { tree := turn.tree.modify id fun cached => cached.accept imported
        releases := releases.record (.imported id buffer imported)
        contentUpdates := turn.contentUpdates.insert id imported.content }
  | (.error _, releases) =>
      { turn with tree := turn.tree.modify id fun cached => cached.clear true, releases }

/-- The commit of a surface that has a layer. -/
def applyLayered (turn : Turn) (committed : CommittedNode) : Turn :=
  let id := committed.node.objectId
  let tree := turn.tree.modify id fun cached =>
    { cached with input := cached.input.update committed.inputRegion }
  let (releasePoint, releases) := retainReleaseForImport committed.releasePoint
    (attachedBuffer committed.assignment).isSome turn.releases
  let turn : Turn := { turn with tree, releases }
  match committed.assignment with
  | some (.newBuffer buffer) => turn.attach smithay committed buffer releasePoint
  | some .removed =>
      { turn with tree := turn.tree.modify id fun cached => cached.clear false }
  | none =>
      { turn with
        tree := turn.tree.modify id fun cached =>
          cached.rescale smithay committed.viewport committed.bufferScale
            committed.bufferTransform }

def applyCommit (turn : Turn) (committed : CommittedNode) : Turn :=
  match turn.tree.layerFor committed.node.objectId turn.releases with
  | (none, tree, releases) =>
      { turn with
        tree
        releases :=
          releaseWithoutSampling committed.assignment committed.releasePoint releases }
  | (some _, tree, releases) =>
      ({ turn with tree, releases } : Turn).applyLayered smithay committed

def pushNode (turn : Turn) (node : TreeNode) : Turn :=
  { turn with tree := { turn.tree with nodes := turn.tree.nodes ++ [node] } }

def commit (turn : Turn) (committed : CommittedNode) : Turn :=
  (turn.applyCommit smithay committed).pushNode committed.node

end

end Turn

/-! ### Snapshots -/

/-- The feedback taken from the surfaces of a tree, and what is left on all surfaces. -/
structure TakenFeedback where
  carried : List (SurfaceLayerId × List FeedbackCallback) := []
  dropped : List FeedbackCallback := []
  feedback : ObjectId → List FeedbackCallback

namespace SurfaceTreeState

variable (s : SurfaceTreeState)

/-- Where the walk up a tree goes on from a surface. -/
def parentOf (id : ObjectId) : Option ObjectId :=
  (s.nodes.find? fun candidate => candidate.objectId = id).bind TreeNode.parent

/-- Whether the surfaces from here up to the end of the walk are mapped. -/
def visibleFrom (s : SurfaceTreeState) : ℕ → Option ObjectId → Bool
  | _, none => true
  | 0, some _ => false
  | fuel + 1, some id => s.clientMapped id && s.visibleFrom fuel (s.parentOf id)

/-- A walk that does not repeat a surface takes one step for each at most. -/
def protocolVisible (node : TreeNode) : Bool :=
  s.visibleFrom s.nodes.length (some node.objectId)

def positionOf (position : Point) : LogicalPoint := ⟨.ofI32 position.x, .ofI32 position.y⟩

def placement (id : ObjectId) (position : Point) : Option SurfaceLayerPlacement := do
  let cached ← s.buffers.lookup id
  let view ← cached.view
  return { layer := cached.layer, position := positionOf position, view }

def inputPlacement (node : TreeNode) : Option SurfaceInputPlacement := do
  let cached ← s.buffers.lookup node.objectId
  let _ ← cached.view
  return {
    layer := cached.layer
    position := positionOf node.position
    regions := cached.input.rects.map fun rectangle =>
      { position := positionOf rectangle.loc
        size := ⟨.ofI32 rectangle.size.w, .ofI32 rectangle.size.h⟩ } }

def logicalViewBounds (view : SurfaceContentView) : Rectangle :=
  ⟨{}, ⟨view.logicalWidth.ceil.toI32, view.logicalHeight.ceil.toI32⟩⟩

def displayedRootBounds (view : SurfaceContentView) (geometry : Option Rectangle) : Rectangle :=
  let (displayed, origin) := cropRootView view geometry
  ⟨⟨origin.x.toI32, origin.y.toI32⟩,
    ⟨displayed.logicalWidth.ceil.toI32, displayed.logicalHeight.ceil.toI32⟩⟩

/-- Without a region of its own the root takes input where it is displayed. -/
def inputBounds (rootId id : ObjectId) (cached : CachedSurfaceBuffer) : Option Rectangle :=
  cached.view.map fun view =>
    if cached.input.region.isNone && id == rootId then displayedRootBounds view s.rootGeometry
    else logicalViewBounds view

def refreshInputRects (smithay : Smithay) (s : SurfaceTreeState) (rootId : ObjectId) :
    SurfaceTreeState :=
  s.nodes.foldl (fun s node => s.modify node.objectId fun cached =>
      { cached with
        input := cached.input.refresh smithay (s.inputBounds rootId node.objectId cached) })
    s

/-- What is listed for a node; its new content is used up. -/
def bufferUpdates (s : SurfaceTreeState) :
    List TreeNode → Dict ObjectId PendingSurfaceBufferContent → List PendingSurfaceBufferUpdate
  | [], _ => []
  | node :: nodes, contentUpdates =>
      let listed := do
        let cached ← s.buffers.lookup node.objectId
        let metadata ← cached.metadata
        let _ ← cached.view
        return (cached, metadata)
      match listed with
      | none => s.bufferUpdates nodes contentUpdates
      | some (cached, metadata) =>
          { layer := cached.layer
            width := metadata.width
            height := metadata.height
            content := (contentUpdates.lookup node.objectId).getD .retained
            isOpaque := cached.isOpaque } ::
            s.bufferUpdates nodes (contentUpdates.erase node.objectId)

/-- The feedback of a node is taken whether or not the snapshot carries it; what it does not carry
is dropped. -/
def takeFeedback (s : SurfaceTreeState) (shown : ℕ → TreeNode → Bool) :
    List (TreeNode × ℕ) → (ObjectId → List FeedbackCallback) → TakenFeedback
  | [], feedback => { feedback }
  | (node, index) :: nodes, feedback =>
      let pending := feedback node.objectId
      let rest := s.takeFeedback shown nodes (Function.update feedback node.objectId [])
      match s.layerOf node.objectId with
      | some layer =>
          if shown index node && !pending.isEmpty then
            { rest with carried := (layer, pending) :: rest.carried }
          else
            { rest with dropped := pending ++ rest.dropped }
      | none => { rest with dropped := pending ++ rest.dropped }

def rootIndex (rootId : ObjectId) : Option ℕ :=
  s.nodes.findIdx? fun node => node.objectId = rootId

/-- The nodes from the root on, in the order of the walk. -/
def fromRoot (rootId : ObjectId) : List TreeNode :=
  match s.rootIndex rootId with
  | none => []
  | some index => s.nodes.drop index

/-- The nodes above the root, in the order of the walk. -/
def aboveRoot (rootId : ObjectId) : List TreeNode :=
  match s.rootIndex rootId with
  | none => []
  | some index => s.nodes.drop (index + 1)

def snapshot (rootId : ObjectId)
    (contentUpdates : Dict ObjectId PendingSurfaceBufferContent)
    (feedback : ObjectId → List FeedbackCallback) :
    PendingSurfaceTreeSnapshot × TakenFeedback :=
  let clientMapped := s.clientMapped rootId
  let root := s.placement rootId {}
  let windowGeometry := root.map fun root =>
    let (view, origin) := cropRootView root.view s.rootGeometry
    { origin, view }
  let overlays := ((s.aboveRoot rootId).filter s.protocolVisible).filterMap fun node =>
    s.placement node.objectId node.position
  let inputs := ((s.fromRoot rootId).filter s.protocolVisible).filterMap s.inputPlacement
  let buffers := (s.bufferUpdates s.nodes contentUpdates).insertionSort fun a b =>
    a.layer ≤ b.layer
  let shown (index : ℕ) (node : TreeNode) : Bool :=
    clientMapped && (s.rootIndex rootId).any (fun root => root ≤ index) && s.protocolVisible node
  let taken := s.takeFeedback shown s.nodes.zipIdx feedback
  ({ feedback := taken.carried, clientMapped, root, windowGeometry, overlays, inputs, buffers },
    taken)

end SurfaceTreeState

/-! ### Updating and removing -/

/-- What a call leaves behind. -/
structure Outcome where
  tree : SurfaceTreeState
  snapshot : PendingSurfaceTreeSnapshot
  releases : Releases
  /-- What was asked for on surfaces and not taken. -/
  feedback : ObjectId → List FeedbackCallback
  dropped : List FeedbackCallback

namespace SurfaceTreeState

section

variable (smithay : Smithay)

/-- The surfaces that left the tree are forgotten before the others are committed. -/
def begin (s : SurfaceTreeState) (visits : List Visit) (rootGeometry : Option Rectangle) :
    SurfaceTreeState :=
  { s with
    rootGeometry
    buffers := s.buffers.retain fun id _ => id ∈ visits.map fun visit => visit.surface.objectId
    nodes := [] }

/-- Commit the surfaces of a walk. -/
def commitAll (s : SurfaceTreeState) (visits : List Visit) (rootGeometry : Option Rectangle)
    (releases : Releases) : Turn :=
  (visits.map s.committedNode).foldl (Turn.commit smithay)
    { tree := s.begin visits rootGeometry, releases }

/-- The tree is given back as the walk left it. -/
def update (s : SurfaceTreeState) (root : Tree) (rootGeometry : Option Rectangle)
    (releases : Releases) (feedback : ObjectId → List FeedbackCallback) : Outcome × Tree :=
  let turn := s.commitAll smithay (root.visits {}) rootGeometry releases
  let tree := turn.tree.refreshInputRects smithay root.root.objectId
  let (snapshot, taken) := tree.snapshot root.root.objectId turn.contentUpdates feedback
  ({ tree, snapshot, releases := turn.releases, feedback := taken.feedback
     dropped := taken.dropped }, root.drain)

end

/-- The nodes whose parent is among some surfaces, while they are not. -/
def descendants (nodes : List TreeNode) (removed : List ObjectId) : List ObjectId :=
  ((nodes.filter fun node => node.parent.any (· ∈ removed)).map TreeNode.objectId).filter
    (· ∉ removed)

/-- Close a set of surfaces under descending; every round before the last adds a node. -/
def closeRemoved (nodes : List TreeNode) : ℕ → List ObjectId → List ObjectId
  | 0, removed => removed
  | fuel + 1, removed =>
      match descendants nodes removed with
      | [] => removed
      | found => closeRemoved nodes fuel (removed ++ found)

def removeSurface (s : SurfaceTreeState) (rootId removedId : ObjectId) (releases : Releases)
    (feedback : ObjectId → List FeedbackCallback) : Outcome :=
  let removedIds := closeRemoved s.nodes s.nodes.length [removedId]
  let tree :=
    { s with
      nodes := s.nodes.filter fun node => node.objectId ∉ removedIds
      buffers := s.buffers.retain fun id _ => id ∉ removedIds }
  let (snapshot, taken) := tree.snapshot rootId ∅ feedback
  { tree, snapshot, releases, feedback := taken.feedback, dropped := taken.dropped }

end SurfaceTreeState

/-- The buffers and points of a tree nobody shows are given back. -/
def releaseUntrackedSurfaceTree (root : Tree) (releases : Releases) : Releases × Tree :=
  (root.surfaces.foldl (fun releases surface =>
      releaseWithoutSampling surface.assignment surface.releasePoint releases) releases, root.drain)

end SurfaceTree
