/-
**The world of the tiler.**

`weld-tile` keeps the layout of every workspace as a tree.  A container lists its children, with their
weights, and every node but a root knows its parent; both are components of entities.  A handler edits
what is there at once, and defers what it spawns, inserts or despawns: the deferred commands are carried
out in order when the handler is done.  What the commands trigger (focus, geometry) comes after the edit
and is kept as a list of events.

The history of the focus is one list for all levels.  Of the children of a container, the one that comes
first in the history is active.

Weights and coordinates are `f32` in the source; here they are rational numbers, so they are finite.

Main definitions: `TileContainer`, `TileWorld`, `Deferred`, `TileWorld.flush`, `activeChild`,
`wrapHistory`, `replaceHistory`, `expandHistory`, `TileWorld.depth`, `height`, `rootOf`, `chain`,
`TileWorld.retireEmpty`, `TileWorld.createContainer`, `TileWorld.branchVisible`.
-/

import Mathlib.Algebra.GroupWithZero.Nat
import Mathlib.Algebra.Ring.Rat

namespace Tile

/-- Entities are numbered in the order in which they are spawned. -/
abbrev Entity := ℕ

/-- The deepest tree. -/
def maxDepth : ℕ := 64

def u64Max : ℕ := 2 ^ 64 - 1

/-! ### Components -/

inductive SplitAxis
  | horizontal
  | vertical
  deriving DecidableEq, Repr

/-- How the children of a container are placed. -/
inductive TileLayout
  | split (axis : SplitAxis)
  | tabbed
  | stacked
  deriving DecidableEq, Repr

namespace TileLayout

def axis : TileLayout → SplitAxis
  | split axis => axis
  | tabbed => .horizontal
  | stacked => .vertical

def isSplit : TileLayout → Bool
  | split _ => true
  | tabbed => false
  | stacked => false

end TileLayout

structure TileChild where
  entity : Entity
  weight : ℚ
  deriving DecidableEq, Repr

structure TileContainer where
  id : ℕ
  axis : SplitAxis
  layout : TileLayout
  children : List TileChild
  /-- The child for which an explicit split waits for its second child. -/
  preparedSplit : Option Entity := none
  deriving DecidableEq, Repr

namespace TileContainer

/-- A layout that is a split is remembered as the last axis. -/
def setLayout (container : TileContainer) (layout : TileLayout) : TileContainer :=
  match layout with
  | .split axis => { container with axis, layout, preparedSplit := none }
  | _ => { container with layout, preparedSplit := none }

def entities (container : TileContainer) : List Entity := container.children.map TileChild.entity

/-- The sum of the weights of the children. -/
def total (container : TileContainer) : ℚ := (container.children.map TileChild.weight).sum

end TileContainer

structure WindowGeometry where
  x : ℚ := 0
  y : ℚ := 0
  width : ℚ := 0
  height : ℚ := 0
  deriving DecidableEq, Repr

/-- Where a window was before it floated. -/
structure SavedTileSlot where
  parent : Entity
  index : ℕ
  weight : ℚ
  deriving DecidableEq, Repr

inductive WindowVisibility
  | visible
  | hidden
  deriving DecidableEq, Repr

/-- The components of a window that the tiler reads or writes. -/
structure WindowComponents where
  managed : Bool := false
  managedBy : Option Entity := none
  member : Option Entity := none
  output : Option Entity := none
  visibility : Option WindowVisibility := none
  floating : Bool := false
  fullscreen : Bool := false
  zOrder : Option ℤ := none
  pendingDialogPlacement : Bool := false
  geometry : Option WindowGeometry := none
  slot : Option SavedTileSlot := none
  savedGeometry : Option WindowGeometry := none
  deriving DecidableEq, Repr

structure Workspace where
  visible : Bool
  output : Option Entity
  deriving DecidableEq, Repr

/-- What a handler triggers. -/
inductive TileEvent
  | treeChanged
  | layoutRequested
  | endInteraction (window : Entity)
  | memberMoved (window previous : Entity)
  deriving DecidableEq, Repr

/-! ### The world -/

/-- A command that waits for the end of the handler. -/
inductive Deferred
  | spawn (node : Entity) (container : TileContainer)
  | insertParent (node parent : Entity)
  | insertRect (node : Entity)
  | modifyContainer (node : Entity) (f : TileContainer → TileContainer)
  | modifyWindow (window : Entity) (f : WindowComponents → WindowComponents)
  | removeTiled (node : Entity)
  | despawn (node : Entity)
  | trigger (event : TileEvent)

/-- The components of all entities, and the resources. -/
structure TileWorld where
  containers : Entity → Option TileContainer := fun _ => none
  parents : Entity → Option Entity := fun _ => none
  /-- The workspaces whose layout the tiler owns. -/
  roots : List Entity := []
  workspaces : Entity → Option Workspace := fun _ => none
  windows : Entity → WindowComponents := fun _ => {}
  rects : Entity → Option WindowGeometry := fun _ => none
  history : List Entity := []
  nextId : ℕ := 0
  /-- The entity that is spawned next. -/
  spawned : Entity := 0
  focus : Option Entity := none
  dirty : Bool := false
  commands : List Deferred := []
  events : List TileEvent := []

namespace TileWorld

/-- A container is changed at once, if it is there. -/
def modifyContainer (s : TileWorld) (node : Entity) (f : TileContainer → TileContainer) : TileWorld :=
  { s with containers := Function.update s.containers node ((s.containers node).map f) }

/-- An edge to the parent is changed at once, if there is one. -/
def setParent (s : TileWorld) (node parent : Entity) : TileWorld :=
  { s with parents := Function.update s.parents node ((s.parents node).map fun _ => parent) }

def defer (s : TileWorld) (command : Deferred) : TileWorld :=
  { s with commands := s.commands ++ [command] }

def markDirty (s : TileWorld) : TileWorld := { s with dirty := true }

end TileWorld

/-- What a command does. -/
def Deferred.apply (s : TileWorld) : Deferred → TileWorld
  | .spawn node container =>
      { s with
        containers := Function.update s.containers node (some container)
        rects := Function.update s.rects node (some {}) }
  | .insertParent node parent => { s with parents := Function.update s.parents node (some parent) }
  | .insertRect node => { s with rects := Function.update s.rects node (some {}) }
  | .modifyContainer node f => s.modifyContainer node f
  | .modifyWindow window f =>
      { s with windows := Function.update s.windows window (f (s.windows window)) }
  | .removeTiled node =>
      { s with
        parents := Function.update s.parents node none
        rects := Function.update s.rects node none }
  | .despawn node =>
      { s with
        containers := Function.update s.containers node none
        parents := Function.update s.parents node none
        rects := Function.update s.rects node none
        windows := Function.update s.windows node {}
        workspaces := Function.update s.workspaces node none
        roots := s.roots.filter (· ≠ node) }
  | .trigger event => { s with events := s.events ++ [event] }

/-- The handler is done: its commands are carried out in order. -/
def TileWorld.flush (s : TileWorld) : TileWorld :=
  s.commands.foldl Deferred.apply { s with commands := [] }

/-! ### The history of the focus -/

/-- The last child that was selected; the first one, if none was. -/
def activeChild (history : List Entity) (container : TileContainer) : Option Entity :=
  (history.find? (· ∈ container.entities)).or container.entities.head?

/-- A container is recorded in front of the child that it wraps. -/
def wrapHistory (history : List Entity) (child container : Entity) : List Entity :=
  match history.findIdx? (· = child) with
  | some index => history.insertIdx index container
  | none => history

/-- A child that is promoted takes the place of the branch that is collapsed. -/
def replaceHistory (history : List Entity) (old : Entity) (replacement : Option Entity) : List Entity :=
  match history.findIdx? (· = old) with
  | none => history
  | some index =>
      let insertion := ((history.take index).filter fun node => some node ≠ replacement).length
      let kept := history.filter fun node => node ≠ old ∧ some node ≠ replacement
      match replacement with
      | some replacement => kept.insertIdx insertion replacement
      | none => kept

/-- Children that are promoted together take the place of their group. -/
def expandHistory (history : List Entity) (old : Entity) (children : List Entity) : List Entity :=
  match history.findIdx? (· = old) with
  | none => history
  | some index =>
      let insertion := ((history.take index).filter (· ∉ children)).length
      let recorded := history.filter (· ∈ children)
      let ordered := children.foldl (fun ordered child =>
        if child ∈ ordered then ordered else ordered ++ [child]) recorded
      let kept := history.filter fun node => node ≠ old ∧ node ∉ children
      kept.take insertion ++ ordered ++ kept.drop insertion

namespace TileWorld

/-! ### What an edit checks -/

/-- The node and its ancestors, up to the one that has no parent. -/
def chain (s : TileWorld) : ℕ → Entity → Option (List Entity)
  | 0, _ => none
  | fuel + 1, node =>
      match s.parents node with
      | none => some [node]
      | some parent => (s.chain fuel parent).map (node :: ·)

variable (s : TileWorld)

/-- The loop over the ancestors; in a well-formed tree it ends at a root within these steps. -/
def ancestry (node : Entity) : Option (List Entity) := s.chain (maxDepth + 1) node

/-- The parent, if it is a container that lists the node. -/
def edge (node : Entity) : Option Entity :=
  match s.parents node with
  | none => none
  | some parent =>
      match s.containers parent with
      | none => none
      | some container => if node ∈ container.entities then some parent else none

/-- Ancestry is validated in both directions, level by level. -/
def depthFrom (s : TileWorld) : ℕ → Entity → ℕ → Option ℕ
  | 0, node, depth => if node ∈ s.roots then some depth else none
  | remaining + 1, node, depth =>
      if node ∈ s.roots then some depth
      else
        match s.edge node with
        | some parent => s.depthFrom remaining parent (depth + 1)
        | none => none

def depth (node : Entity) : Option ℕ := s.depthFrom maxDepth node 0

/-- The root above a node, with the same validation. -/
def rootFrom (s : TileWorld) : ℕ → Entity → Option Entity
  | 0, _ => none
  | remaining + 1, node =>
      if node ∈ s.roots then some node
      else
        match s.edge node with
        | some parent => s.rootFrom remaining parent
        | none => none

def rootOf (node : Entity) : Option Entity := s.rootFrom (maxDepth + 1) node

/-- The node at the top, if the ancestry is valid. -/
def root (node : Entity) : Option Entity :=
  match s.depth node with
  | none => none
  | some _ => (s.ancestry node).bind List.getLast?

/-- A leaf is a managed window that belongs to its own root. -/
def ownedLeaf (node : Entity) : Bool :=
  match (s.windows node).managed, (s.windows node).managedBy with
  | true, some owner => owner ∈ s.roots ∧ s.root node = some owner
  | _, _ => false

/-- The levels of containers below a node, if all edges, weights and leaves are valid. -/
def height (s : TileWorld) : ℕ → Entity → Option ℕ
  | remaining, node =>
      match s.containers node with
      | none => if s.ownedLeaf node then some 0 else none
      | some container =>
          match remaining with
          | 0 => none
          | remaining + 1 =>
              (container.children.foldlM (fun height child =>
                if 0 < child.weight ∧ s.parents child.entity = some node then
                  (s.height remaining child.entity).map (max height)
                else none) 0).map (· + 1)

/-! ### What edits share -/

/-- A new container, spawned when the handler is done. -/
def createContainer (axis : SplitAxis) (children : List TileChild) : Option (Entity × TileWorld) :=
  if s.nextId < u64Max then
    some (s.spawned, { s with
        nextId := s.nextId + 1
        dirty := true
        spawned := s.spawned + 1
        commands := s.commands ++
          [.spawn s.spawned { id := s.nextId, axis, layout := .split axis, children }] })
  else none

/-- The tree has changed, and has to be laid out. -/
def publish : TileWorld :=
  (s.markDirty.defer (.trigger .treeChanged)).defer (.trigger .layoutRequested)

/-- Containers that are empty are retired, from a node upwards to one that is kept. -/
def retireEmpty (kept : Entity → Bool) : ℕ → TileWorld → Entity → TileWorld
  | 0, s, _ => s
  | fuel + 1, s, node =>
      if kept node then s
      else
        match s.containers node, s.parents node with
        | some container, some parent =>
            if container.children = [] then
              let s := s.modifyContainer parent fun outer =>
                { outer with children := outer.children.filter (·.entity ≠ node) }
              let s := { s with history := replaceHistory s.history node none }
              retireEmpty kept fuel (s.defer (.despawn node)) parent
            else s
        | _, _ => s

/-- `operations.rs`: the root of the workspace is kept. -/
def retireEmptyAncestors (node root : Entity) : TileWorld :=
  retireEmpty (fun other => other = root) (maxDepth + 1) s node

/-- `structural.rs`: every root is kept. -/
def removeEmptyAncestors (node : Entity) : TileWorld :=
  retireEmpty (fun other => other ∈ s.roots) (maxDepth + 1) s node

/-! ### What is shown -/

/-- In a container that shows one child, every node on the way has to be the active one. -/
def branchVisibleFrom (s : TileWorld) : ℕ → Entity → Bool
  | 0, _ => false
  | remaining + 1, node =>
      match s.parents node with
      | none => true
      | some parent =>
          match s.containers parent with
          | none => false
          | some container =>
              (container.layout.isSplit || activeChild s.history container = some node) &&
                s.branchVisibleFrom remaining parent

def branchVisible (node : Entity) : Bool := s.branchVisibleFrom (maxDepth + 1) node

end TileWorld

end Tile
