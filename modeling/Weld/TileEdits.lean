/-
**Edits of tile trees.**

The edits that policies ask for: a node is split off for the next window, placed beside another node,
the children of a container are wrapped or grouped, a unary container is collapsed or flattened.  An
edit validates membership, ownership, cycles and depth before the first write; one that is refused
changes nothing.

`wrap_children` and `group_children` are one operation with different layouts, `enclose`.

Main definitions: `TileWorld.split`, `TileWorld.place`, `wrapChildren`, `groupChildren`, `collapse`,
`flatten`, `TileTreeEdit`, `TileWorld.applyEdit`.
-/

import Mathlib.Algebra.Order.Ring.Rat
import Weld.TileWorld

namespace Tile

inductive TileSide
  | before
  | after
  deriving DecidableEq, Repr

/-- Structural edits requested by a policy. -/
inductive TileTreeEdit
  | place (node anchor : Entity) (side : TileSide)
  | wrapChildren (container : Entity) (axis : SplitAxis)
  | groupChildren (container : Entity) (layout : TileLayout)
  | collapse (container : Entity)
  | flatten (container : Entity)
  deriving DecidableEq, Repr

/-- The edge to a node, at its index in a list of children. -/
def position (children : List TileChild) (node : Entity) : Option (ℕ × TileChild) :=
  match children.findIdx? (·.entity = node) with
  | none => none
  | some index => (children[index]?).map (index, ·)

/-- The first edge to a node leads to another one. -/
def redirect : List TileChild → Entity → Entity → List TileChild
  | [], _, _ => []
  | child :: children, node, other =>
      if child.entity = node then { child with entity := other } :: children
      else child :: redirect children node other

/-- The mean weight of the children. -/
def meanWeight (container : TileContainer) : ℚ := container.total / container.children.length

namespace TileWorld

/-! ### A split -/

/-- Everything below a node stays within the depth that is left. -/
def withinDepth (s : TileWorld) : ℕ → Entity → Bool
  | 0, _ => false
  | remaining + 1, node =>
      match s.containers node with
      | none => true
      | some container => container.children.all fun child => s.withinDepth remaining child.entity

variable (s : TileWorld)

/-- A unary split waits for its second child along the axis. -/
def prepare (parent window : Entity) (axis : SplitAxis) : TileWorld :=
  (s.modifyContainer parent fun container =>
    { container.setLayout (.split axis) with preparedSplit := some window }).markDirty

/-- A new container takes the place of the window, and holds it. -/
def nest (parent window : Entity) (axis : SplitAxis) : TileWorld :=
  match s.createContainer axis [⟨window, 1⟩] with
  | none => s
  | some (nested, s) =>
      let s := { s with history := wrapHistory s.history window nested }
      let s := s.defer (.insertParent nested parent)
      let s := s.defer (.modifyContainer nested fun container =>
        { container with preparedSplit := some window })
      let s := s.modifyContainer parent fun container =>
        { container with children := redirect container.children window nested }
      s.setParent window nested

def split (window : Entity) (axis : SplitAxis) : TileWorld :=
  if window ∈ s.roots then
    match s.containers window with
    | none => s
    | some _ => (s.modifyContainer window fun container =>
        { container.setLayout (.split axis) with preparedSplit := container.preparedSplit }).markDirty
  else
    match s.parents window with
    | none => s
    | some parent =>
        match s.containers parent with
        | none => s
        | some container =>
            if container.children.length = 1 ∧ container.layout.isSplit then
              s.prepare parent window axis
            else
              match s.ancestry parent with
              | none => s
              | some ancestors =>
                  -- the window is as deep as the parent has ancestors, counting the parent
                  if s.withinDepth (maxDepth - ancestors.length) window then s.nest parent window axis
                  else s

/-! ### A node is placed beside another one -/

/-- The edge leaves its list and enters the other one; what is empty then is removed. -/
def moveEdge (node source destination : Entity) (index insertion : ℕ)
    (edge : TileChild) : TileWorld × Bool :=
  if edge.weight ≤ 0 then (s, false)
  else
    let s := s.modifyContainer source fun container =>
      { container with children := container.children.eraseIdx index }
    let s := s.modifyContainer destination fun container =>
      { container with children := container.children.insertIdx insertion edge }
    let s := s.setParent node destination
    ((s.removeEmptyAncestors source).markDirty, true)

/-- The destination's ancestry must not contain the node; the edge gets a mean weight if it is new. -/
def placeEdge (node anchor source destination : Entity) (side : TileSide) : TileWorld × Bool :=
  match s.ancestry destination, s.containers source, s.containers destination with
  | some ancestors, some container, some target =>
      if node ∈ ancestors then (s, false)
      else
        match position container.children node, position target.children anchor with
        | some (index, edge), some (targetIndex, _) =>
            s.moveEdge node source destination index
              (targetIndex - (if source = destination ∧ index < targetIndex then 1 else 0) +
                (if side = .after then 1 else 0))
              (if source = destination then edge else { edge with weight := meanWeight target })
        | _, _ => (s, false)
  | _, _, _ => (s, false)

def place (node anchor : Entity) (side : TileSide) : TileWorld × Bool :=
  if node = anchor ∨ s.root node = none ∨ s.root node ≠ s.root anchor then (s, false)
  else
    match s.parents node, s.parents anchor, s.depth anchor with
    | some source, some destination, some depth =>
        match s.depth node, s.height maxDepth anchor, s.height maxDepth node with
        | some _, some _, some height =>
            if maxDepth < depth + height then (s, false)
            else s.placeEdge node anchor source destination side
        | _, _, _ => (s, false)
    | _, _, _ => (s, false)

/-! ### Children are put into a new group -/

/-- All children of a node move into a new group, which becomes the only child. -/
def enclose (node : Entity) (container : TileContainer)
    (f : TileContainer → TileContainer) (axis : SplitAxis) : TileWorld × Bool :=
  match s.createContainer container.axis container.children with
  | none => (s, false)
  | some (group, s) =>
      let s := s.defer (.insertParent group node)
      let s := s.defer (.modifyContainer group f)
      -- the group is recorded at its most recent child
      let s :=
        match s.history.find? (· ∈ container.entities) with
        | some recent => { s with history := wrapHistory s.history recent group }
        | none => s
      let s := container.children.foldl (fun s child => s.setParent child.entity group) s
      (s.modifyContainer node fun container =>
        { container.setLayout (.split axis) with children := [⟨group, 1⟩] }, true)

def wrapChildren (node : Entity) (axis : SplitAxis) : TileWorld × Bool :=
  match s.depth node, s.height (maxDepth + 1) node, s.containers node with
  | some depth, some height, some container =>
      if maxDepth ≤ depth + height ∨ container.layout = .split axis ∨ container.children = [] then
        (s, false)
      else s.enclose node container (fun group => { group with layout := container.layout }) axis
  | _, _, _ => (s, false)

def groupChildren (node : Entity) (layout : TileLayout) : TileWorld × Bool :=
  match s.depth node, s.height (maxDepth + 1) node, s.containers node with
  | some depth, some height, some container =>
      if maxDepth ≤ depth + height ∨ container.children = [] then (s, false)
      else s.enclose node container (fun group => group.setLayout layout) container.axis
  | _, _, _ => (s, false)

/-! ### Unary containers -/

/-- The child of a unary container takes its place, and its weight. -/
def collapse (node : Entity) : TileWorld × Bool :=
  match s.depth node, s.height maxDepth node, s.parents node, s.containers node with
  | some _, some _, some parent, some container =>
      match container.children with
      | [child] =>
          match s.containers parent with
          | none => (s, false)
          | some outer =>
              if node ∈ outer.entities then
                let s := s.modifyContainer parent fun outer =>
                  { outer with children := redirect outer.children node child.entity }
                let s := s.setParent child.entity parent
                let s := { s with history := replaceHistory s.history node (some child.entity) }
                ((s.defer (.despawn node)).markDirty, true)
              else (s, false)
      | _ => (s, false)
  | _, _, _, _ => (s, false)

/-- The children, with weights that sum up to the given one. -/
def rescale (container : TileContainer) (weight : ℚ) : List TileChild :=
  container.children.map fun child => { child with weight := child.weight * (weight / container.total) }

/-- The children of `inner` take the place of `node`, which holds `inner` alone. -/
def promote (node inner parent : Entity) (index : ℕ) (children : List TileChild) : TileWorld :=
  let identities := children.map TileChild.entity
  let s := s.modifyContainer parent fun destination =>
    { destination with
      children := destination.children.take index ++ children ++ destination.children.drop (index + 1) }
  let s := identities.foldl (fun s child => s.setParent child parent) s
  let s := { s with history := expandHistory (replaceHistory s.history inner none) node identities }
  ((s.defer (.despawn inner)).defer (.despawn node)).markDirty

def flatten (node : Entity) : TileWorld × Bool :=
  match s.depth node, s.height maxDepth node, s.parents node, s.containers node with
  | some _, some _, some parent, some container =>
      match container.children with
      | [child] =>
          match s.containers child.entity, s.containers parent with
          | some inner, some destination =>
              if inner.children = [] ∨ ¬ container.layout.isSplit ∨ ¬ inner.layout.isSplit ∨
                  inner.layout ≠ destination.layout then (s, false)
              else
                match position destination.children node with
                | none => (s, false)
                | some (index, edge) =>
                    let children := rescale inner edge.weight
                    if children.any (·.weight ≤ 0) then (s, false)
                    else (s.promote node child.entity parent index children, true)
          | _, _ => (s, false)
      | _ => (s, false)
  | _, _, _, _ => (s, false)

/-! ### The observer -/

def edit : TileTreeEdit → TileWorld × Bool
  | .place node anchor side => s.place node anchor side
  | .wrapChildren container axis => s.wrapChildren container axis
  | .groupChildren container layout => s.groupChildren container layout
  | .collapse container => s.collapse container
  | .flatten container => s.flatten container

/-- An edit that changed the tree is published when it is done. -/
def applyEdit (request : TileTreeEdit) : TileWorld :=
  let (s, changed) := s.edit request
  (if changed then (s.defer (.trigger .treeChanged)).defer (.trigger .layoutRequested) else s).flush

/-- The observer of the operations, for a split. -/
def applySplit (window : Entity) (axis : SplitAxis) : TileWorld :=
  let s := s.split window axis
  ((if s.dirty then s.defer (.trigger .treeChanged) else s).defer (.trigger .layoutRequested)).flush

end TileWorld

end Tile
