/-
**What the edits of a tile tree do.**

For every edit: when it is carried out, and the world that it leaves when its commands are done.  Later
modules use these descriptions and do not look at the edits again.

Main results:

* `TileWorld.split_cases`, `wrapChildren_cases`, `groupChildren_cases`, `collapse_cases`,
  `flatten_cases` — when an edit is carried out;
* `TileWorld.nest_flush`, `enclose_flush`, `collapseInto_flush`, `promote_flush` — what it leaves.
-/

import Weld.TileForest

namespace Tile

open Function (update)

namespace TileWorld

/-! ### Edges that are changed together -/

theorem foldl_setParent (nodes : List Entity) (parent : Entity) (s : TileWorld) :
    nodes.foldl (fun s node => s.setParent node parent) s =
      { s with
        parents := fun n => if n ∈ nodes then (s.parents n).map fun _ => parent else s.parents n } := by
  induction nodes generalizing s with
  | nil => rfl
  | cons node nodes ih =>
      rw [List.foldl_cons, ih, setParent]
      congr 1
      funext n
      dsimp only
      by_cases hn : n = node
      · subst hn
        rw [if_pos List.mem_cons_self, Function.update_self]
        split_ifs
        · rw [Option.map_map]
          rfl
        · rfl
      · rw [Function.update_of_ne hn]
        simp only [List.mem_cons, hn, false_or]

theorem foldl_setParent_children (children : List TileChild) (parent : Entity) (s : TileWorld) :
    children.foldl (fun s child => s.setParent child.entity parent) s =
      { s with
        parents := fun n =>
          if n ∈ children.map TileChild.entity then (s.parents n).map fun _ => parent
          else s.parents n } := by
  rw [← foldl_setParent, List.foldl_map]

/-! ### A split -/

variable {s : TileWorld} {node : Entity}

/-- What a split of a node that is not a root does. -/
theorem split_cases {window : Entity} (axis : SplitAxis) (hroot : window ∉ s.roots) :
    s.split window axis = s ∨
      (∃ parent container, s.parents window = some parent ∧ s.containers parent = some container ∧
        container.layout.isSplit = true ∧ s.split window axis = s.prepare parent window axis) ∨
      ∃ parent container ancestors, s.parents window = some parent ∧
        s.containers parent = some container ∧ s.ancestry parent = some ancestors ∧
        s.withinDepth (maxDepth - ancestors.length) window = true ∧ s.nextId < u64Max ∧
        s.split window axis = s.nest parent window axis := by
  rw [split, if_neg hroot]
  cases hparent : s.parents window with
  | none => exact .inl rfl
  | some parent =>
      cases hcontainer : s.containers parent with
      | none => exact .inl (by simp only [hcontainer])
      | some container =>
          simp only [hcontainer]
          split_ifs with hunary
          · exact .inr (.inl ⟨parent, container, rfl, hcontainer, hunary.2, rfl⟩)
          · cases hancestry : s.ancestry parent with
            | none => exact .inl rfl
            | some ancestors =>
                dsimp only
                split_ifs with hwithin
                · by_cases hid : s.nextId < u64Max
                  · exact .inr (.inr ⟨parent, container, ancestors, rfl, hcontainer, hancestry,
                      hwithin, hid, rfl⟩)
                  · exact .inl (by rw [nest, createContainer, if_neg hid])
                · exact .inl rfl

/-- The container that a split puts above a window. -/
def nested (s : TileWorld) (window : Entity) (axis : SplitAxis) : TileContainer :=
  { id := s.nextId, axis, layout := .split axis, children := [⟨window, 1⟩], preparedSplit := some window }

theorem nest_flush (hsettled : s.commands = []) (hid : s.nextId < u64Max)
    (parent window : Entity) (axis : SplitAxis) :
    (s.nest parent window axis).flush =
      { s with
        containers := update (update s.containers parent ((s.containers parent).map fun container =>
          { container with children := redirect container.children window s.spawned }))
            s.spawned (some (s.nested window axis))
        parents := update (update s.parents window ((s.parents window).map fun _ => s.spawned))
            s.spawned (some parent)
        rects := update s.rects s.spawned (some {})
        history := wrapHistory s.history window s.spawned
        nextId := s.nextId + 1
        spawned := s.spawned + 1
        dirty := true } := by
  rw [nest, createContainer, if_pos hid]
  simp only [defer, modifyContainer, setParent, flush, hsettled, List.nil_append, List.cons_append,
    List.foldl_cons, List.foldl_nil, Deferred.apply, Function.update_self, Function.update_idem,
    Option.map_some, nested]

/-! ### Children are put into a new group -/

theorem wrapChildren_cases {axis : SplitAxis} (h : (s.wrapChildren node axis).2 = true) :
    ∃ depth height container, s.depth node = some depth ∧ s.height (maxDepth + 1) node = some height ∧
      s.containers node = some container ∧ depth + height < maxDepth ∧ container.children ≠ [] ∧
      s.wrapChildren node axis =
        s.enclose node container (fun group => { group with layout := container.layout }) axis := by
  unfold wrapChildren at h ⊢
  split at h
  · rename_i depth height container hdepth hheight hcontainer
    split_ifs at h with hrefused
    refine ⟨depth, height, container, hdepth, hheight, hcontainer, by omega,
      fun hempty => hrefused (.inr (.inr hempty)), ?_⟩
    simp only [hdepth, hheight, hcontainer, if_neg hrefused]
  · cases h

theorem groupChildren_cases {layout : TileLayout} (h : (s.groupChildren node layout).2 = true) :
    ∃ depth height container, s.depth node = some depth ∧ s.height (maxDepth + 1) node = some height ∧
      s.containers node = some container ∧ depth + height < maxDepth ∧ container.children ≠ [] ∧
      s.groupChildren node layout =
        s.enclose node container (fun group => group.setLayout layout) container.axis := by
  unfold groupChildren at h ⊢
  split at h
  · rename_i depth height container hdepth hheight hcontainer
    split_ifs at h with hrefused
    refine ⟨depth, height, container, hdepth, hheight, hcontainer, by omega,
      fun hempty => hrefused (.inr hempty), ?_⟩
    simp only [hdepth, hheight, hcontainer, if_neg hrefused]
  · cases h

/-- The history of a group that is put above children. -/
def groupHistory (s : TileWorld) (container : TileContainer) : List Entity :=
  match s.history.find? (· ∈ container.entities) with
  | some recent => wrapHistory s.history recent s.spawned
  | none => s.history

/-- The new group, as it is spawned. -/
def newGroup (s : TileWorld) (container : TileContainer) : TileContainer :=
  { id := s.nextId, axis := container.axis, layout := .split container.axis,
    children := container.children }

theorem enclose_flush (hsettled : s.commands = [])
    {container : TileContainer} {f : TileContainer → TileContainer} {axis : SplitAxis}
    (h : (s.enclose node container f axis).2 = true) :
    (s.enclose node container f axis).1.flush =
      { s with
        containers := update (update s.containers node ((s.containers node).map fun container =>
          { container.setLayout (.split axis) with children := [⟨s.spawned, 1⟩] }))
            s.spawned (some (f (s.newGroup container)))
        parents := update (fun n =>
          if n ∈ container.entities then (s.parents n).map fun _ => s.spawned else s.parents n)
            s.spawned (some node)
        rects := update s.rects s.spawned (some {})
        history := s.groupHistory container
        nextId := s.nextId + 1
        spawned := s.spawned + 1
        dirty := true } := by
  have hid : s.nextId < u64Max := by
    by_contra hid
    rw [enclose, createContainer, if_neg hid] at h
    cases h
  rw [enclose, createContainer, if_pos hid]
  simp only [defer, hsettled, List.nil_append, List.cons_append]
  rw [foldl_setParent_children]
  cases hrecent : s.history.find? (· ∈ container.entities) with
  | none | some =>
      simp only [modifyContainer, flush, List.foldl_cons, List.foldl_nil, Deferred.apply,
        Function.update_self, Function.update_idem, Option.map_some, groupHistory, hrecent, newGroup]
      rfl

/-! ### Unary containers -/

/-- The child takes the place of the unary container. -/
def collapseInto (s : TileWorld) (node child parent : Entity) : TileWorld :=
  let s := s.modifyContainer parent fun outer =>
    { outer with children := redirect outer.children node child }
  let s := s.setParent child parent
  let s := { s with history := replaceHistory s.history node (some child) }
  (s.defer (.despawn node)).markDirty

theorem collapse_cases (h : (s.collapse node).2 = true) :
    ∃ parent container child outer, s.parents node = some parent ∧
      s.containers node = some container ∧ container.children = [child] ∧
      s.containers parent = some outer ∧ (s.depth node).isSome ∧
      (s.collapse node).1 = s.collapseInto node child.entity parent := by
  unfold collapse at h ⊢
  split at h
  · rename_i depth height parent container hdepth hheight hparent hcontainer
    split at h
    · rename_i child hchildren
      split at h
      · cases h
      · rename_i outer houter
        split_ifs at h with hlisted
        refine ⟨parent, container, child, outer, hparent, hcontainer, hchildren, houter,
          by rw [hdepth]; rfl, ?_⟩
        simp only [hdepth, hheight, hparent, hcontainer, hchildren, houter, if_pos hlisted,
          collapseInto]
    · cases h
  · cases h

theorem collapseInto_flush (hsettled : s.commands = []) (node child parent : Entity) :
    (s.collapseInto node child parent).flush =
      { s with
        containers := update (update s.containers parent ((s.containers parent).map fun outer =>
          { outer with children := redirect outer.children node child })) node none
        parents := update (update s.parents child ((s.parents child).map fun _ => parent)) node none
        rects := update s.rects node none
        windows := update s.windows node {}
        workspaces := update s.workspaces node none
        roots := s.roots.filter (· ≠ node)
        history := replaceHistory s.history node (some child)
        dirty := true } := by
  simp only [collapseInto, modifyContainer, setParent, defer, markDirty, flush, hsettled,
    List.nil_append, List.foldl_cons, List.foldl_nil, Deferred.apply]

theorem flatten_cases (h : (s.flatten node).2 = true) :
    ∃ parent container child inner destination index edge, s.parents node = some parent ∧
      s.containers node = some container ∧ container.children = [child] ∧
      s.containers child.entity = some inner ∧ s.containers parent = some destination ∧
      inner.children ≠ [] ∧ container.layout.isSplit = true ∧ inner.layout.isSplit = true ∧
      inner.layout = destination.layout ∧ position destination.children node = some (index, edge) ∧
      (s.depth node).isSome ∧
      (s.flatten node).1 = s.promote node child.entity parent index (rescale inner edge.weight) := by
  unfold flatten at h ⊢
  split at h
  · rename_i depth height parent container hdepth hheight hparent hcontainer
    split at h
    · rename_i child hchildren
      split at h
      · rename_i inner destination hinner hdestination
        split_ifs at h with hrefused
        split at h
        · cases h
        · rename_i index edge hposition
          dsimp only at h
          split_ifs at h with hweights
          have hkept := hrefused
          simp only [not_or, not_not] at hkept
          refine ⟨parent, container, child, inner, destination, index, edge, hparent, hcontainer,
            hchildren, hinner, hdestination, hkept.1, hkept.2.1, hkept.2.2.1, hkept.2.2.2, hposition,
            by rw [hdepth]; rfl, ?_⟩
          simp only [hdepth, hheight, hparent, hcontainer, hchildren, hinner, hdestination,
            if_neg hrefused, hposition, if_neg hweights]
      · cases h
    · cases h
  · cases h

theorem promote_flush (hsettled : s.commands = []) (node inner parent : Entity)
    (index : ℕ) (children : List TileChild) :
    (s.promote node inner parent index children).flush =
      { s with
        containers := update (update (update s.containers parent
          ((s.containers parent).map fun destination =>
            { destination with
              children := destination.children.take index ++ children ++
                destination.children.drop (index + 1) })) inner none) node none
        parents := update (update (fun n =>
          if n ∈ children.map TileChild.entity then (s.parents n).map fun _ => parent
          else s.parents n) inner none) node none
        rects := update (update s.rects inner none) node none
        windows := update (update s.windows inner {}) node {}
        workspaces := update (update s.workspaces inner none) node none
        roots := (s.roots.filter (· ≠ inner)).filter (· ≠ node)
        history := expandHistory (replaceHistory s.history inner none) node
          (children.map TileChild.entity)
        dirty := true } := by
  rw [promote]
  simp only [foldl_setParent, modifyContainer, defer, markDirty, flush, hsettled, List.nil_append,
    List.cons_append, List.foldl_cons, List.foldl_nil, Deferred.apply]

end TileWorld

end Tile
