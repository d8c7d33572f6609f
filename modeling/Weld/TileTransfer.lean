/-
**Transfers between workspaces.**

A window, a nested container or all that a workspace holds moves to another workspace: after a window
that is the anchor, or to the end.  A workspace keeps its root; what it holds becomes one group.  The
handler checks the ownership of every leaf, the depth of the whole subtree and the weights first.  Then
it edits the lists at once, while new parents and new owners are deferred.

Main definitions: `TileWorld.movable`, `TileWorld.moveWindow`.
-/

import Weld.TileTransplant

namespace Tile

open Function (update)

/-- A request that a node move to a workspace. -/
structure TileWorkspaceMove where
  window : Entity
  workspace : Entity
  anchor : Option Entity := none
  deriving DecidableEq, Repr

/-- A window, as it belongs to a workspace. -/
def resettled (workspace output : Entity) (visible : Bool) (w : WindowComponents) : WindowComponents :=
  { w with
    member := some workspace, managedBy := some workspace, output := some output
    visibility := some (if visible then .visible else .hidden) }

namespace TileWorld

/-! ### What is checked -/

variable (s : TileWorld)

/-- The owner and the workspace of a managed window, and whether it floats. -/
def membership (n : Entity) : Option (Entity × Entity × Bool) :=
  match (s.windows n).managed, (s.windows n).managedBy, (s.windows n).member with
  | true, some owner, some member => some (owner, member, (s.windows n).floating)
  | _, _, _ => none

/-- The workspace that a node leaves, and whether it floats there. -/
def departure (window : Entity) : Option (Entity × Bool) :=
  match s.membership window with
  | some (owner, member, floating) => if owner = member then some (member, floating) else none
  | none => (s.rootOf window).map fun root => (root, false)

/-- The list that the node leaves, and the index in it; a whole workspace has none. -/
def slot (window source : Entity) : Option (Entity × Option ℕ) :=
  if window = source then some (source, none)
  else
    match s.parents window with
    | none => none
    | some parent =>
        match s.containers parent with
        | none => none
        | some container =>
            (position container.children window).map fun found => (parent, some found.1)

/-- The list that the node enters, and the index in it. -/
def arrival (workspace : Entity) (anchor : Option Entity) : Option (Entity × ℕ) :=
  match anchor with
  | none => (s.containers workspace).map fun container => (workspace, container.children.length)
  | some anchor =>
      match s.membership anchor with
      | none => none
      | some (owner, member, _) =>
          if owner ≠ workspace ∨ member ≠ workspace ∨ s.rootOf anchor ≠ some workspace then none
          else
            match s.parents anchor with
            | none => none
            | some parent =>
                match s.containers parent with
                | none => none
                | some container =>
                    (position container.children anchor).map fun found => (parent, found.1 + 1)

/-- The leaves below a node, the last one first, if all edges are valid, none of them floats or belongs
to another workspace, and all stay within the depth that is left. -/
def movable (s : TileWorld) (source : Entity) : ℕ → Entity → Option (List Entity)
  | 0, _ => none
  | remaining + 1, node =>
      match s.containers node with
      | some container =>
          if container.children.all fun child => s.parents child.entity = some node then
            container.children.foldlM (fun leaves child =>
              (s.movable source remaining child.entity).map (· ++ leaves)) []
          else none
      | none => if s.membership node = some (source, source, false) then some [node] else none

/-- The weight of a node that arrives. -/
def arrivalWeight (target : TileContainer) : ℚ :=
  if target.children = [] then 1 else meanWeight target

/-! ### The three modes -/

/-- A window that floats changes its workspace. -/
def moveFloating (window source workspace output : Entity) (visible : Bool) : TileWorld :=
  let s := s.defer (.modifyWindow window fun w =>
    { w with slot := none, pendingDialogPlacement := false })
  let s := s.defer (.modifyWindow window (resettled workspace output visible))
  s.defer (.trigger (.memberMoved window source))

/-- All that a workspace holds is put into a new group, which has no parent yet. -/
def detachAll (source : Entity) : Option (Entity × TileWorld) :=
  match s.containers source with
  | none => none
  | some container =>
      match s.createContainer container.axis container.children with
      | none => none
      | some (group, s) =>
          let s :=
            match s.history.find? (· ∈ container.entities) with
            | some recent => { s with history := wrapHistory s.history recent group }
            | none => s
          let s := s.defer (.modifyContainer group fun c =>
            { c with layout := container.layout, preparedSplit := container.preparedSplit })
          let s := container.children.foldl (fun s child => s.defer (.insertParent child.entity group)) s
          some (group, s.modifyContainer source fun c => { c with children := [], preparedSplit := none })

/-- The edge to a node is taken out of its list. -/
def detach (window source : Entity) : Option ℕ → Option (Entity × TileWorld)
  | none => s.detachAll source
  | some index => some (window, s.modifyContainer source fun container =>
      { container with children := container.children.eraseIdx index })

/-- Windows get a new workspace. -/
def resettle (leaves : List Entity) (source workspace output : Entity) (visible : Bool) :
    TileWorld :=
  leaves.foldl (fun s leaf =>
    (s.defer (.modifyWindow leaf (resettled workspace output visible))).defer
      (.trigger (.memberMoved leaf source))) s

/-- A node that was taken out of its list enters another one, and its leaves change their workspace. -/
def attach (moved parent source destination workspace output : Entity) (visible : Bool)
    (insertion : ℕ) (weight : ℚ) (leaves : List Entity) : TileWorld :=
  let s := s.modifyContainer destination fun target =>
    { target with children := target.children.insertIdx insertion ⟨moved, weight⟩ }
  let s := s.defer (.insertParent moved destination)
  let s := s.resettle leaves source workspace output visible
  (s.retireEmptyAncestors parent source).publish

/-- A node in a tree moves. -/
def moveTiled (event : TileWorkspaceMove) (source output : Entity) (visible : Bool) : TileWorld :=
  match s.slot event.window source, s.arrival event.workspace event.anchor with
  | some (parent, index), some (destination, insertion) =>
      match s.containers destination, s.ancestry destination with
      | some target, some ancestors =>
          match s.movable source (maxDepth + 1 - ancestors.length) event.window with
          | none => s
          | some leaves =>
              if leaves = [] ∨ arrivalWeight target ≤ 0 then s
              else
                match s.detach event.window parent index with
                | none => s
                | some (moved, s) =>
                    s.attach moved parent source destination event.workspace output visible insertion
                      (arrivalWeight target) leaves
      | _, _ => s
  | _, _ => s

def moveWindow (event : TileWorkspaceMove) : TileWorld :=
  match s.departure event.window with
  | none => s
  | some (source, floating) =>
      if source ∉ s.roots ∨ source = event.workspace ∨ event.workspace ∉ s.roots then s
      else
        match s.workspaces event.workspace with
        | some { visible, output := some output } =>
            if floating then s.moveFloating event.window source event.workspace output visible
            else if s.rootOf event.window ≠ some source then s
            else s.moveTiled event source output visible
        | _ => s

/-- The request, and its commands. -/
def applyMove (event : TileWorkspaceMove) : TileWorld := (s.moveWindow event).flush

end TileWorld

/-! ### The leaves that may move -/

/-- What the check of a subtree says. -/
structure Movable (s : TileWorld) (source : Entity) (level : Entity → ℕ) (remaining : ℕ)
    (nodes leaves : List Entity) : Prop where
  row : Forest.Frontier s.kids nodes leaves.reverse
  owned : ∀ leaf ∈ leaves, s.membership leaf = some (source, source, false)
  room : ∀ node ∈ nodes, ∀ m, s.Ascends m node → level m < level node + remaining

theorem movable_children {s : TileWorld} {source : Entity} {level : Entity → ℕ} {remaining : ℕ}
    (ih : ∀ node leaves, s.movable source remaining node = some leaves →
      Movable s source level remaining [node] leaves) :
    ∀ (children : List TileChild) (before leaves : List Entity),
      children.foldlM (fun leaves child =>
        (s.movable source remaining child.entity).map (· ++ leaves)) before = some leaves →
      ∃ own, leaves = own ++ before ∧
        Movable s source level remaining (children.map TileChild.entity) own := by
  intro children
  induction children with
  | nil =>
      intro before leaves hfold
      cases hfold
      exact ⟨[], rfl, .nil, nofun, nofun⟩
  | cons child children ihc =>
      intro before leaves hfold
      obtain ⟨next, hnext, hrest⟩ := Option.bind_eq_some_iff.mp hfold
      obtain ⟨first, hfirst, rfl⟩ := Option.map_eq_some_iff.mp hnext
      obtain ⟨own, rfl, hown⟩ := ihc (first ++ before) leaves hrest
      have hchild := ih child.entity first hfirst
      refine ⟨own ++ first, (List.append_assoc ..).symm, ?_, fun leaf hleaf => ?_, fun node hnode => ?_⟩
      · rw [List.reverse_append]
        exact hchild.row.append hown.row
      · exact (List.mem_append.mp hleaf).elim (hown.owned leaf) (hchild.owned leaf)
      · rcases List.mem_cons.mp hnode with rfl | hnode
        · exact hchild.room _ (List.mem_singleton_self _)
        · exact hown.room node hnode

/-- **The check of a subtree** finds its leaves, from right to left. -/
theorem movable_spec {s : TileWorld} (h : WellFormed s) {source : Entity} {level : Entity → ℕ}
    (hlevel : Ranked s level) : ∀ (remaining : ℕ) (node : Entity) (leaves : List Entity),
      s.movable source remaining node = some leaves → Movable s source level remaining [node] leaves := by
  intro remaining
  induction remaining with
  | zero =>
      intro _ _ hmovable
      cases hmovable
  | succ remaining ih =>
      intro node leaves hmovable
      rw [TileWorld.movable] at hmovable
      cases hcontainer : s.containers node with
      | none =>
          simp only [hcontainer] at hmovable
          split_ifs at hmovable with howned
          cases hmovable
          refine ⟨.leaf (by rw [TileWorld.kids, hcontainer]; rfl) .nil, fun leaf hleaf => ?_,
            fun n hn m hm => ?_⟩
          · rw [List.mem_singleton.mp hleaf]
            exact howned
          · rw [List.mem_singleton.mp hn] at hm ⊢
            rcases hm.cases_tail with rfl | ⟨child, -, hparent⟩
            · omega
            · obtain ⟨c, hc, -⟩ := (h.edges child node).mp hparent
              cases hcontainer.symm.trans hc
      | some container =>
          simp only [hcontainer] at hmovable
          split_ifs at hmovable
          obtain ⟨own, rfl, hown⟩ := movable_children ih container.children [] leaves hmovable
          rw [List.append_nil]
          refine ⟨.node (by rw [TileWorld.kids, hcontainer]; rfl) ?_, hown.owned, fun n hn m hm => ?_⟩
          · rw [List.append_nil]
            exact hown.row
          · rw [List.mem_singleton.mp hn] at hm ⊢
            rcases hm.cases_tail with rfl | ⟨child, hup, hparent⟩
            · omega
            · obtain ⟨c, hc, hlisted⟩ := (h.edges child node).mp hparent
              cases hcontainer.symm.trans hc
              have hroom := hown.room child hlisted m hup
              have hstep := hlevel.step child node hparent
              omega

/-! ### Windows that get a new workspace -/

theorem resettle_eq (leaves : List Entity) (source workspace output : Entity) (visible : Bool)
    (s : TileWorld) :
    s.resettle leaves source workspace output visible =
      { s with commands := s.commands ++ leaves.flatMap fun leaf =>
        [.modifyWindow leaf (resettled workspace output visible), .trigger (.memberMoved leaf source)] } := by
  induction leaves generalizing s with
  | nil => rw [List.flatMap_nil, List.append_nil]; rfl
  | cons leaf leaves ih =>
      rw [TileWorld.resettle, List.foldl_cons]
      change TileWorld.resettle _ leaves source workspace output visible = _
      rw [ih]
      simp only [TileWorld.defer, List.flatMap_cons, List.append_assoc, List.cons_append,
        List.nil_append]

theorem foldl_resettle (leaves : List Entity) (source workspace output : Entity) (visible : Bool)
    (s : TileWorld) :
    (leaves.flatMap fun leaf =>
      [Deferred.modifyWindow leaf (resettled workspace output visible),
        .trigger (.memberMoved leaf source)]).foldl Deferred.apply s =
      { s with
        windows := fun n =>
          if n ∈ leaves then resettled workspace output visible (s.windows n) else s.windows n
        events := s.events ++ leaves.map fun leaf => .memberMoved leaf source } := by
  induction leaves generalizing s with
  | nil => simp only [List.flatMap_nil, List.foldl_nil, List.not_mem_nil, if_false, List.map_nil,
      List.append_nil]
  | cons leaf leaves ih =>
      rw [List.flatMap_cons, List.foldl_append, ih]
      simp only [List.foldl_cons, List.foldl_nil, Deferred.apply, List.map_cons, List.append_assoc,
        List.cons_append, List.nil_append]
      congr 1
      funext n
      by_cases hn : n = leaf
      · subst hn
        rw [Function.update_self, if_pos List.mem_cons_self]
        split_ifs
        · rfl
        · rfl
      · rw [Function.update_of_ne hn]
        simp only [List.mem_cons, hn, false_or]

end Tile
