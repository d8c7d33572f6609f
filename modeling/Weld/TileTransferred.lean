/-
**Workspace transfer is atomic and loses nothing.**

A transfer that passes the checks moves one subtree into the list of another workspace.  When a window
or a nested container moves, this is a transplant of the node, and the containers that are empty then
are retired.  When all of a workspace moves, the transplant starts from the tree in which the new group
is already the only child of the root.

Main definitions: `Departing`, `TileWorld.grouped`, `Transferred`, `Floated`.

Main results:

* `moveWindow_cases` — a transfer is refused, or passes the checks;
* `workspace_transfer_is_atomic` — nothing changes, or the whole subtree has moved.
-/

import Weld.TileTransfer

namespace Tile

open TileWorld TileContainer

open Forest (Frontier Below)
open Function (update)

/-! ### A transfer that passes the checks -/

structure Departing (s : TileWorld) (event : TileWorkspaceMove) (source parent destination : Entity)
    (index : Option ℕ) (target : TileContainer) (insertion : ℕ) (leaves : List Entity) : Prop where
  root : source ∈ s.roots
  ne : source ≠ event.workspace
  workspace : event.workspace ∈ s.roots
  up : s.rootOf event.window = some source
  slot : s.slot event.window source = some (parent, index)
  arrival : s.arrival event.workspace event.anchor = some (destination, insertion)
  outer : s.containers destination = some target
  checked : ∃ ancestors, s.ancestry destination = some ancestors ∧
    s.movable source (maxDepth + 1 - ancestors.length) event.window = some leaves
  leaves : leaves ≠ []
  weight : 0 < arrivalWeight target

variable {window source : Entity} {s : TileWorld}

theorem departure_floating (h : s.departure window = some (source, true)) :
    s.membership window = some (source, source, true) := by
  rw [departure] at h
  cases hmember : s.membership window with
  | none =>
      rw [hmember] at h
      obtain ⟨root, -, heq⟩ := Option.map_eq_some_iff.mp h
      cases heq
  | some found =>
      obtain ⟨owner, member, floating⟩ := found
      rw [hmember] at h
      dsimp only at h
      split_ifs at h with howner
      cases h
      rw [howner]

theorem moveTiled_cases (s : TileWorld) (event : TileWorkspaceMove) (source output : Entity)
    (visible : Bool) (hroot : source ∈ s.roots) (hne : source ≠ event.workspace)
    (hworkspace : event.workspace ∈ s.roots) (hup : s.rootOf event.window = some source) :
    s.moveTiled event source output visible = s ∨
      ∃ parent destination index target insertion leaves moved s₁,
        Departing s event source parent destination index target insertion leaves ∧
        s.detach event.window parent index = some (moved, s₁) ∧
        s.moveTiled event source output visible =
          s₁.attach moved parent source destination event.workspace output visible insertion
            (arrivalWeight target) leaves := by
  rw [moveTiled]
  cases hslot : s.slot event.window source with
  | none => exact .inl rfl
  | some found =>
  obtain ⟨parent, index⟩ := found
  cases harrival : s.arrival event.workspace event.anchor with
  | none => exact .inl rfl
  | some found =>
  obtain ⟨destination, insertion⟩ := found
  cases htarget : s.containers destination with
  | none => exact .inl (by simp only [htarget])
  | some target =>
  cases hancestry : s.ancestry destination with
  | none => exact .inl (by simp only [htarget, hancestry])
  | some ancestors =>
  simp only [htarget, hancestry]
  cases hmovable : s.movable source (maxDepth + 1 - ancestors.length) event.window with
  | none => exact .inl rfl
  | some leaves =>
  dsimp only
  by_cases hrefused : leaves = [] ∨ arrivalWeight target ≤ 0
  · exact .inl (if_pos hrefused)
  rw [if_neg hrefused]
  cases hdetach : s.detach event.window parent index with
  | none => exact .inl rfl
  | some found =>
  obtain ⟨moved, s₁⟩ := found
  rw [not_or, not_le] at hrefused
  exact .inr ⟨parent, destination, index, target, insertion, leaves, moved, s₁,
    ⟨hroot, hne, hworkspace, hup, hslot, harrival, htarget, ⟨ancestors, hancestry, hmovable⟩,
      hrefused.1, hrefused.2⟩, hdetach, rfl⟩

/-- **A transfer of a node in a tree is refused, or passes the checks.** -/
theorem moveWindow_cases (s : TileWorld) (event : TileWorkspaceMove)
    (hfloating : ∀ source, s.departure event.window ≠ some (source, true)) :
    s.moveWindow event = s ∨
      ∃ source output visible parent destination index target insertion leaves moved s₁,
        s.workspaces event.workspace = some { visible, output := some output } ∧
        Departing s event source parent destination index target insertion leaves ∧
        s.detach event.window parent index = some (moved, s₁) ∧
        s.moveWindow event =
          s₁.attach moved parent source destination event.workspace output visible insertion
            (arrivalWeight target) leaves := by
  rw [moveWindow]
  cases hdeparture : s.departure event.window with
  | none => exact .inl rfl
  | some found =>
  obtain ⟨source, floating⟩ := found
  dsimp only
  by_cases hrefused : source ∉ s.roots ∨ source = event.workspace ∨ event.workspace ∉ s.roots
  · exact .inl (if_pos hrefused)
  rw [if_neg hrefused]
  simp only [not_or, not_not] at hrefused
  split
  · rename_i visible output hworkspace
    have hflag : ¬ floating = true := by
      rintro rfl
      exact hfloating source hdeparture
    rw [if_neg hflag]
    by_cases hup : s.rootOf event.window ≠ some source
    · exact .inl (if_pos hup)
    rw [if_neg hup]
    rw [not_not] at hup
    rcases moveTiled_cases s event source output visible hrefused.1 hrefused.2.1 hrefused.2.2 hup with
      hsame | ⟨parent, destination, index, target, insertion, leaves, moved, s₁, hdeparting, hdetach, heq⟩
    · exact .inl hsame
    · exact .inr ⟨source, output, visible, parent, destination, index, target, insertion, leaves, moved,
        s₁, hworkspace, hdeparting, hdetach, heq⟩
  · exact .inl rfl

/-- Where the node arrives: after the anchor, or at the end of the root. -/
def Arrives (s : TileWorld) (workspace destination : Entity) (front back : List TileChild) :
    Option Entity → Prop
  | none => destination = workspace ∧ back = []
  | some anchor => s.parents anchor = some destination ∧
      ∃ before mark, front = before ++ [mark] ∧ mark.entity = anchor

theorem arrival_spec (h : WellFormed s) {workspace destination : Entity} {anchor : Option Entity}
    {insertion : ℕ} {target : TileContainer}
    (harrival : s.arrival workspace anchor = some (destination, insertion))
    (htarget : s.containers destination = some target) :
    s.Ascends destination workspace ∧ ∃ front back, target.children = front ++ back ∧
      insertion = front.length ∧ Arrives s workspace destination front back anchor := by
  cases anchor with
  | none =>
      obtain ⟨container, hcontainer, heq⟩ := Option.map_eq_some_iff.mp harrival
      cases heq
      cases hcontainer.symm.trans htarget
      exact ⟨.refl, target.children, [], (List.append_nil _).symm, rfl, rfl, rfl⟩
  | some anchor =>
      rw [arrival] at harrival
      cases hmember : s.membership anchor with
      | none => simp only [hmember, reduceCtorEq] at harrival
      | some found =>
      obtain ⟨owner, member, flag⟩ := found
      simp only [hmember] at harrival
      by_cases hrefused : owner ≠ workspace ∨ member ≠ workspace ∨ s.rootOf anchor ≠ some workspace
      · rw [if_pos hrefused] at harrival
        cases harrival
      rw [if_neg hrefused] at harrival
      simp only [not_or, not_not] at hrefused
      cases hparent : s.parents anchor with
      | none => simp only [hparent, reduceCtorEq] at harrival
      | some parent =>
      simp only [hparent] at harrival
      cases hcontainer : s.containers parent with
      | none => simp only [hcontainer, reduceCtorEq] at harrival
      | some container =>
      simp only [hcontainer] at harrival
      obtain ⟨⟨index, mark⟩, hposition, heq⟩ := Option.map_eq_some_iff.mp harrival
      cases heq
      cases hcontainer.symm.trans htarget
      obtain ⟨before, back, hsplit, rfl, hmark, -, -⟩ :=
        position_split (h.nodup destination target htarget) hposition
      have hascends : s.Ascends destination workspace := by
        obtain ⟨hroot, hup⟩ := WellFormed.ascends_of_rootOf hrefused.2.2
        rcases hup.cases_head with rfl | ⟨p, hp, hrest⟩
        · exact absurd hroot (h.notMem_roots hparent)
        · cases hp.symm.trans hparent
          exact hrest
      refine ⟨hascends, before ++ [mark], back, by rw [hsplit, List.append_assoc]; rfl, ?_, hparent, before,
        mark, rfl, hmark⟩
      rw [List.length_append, List.length_singleton]

theorem slot_some {parent : Entity} {index : ℕ} (h : s.slot window source = some (parent, some index)) :
    window ≠ source ∧ s.parents window = some parent ∧ ∃ container edge,
      s.containers parent = some container ∧ position container.children window = some (index, edge) := by
  unfold slot at h
  split_ifs at h with hwhole
  · cases h
  · split at h
    · cases h
    · rename_i found hparent
      split at h
      · cases h
      · rename_i container hcontainer
        obtain ⟨⟨i, edge⟩, hposition, heq⟩ := Option.map_eq_some_iff.mp h
        cases heq
        exact ⟨hwhole, hparent, container, edge, hcontainer, hposition⟩

theorem slot_none {parent : Entity} (h : s.slot window source = some (parent, none)) :
    window = source ∧ parent = source := by
  unfold slot at h
  split_ifs at h with hwhole
  · cases h
    exact ⟨hwhole, rfl⟩
  · split at h
    · cases h
    · split at h
      · cases h
      · obtain ⟨_, -, heq⟩ := Option.map_eq_some_iff.mp h
        cases heq

/-! ### A node moves -/

/-- The edge of a node has left its list. -/
def TileWorld.unlinked (s : TileWorld) (parent : Entity) (index : ℕ) : TileWorld :=
  s.modifyContainer parent fun container =>
    { container with children := container.children.eraseIdx index }

/-- The commands of a node that arrives. -/
def arrivalCommands (moved source destination workspace output : Entity) (visible : Bool)
    (leaves : List Entity) : List Deferred :=
  .insertParent moved destination :: leaves.flatMap fun leaf =>
    [.modifyWindow leaf (resettled workspace output visible), .trigger (.memberMoved leaf source)]

/-- The edge has entered the destination, and nothing is retired yet. -/
def TileWorld.arrived (s : TileWorld) (moved source destination workspace output : Entity)
    (visible : Bool) (insertion : ℕ) (weight : ℚ) (leaves : List Entity) : TileWorld :=
  { s.modifyContainer destination fun target =>
      { target with children := target.children.insertIdx insertion ⟨moved, weight⟩ } with
    commands := s.commands ++ arrivalCommands moved source destination workspace output visible leaves }

theorem attach_eq (s : TileWorld) (moved parent source destination workspace output : Entity)
    (visible : Bool) (insertion : ℕ) (weight : ℚ) (leaves : List Entity) :
    s.attach moved parent source destination workspace output visible insertion weight leaves =
      ((s.arrived moved source destination workspace output visible insertion weight
        leaves).retireEmptyAncestors parent source).publish := by
  rw [attach]
  simp only [resettle_eq, arrived, defer, modifyContainer,
    arrivalCommands, List.append_assoc, List.singleton_append]

/-- The tree after a node left one workspace and entered another one. -/
def TileWorld.crossed (s : TileWorld) (window source destination workspace output : Entity)
    (visible : Bool) (list : TileContainer) (leaves vacated : List Entity) : TileWorld :=
  { s with
    containers := fun n => if n ∈ vacated then none else
      (update (fun n => (s.containers n).map (·.without [window])) destination (some list) n).map
        (·.without vacated)
    parents := fun n => if n ∈ vacated then none else update s.parents window (some destination) n
    rects := fun n => if n ∈ vacated then none else s.rects n
    windows := fun n => if n ∈ vacated then {} else
      if n ∈ leaves then resettled workspace output visible (s.windows n) else s.windows n
    workspaces := fun n => if n ∈ vacated then none else s.workspaces n
    history := s.history.filter (· ∉ vacated)
    dirty := true
    events := s.events ++ leaves.map (fun leaf => .memberMoved leaf source) ++
      [.treeChanged, .layoutRequested] }

section Crossed

variable {s : TileWorld} (h : WellFormed s) {event : TileWorkspaceMove}
  {source parent destination : Entity} {index : ℕ} {target : TileContainer}
  {insertion : ℕ} {leaves : List Entity}
  (d : Departing s event source parent destination (some index) target insertion leaves)

include h d

/-- The node and what it leaves are below the source, and the destination is not. -/
theorem Departing.apart : s.Ascends event.window source ∧ s.Ascends parent source ∧
    ¬ s.Ascends destination source := by
  obtain ⟨hne, hparent, -⟩ := slot_some d.slot
  obtain ⟨-, hup⟩ := WellFormed.ascends_of_rootOf d.up
  obtain ⟨hdestination, -⟩ := arrival_spec h d.arrival d.outer
  refine ⟨hup, ?_, fun hbelow => d.ne (h.root_unique d.root d.workspace hbelow hdestination)⟩
  rcases hup.cases_head with heq | ⟨p, hp, hrest⟩
  · exact absurd heq hne
  · cases hp.symm.trans hparent
    exact hrest

variable {front back : List TileChild}

section

variable (hsplit : target.children = front ++ back)
include hsplit

/-- The world in the middle of the transfer. -/
theorem Departing.arrived_containers (hinsertion : insertion = front.length) (output : Entity)
    (visible : Bool) (weight : ℚ) :
    ((s.unlinked parent index).arrived event.window source destination event.workspace output visible
      insertion weight leaves).containers =
      update (fun n => (s.containers n).map (·.without [event.window])) destination
        (some { target with children := front ++ ⟨event.window, weight⟩ :: back }) := by
  obtain ⟨-, hparent, container, edge, hcontainer, hposition⟩ := slot_some d.slot
  obtain ⟨hup, hbelow, hapart⟩ := d.apart h
  have hforeign : target.without [event.window] = target := by
    refine without_of_notMem fun m hm hlisted => hapart ?_
    rw [List.mem_singleton.mp hm] at hlisted
    have hlisted' := (h.edges event.window destination).mpr ⟨target, d.outer, hlisted⟩
    cases hlisted'.symm.trans hparent
    exact hbelow
  have hcontainers : (s.unlinked parent index).containers =
      fun n => (s.containers n).map (·.without [event.window]) :=
    h.eraseIdx_containers hparent hcontainer hposition
  rw [arrived, modifyContainer]
  rw [hcontainers]
  dsimp only
  rw [d.outer, Option.map_some, Option.map_some, hforeign, hinsertion, hsplit, insertIdx_split]

/-- The loop runs while the edge has moved. -/
theorem Departing.leaves_source (hinsertion : insertion = front.length) (output : Entity) (visible : Bool)
    (weight : ℚ) :
    Leaves s ((s.unlinked parent index).arrived event.window source destination event.workspace output
      visible insertion weight leaves)
      (fun other => other = source) (fun n => decide (n = source) = true) event.window parent := by
  obtain ⟨level, hlevel⟩ := h.ranked
  obtain ⟨-, hparent, -⟩ := slot_some d.slot
  obtain ⟨hup, hbelow, hapart⟩ := d.apart h
  have hcontainers := d.arrived_containers h hsplit hinsertion output visible weight
  have hfar : ∀ {a}, s.Ascends parent a → a ≠ source → a ≠ destination := by
    rintro a ha hne rfl
    obtain ⟨r, hr, -, har⟩ := h.root_eq (n := a) (by
      rcases ha.cases_tail with rfl | ⟨b, -, hb⟩
      · exact h.inTree_parent hparent
      · exact h.inTree_parent hb)
    exact hapart (h.root_unique d.root hr hbelow (ha.trans har) ▸ har)
  refine ⟨fun _ _ => rfl, fun a ha hstays => ?_, fun _ hkept => hkept, fun _ _ hkept => .inl hkept,
    fun a ha n c hc hlisted => ?_⟩
  · rw [hcontainers, Function.update_of_ne (hfar ha fun heq => hstays (decide_eq_true heq))]
  · rw [hcontainers] at hc
    by_cases hn : n = destination
    · subst hn
      rw [Function.update_self] at hc
      cases hc
      have hne : a ≠ event.window := by
        rintro rfl
        exact hlevel.not_ascends_parent hparent ha
      refine (h.edges a n).mpr ⟨target, d.outer, ?_⟩
      rw [entities, hsplit]
      rw [entities] at hlisted
      simp only [List.map_append, List.map_cons, List.mem_append, List.mem_cons] at hlisted ⊢
      exact hlisted.imp id fun hrest => hrest.resolve_left hne
    · rw [Function.update_of_ne hn] at hc
      obtain ⟨e, he, rfl⟩ := Option.map_eq_some_iff.mp hc
      exact (h.edges a n).mpr ⟨e, he, (mem_entities_without.mp hlisted).1⟩

variable {vacated : List Entity}

/-- **The world when the transfer of a node is done.** -/
theorem Departing.attach_flush (hinsertion : insertion = front.length) (output : Entity) (visible : Bool)
    (weight : ℚ) (hv : Vacated s (fun n => decide (n = source) = true) event.window parent vacated) :
    ((s.unlinked parent index).attach event.window parent source destination event.workspace output
      visible insertion weight leaves).flush =
      s.crossed event.window source destination event.workspace output visible
        { target with children := front ++ ⟨event.window, weight⟩ :: back } leaves vacated := by
  obtain ⟨level, hlevel⟩ := h.ranked
  obtain ⟨-, hparent, -⟩ := slot_some d.slot
  have hroots : s.roots.filter (· ∉ vacated) = s.roots :=
    List.filter_eq_self.mpr fun r hr => decide_eq_true fun hmem => by
      obtain ⟨-, -, ⟨p, hp⟩, -⟩ := hv.mem hmem
      exact h.notMem_roots hp hr
  rw [attach_eq, retireEmptyAncestors, Leaves.retireEmpty_eq h hlevel hv
    (d.leaves_source h hsplit hinsertion output visible weight) hparent
    (Nat.lt_succ_of_le (hlevel.bound parent)), d.arrived_containers h hsplit hinsertion]
  simp only [arrived, unlinked, modifyContainer, publish,
    markDirty, defer, flush, arrivalCommands, h.settled, List.nil_append,
    List.cons_append, List.append_assoc, List.foldl_cons, List.foldl_append, List.foldl_nil,
    Deferred.apply, foldl_resettle, foldl_despawn, hroots]
  rw [crossed, h.settled, List.append_assoc]

/-- **A node that moves to another workspace** is transplanted. -/
theorem Departing.transplant (output : Entity) (visible : Bool) (weight : ℚ)
    (hv : Vacated s (fun n => decide (n = source) = true) event.window parent vacated) :
    Transplant s (s.crossed event.window source destination event.workspace output visible
      { target with children := front ++ ⟨event.window, weight⟩ :: back } leaves vacated)
      event.window parent destination target front back ⟨event.window, weight⟩ vacated := by
  obtain ⟨-, hparent, -⟩ := slot_some d.slot
  obtain ⟨hup, hbelow, hapart⟩ := d.apart h
  have hfar : destination ∉ vacated := by
    intro hmem
    obtain ⟨hstays, hascends, -⟩ := hv.mem hmem
    obtain ⟨hdestination, -⟩ := arrival_spec h d.arrival d.outer
    obtain ⟨r, hr, -, hr'⟩ := h.root_eq (h.inTree_parent hparent)
    exact d.ne ((h.root_unique d.root hr hbelow hr').trans
      (h.root_unique hr d.workspace hr' (hascends.trans hdestination)))
  have hforeign : event.window ∉ target.entities := fun hlisted => by
    have hlisted' := (h.edges event.window destination).mpr ⟨target, d.outer, hlisted⟩
    cases hlisted'.symm.trans hparent
    exact hapart hbelow
  refine
    { child := hparent
      outer := d.outer
      apart := fun hascends => hapart (hascends.trans hup)
      moved := rfl
      list := by rw [filter_entity_of_notMem hforeign, hsplit]
      retired := fun n hn => ?_
      closed := fun n p hp hmem => hv.child_mem h hp hmem
      self := ?_
      others := fun n hn => ?_
      parents := fun _ => rfl
      roots := rfl
      history := fun n hn => (List.mem_filter.mp hn).1
      spawned := rfl
      settled := h.settled }
  · obtain ⟨-, hrest⟩ := hv.mem hn
    exact ⟨fun heq => hfar (heq ▸ hn), hrest⟩
  · dsimp only [crossed]
    rw [if_neg hfar, Function.update_self, Option.map_some]
  · dsimp only [crossed]
    rw [Function.update_of_ne hn, Option.map_map]
    congr 2
    funext c
    exact c.without_without [event.window] vacated

end

end Crossed

/-! ### All of a workspace moves -/

/-- The group that all of a workspace becomes. -/
def TileWorld.groupOf (s : TileWorld) (container : TileContainer) : TileContainer :=
  { container with id := s.nextId }

/-- The workspace, if the group were still its only child. -/
def TileWorld.grouped (s : TileWorld) (source : Entity) (container : TileContainer) : TileWorld :=
  { s with
    containers := update (update s.containers source
      (some { container with children := [⟨s.spawned, 1⟩], preparedSplit := none }))
        s.spawned (some (s.groupOf container))
    parents := update (fun n => if n ∈ container.entities then some s.spawned else s.parents n)
      s.spawned (some source)
    history := s.groupHistory container
    nextId := s.nextId + 1
    spawned := s.spawned + 1 }

/-- The tree after all of one workspace entered another one. -/
def TileWorld.crossedAll (s : TileWorld) (source destination workspace output : Entity) (visible : Bool)
    (container list : TileContainer) (leaves : List Entity) : TileWorld :=
  { s.grouped source container with
    containers := update (update (update s.containers source
      (some { container with children := [], preparedSplit := none })) destination (some list))
        s.spawned (some (s.groupOf container))
    parents := update (fun n => if n ∈ container.entities then some s.spawned else s.parents n)
      s.spawned (some destination)
    rects := update s.rects s.spawned (some {})
    windows := fun n =>
      if n ∈ leaves then resettled workspace output visible (s.windows n) else s.windows n
    dirty := true
    events := s.events ++ leaves.map (fun leaf => .memberMoved leaf source) ++
      [.treeChanged, .layoutRequested] }

section Grouped

variable {s : TileWorld} (h : WellFormed s) {event : TileWorkspaceMove}
  {source parent destination : Entity} {container target : TileContainer} {insertion : ℕ}
  {leaves : List Entity}
  (d : Departing s event source parent destination none target insertion leaves)

theorem foldl_insertParent (nodes : List Entity) (parent : Entity) (s : TileWorld) :
    (nodes.map fun node => Deferred.insertParent node parent).foldl Deferred.apply s =
      { s with parents := fun n => if n ∈ nodes then some parent else s.parents n } := by
  induction nodes generalizing s with
  | nil => simp only [List.map_nil, List.foldl_nil, List.not_mem_nil, if_false]
  | cons node nodes ih =>
      rw [List.map_cons, List.foldl_cons, ih, Deferred.apply]
      congr 1
      funext n
      dsimp only
      by_cases hn : n = node
      · subst hn
        rw [Function.update_self, if_pos List.mem_cons_self, ite_self]
      · rw [Function.update_of_ne hn]
        simp only [List.mem_cons, hn, false_or]

theorem foldl_defer_insertParent (children : List TileChild) (parent : Entity) (s : TileWorld) :
    children.foldl (fun s child => s.defer (.insertParent child.entity parent)) s =
      { s with commands := s.commands ++
        (children.map TileChild.entity).map fun node => .insertParent node parent } := by
  induction children generalizing s with
  | nil => simp only [List.foldl_nil, List.map_nil, List.append_nil]
  | cons child children ih =>
      rw [List.foldl_cons, ih]
      simp only [defer, List.map_cons, List.append_assoc, List.singleton_append]

/-- What a workspace becomes that is emptied. -/
theorem detachAll_eq {s₁ : TileWorld} {moved : Entity} (hsettled : s.commands = [])
    (hdetach : s.detachAll source = some (moved, s₁)) : ∃ container,
      s.containers source = some container ∧ s.nextId < u64Max ∧ moved = s.spawned ∧ s₁ =
        { s with
          containers := update s.containers source
            (some { container with children := [], preparedSplit := none })
          history := s.groupHistory container
          nextId := s.nextId + 1
          spawned := s.spawned + 1
          dirty := true
          commands := .spawn s.spawned (s.newGroup container) ::
            .modifyContainer s.spawned (fun c =>
              { c with layout := container.layout, preparedSplit := container.preparedSplit }) ::
            container.entities.map fun node => .insertParent node s.spawned } := by
  rw [detachAll] at hdetach
  cases hcontainer : s.containers source with
  | none => simp only [hcontainer, reduceCtorEq] at hdetach
  | some container =>
      simp only [hcontainer, createContainer] at hdetach
      by_cases hid : s.nextId < u64Max
      · rw [if_pos hid] at hdetach
        simp only [foldl_defer_insertParent, Option.some.injEq, Prod.mk.injEq] at hdetach
        obtain ⟨rfl, rfl⟩ := hdetach
        refine ⟨container, rfl, hid, rfl, ?_⟩
        cases hrecent : s.history.find? (· ∈ container.entities) with
        | none | some =>
            simp only [modifyContainer, defer, groupHistory, hrecent,
              hsettled, hcontainer, Option.map_some, List.nil_append, List.cons_append]
            rfl
      · rw [if_neg hid] at hdetach
        cases hdetach

include h d

/-- The destination is in another tree. -/
theorem Departing.apart_all : event.window = source ∧ parent = source ∧ destination ≠ source ∧
    s.Ascends destination event.workspace ∧ ¬ s.Ascends destination source := by
  obtain ⟨hwindow, hparent⟩ := slot_none d.slot
  obtain ⟨hdestination, -⟩ := arrival_spec h d.arrival d.outer
  have hapart : ¬ s.Ascends destination source := fun hbelow =>
    d.ne (h.root_unique d.root d.workspace hbelow hdestination)
  exact ⟨hwindow, hparent, fun heq => hapart (heq ▸ .refl), hdestination, hapart⟩

variable {moved r n : Entity} {s₁ : TileWorld} {level : Entity → ℕ} {row : List Entity}

/-- **The world when the transfer of a workspace is done.** -/
theorem Departing.attach_flush_all
    (hdetach : s.detachAll source = some (moved, s₁)) {front back : List TileChild}
    (hsplit : target.children = front ++ back) (hinsertion : insertion = front.length) (output : Entity)
    (visible : Bool) (weight : ℚ) : ∃ container, s.containers source = some container ∧
      moved = s.spawned ∧
      (s₁.attach moved source source destination event.workspace output visible insertion weight
        leaves).flush =
        s.crossedAll source destination event.workspace output visible container
          { target with children := front ++ ⟨s.spawned, weight⟩ :: back } leaves := by
  obtain ⟨-, -, hne, -, -⟩ := d.apart_all h
  obtain ⟨container, hcontainer, -, rfl, rfl⟩ := detachAll_eq h.settled hdetach
  refine ⟨container, hcontainer, rfl, ?_⟩
  have hkept : ∀ s₂ : TileWorld, s₂.retireEmptyAncestors source source = s₂ := by
    intro s₂
    rw [retireEmptyAncestors, retireEmpty, if_pos (decide_eq_true rfl)]
  rw [attach_eq, hkept]
  simp only [arrived, modifyContainer, publish,
    markDirty, defer, flush, arrivalCommands, List.cons_append,
    List.append_assoc, List.foldl_cons, List.foldl_append, List.foldl_nil, List.nil_append,
    Deferred.apply, foldl_resettle, foldl_insertParent, Function.update_self, Function.update_idem,
    Function.update_of_ne hne, d.outer, Option.map_some, hinsertion, hsplit, insertIdx_split]
  rw [crossedAll, grouped, h.settled, List.append_assoc]
  rfl

omit d in
/-- The group dissolves into what the workspace held. -/
theorem dissolves_grouped (hcontainer : s.containers source = some container) :
    Dissolves (s.grouped source container) s s.spawned source (s.groupOf container)
      { container with children := [⟨s.spawned, 1⟩], preparedSplit := none } container := by
  have hfresh := h.ne_spawned_of_container hcontainer
  obtain ⟨hgone, horphan, -, hforeign⟩ := h.fresh
  have hgroup : (s.grouped source container).parents s.spawned = some source := by
    dsimp only [grouped]
    rw [Function.update_self]
  refine ⟨hfresh, Function.update_self .., hgone, ?_, hcontainer, ?_, ?_, List.mem_singleton_self _, ?_,
    hgroup, horphan, ?_, ?_, rfl⟩
  · dsimp only [grouped]
    rw [Function.update_of_ne hfresh, Function.update_self]
  · intro m hm hmg
    dsimp only [grouped]
    rw [Function.update_of_ne hmg, Function.update_of_ne hm]
  · change container.entities = [s.spawned].flatMap _
    rw [List.flatMap_singleton, unfoldNode, if_pos rfl]
    rfl
  · intro m other hm hother
    dsimp only [grouped] at hother
    by_cases hmg : m = s.spawned
    · rw [hmg, Function.update_self] at hother
      cases hother
      exact hforeign source container hcontainer
    · rw [Function.update_of_ne hmg, Function.update_of_ne hm] at hother
      exact hforeign m other hother
  · intro n hn
    have hparent := (h.edges n source).mpr ⟨container, hcontainer, hn⟩
    refine ⟨?_, hparent⟩
    dsimp only [grouped]
    rw [Function.update_of_ne (h.ne_spawned_of_parent hparent)]
    exact if_pos hn
  · intro n hng hn
    dsimp only [grouped]
    rw [Function.update_of_ne hng]
    exact (if_neg hn).symm

omit d in
/-- The forest with the group is well formed, if there is room for it. -/
theorem wellFormed_grouped (hcontainer : s.containers source = some container)
    (hlevel : Ranked s level) (hroot : source ∈ s.roots)
    (hroom : ∀ m, s.Ascends m source → level m < maxDepth) : WellFormed (s.grouped source container) := by
  refine (dissolves_grouped h hcontainer).wellFormed_full h h.settled (List.nodup_singleton _) ?_
    ⟨level, hlevel, ?_, fun n k hk hn => ?_⟩ (Nat.lt_succ_self _) (Nat.le_succ _) fun n hn => ?_
  · rintro c (rfl | rfl) child hchild
    · exact h.weights source container hcontainer child hchild
    · rw [List.mem_singleton.mp hchild]
      exact one_pos
  · rw [hlevel.root source hroot]
    decide
  · exact hroom n (hn.tail ((h.edges k source).mpr ⟨container, hcontainer, hk⟩))
  · have hmem : n ∈ s.history ∨ n = s.spawned := by
      change n ∈ s.groupHistory container at hn
      rw [groupHistory] at hn
      split at hn
      · exact mem_of_mem_wrapHistory hn
      · exact .inl hn
    rcases hmem with hmem | rfl
    · exact Nat.lt_succ_of_lt (h.spawned n (.inr (.inr hmem)))
    · exact Nat.lt_succ_self _

omit d in
/-- The way up from a node in another tree. -/
theorem ascends_grouped (hcontainer : s.containers source = some container)
    (hr : r ∈ s.roots) (hne : r ≠ source) (hroot : source ∈ s.roots) (hn : s.Ascends n r) :
    (s.grouped source container).Ascends n r := by
  induction hn using Relation.ReflTransGen.head_induction_on with
  | refl => exact .refl
  | @head n p hp hup ih =>
      refine .head ?_ ih
      have hlisted : n ∉ container.entities := fun hlisted => by
        cases hp.symm.trans ((h.edges n source).mpr ⟨container, hcontainer, hlisted⟩)
        exact hne (h.root_unique hr hroot hup .refl)
      rw [← (dissolves_grouped h hcontainer).parents n (h.ne_spawned_of_parent hp) hlisted]
      exact hp

/-- **All of a workspace that moves** is transplanted, once it is a group. -/
theorem Departing.transplant_all (hcontainer : s.containers source = some container)
    (hgrouped : WellFormed (s.grouped source container)) {front back : List TileChild}
    (hsplit : target.children = front ++ back) (output : Entity) (visible : Bool) (weight : ℚ) :
    Transplant (s.grouped source container)
      (s.crossedAll source destination event.workspace output visible container
        { target with children := front ++ ⟨s.spawned, weight⟩ :: back } leaves)
      s.spawned source destination target front back ⟨s.spawned, weight⟩ [] := by
  obtain ⟨-, -, hne, hdestination, -⟩ := d.apart_all h
  have x := dissolves_grouped h hcontainer
  have hfresh := h.ne_spawned_of_container d.outer
  have houter : (s.grouped source container).containers destination = some target :=
    (x.rest destination hne hfresh).symm.trans d.outer
  have hforeign : s.spawned ∉ target.entities := x.foreign destination target hne houter
  refine
    { child := x.parent
      outer := houter
      apart := fun hascends => ?_
      moved := rfl
      list := by rw [filter_entity_of_notMem hforeign, hsplit]
      retired := nofun
      closed := nofun
      self := ?_
      others := fun n hn => ?_
      parents := fun n => ?_
      roots := rfl
      history := fun _ hn => hn
      spawned := rfl
      settled := h.settled }
  · exact d.ne (hgrouped.root_unique d.root d.workspace (hascends.tail x.parent)
      (ascends_grouped h hcontainer d.workspace d.ne.symm d.root hdestination))
  · dsimp only [crossedAll]
    rw [Function.update_of_ne hfresh, Function.update_self, without_nil]
  · rw [if_neg List.not_mem_nil]
    dsimp only [crossedAll, grouped]
    by_cases hng : n = s.spawned
    · subst hng
      rw [Function.update_self, Function.update_self, Option.map_some]
      refine congrArg some (without_of_notMem fun m hm => ?_).symm
      rw [List.mem_singleton.mp hm]
      exact h.fresh.2.2.2 source container hcontainer
    · rw [Function.update_of_ne hng, Function.update_of_ne hn, Function.update_of_ne hng]
      by_cases hns : n = source
      · subst hns
        rw [Function.update_self, Function.update_self, Option.map_some, without]
        simp only [List.mem_singleton, not_true_eq_false, decide_false, List.filter_cons_of_neg,
          Bool.false_eq_true, not_false_eq_true, List.filter_nil]
      · rw [Function.update_of_ne hns, Function.update_of_ne hns]
        cases hc : s.containers n with
        | none => rfl
        | some c =>
            refine congrArg some (without_of_notMem fun m hm => ?_).symm
            rw [List.mem_singleton.mp hm]
            exact h.fresh.2.2.2 n c hc
  · rw [if_neg List.not_mem_nil]
    dsimp only [crossedAll, grouped]
    rw [Function.update_idem]

omit d in
/-- What is below the group was below the workspace. -/
theorem ascends_of_grouped (hcontainer : s.containers source = some container)
    (hroot : source ∈ s.roots) (hn : (s.grouped source container).Ascends n s.spawned) :
    n = s.spawned ∨ n ≠ source ∧ s.Ascends n source := by
  have x := dissolves_grouped h hcontainer
  induction hn using Relation.ReflTransGen.head_induction_on with
  | refl => exact .inl rfl
  | @head n p hp _ ih =>
      by_cases hng : n = s.spawned
      · exact .inl hng
      · have hne : n ≠ source := by
          rintro rfl
          have hlisted : n ∉ container.entities := fun hlisted => absurd
            ((h.root n hroot).1.symm.trans ((h.edges n n).mpr ⟨container, hcontainer, hlisted⟩)) nofun
          rw [← x.parents n hng hlisted, (h.root n hroot).1] at hp
          cases hp
        refine .inr ⟨hne, ?_⟩
        by_cases hlisted : n ∈ container.entities
        · exact .single ((h.edges n source).mpr ⟨container, hcontainer, hlisted⟩)
        · rw [← x.parents n hng hlisted] at hp
          rcases ih with rfl | ⟨-, hup⟩
          · obtain ⟨c, hc, -⟩ := (h.edges n _).mp hp
            exact absurd (x.gone.symm.trans hc) nofun
          · exact .head hp hup

omit d in
/-- With the group, what was below the workspace is one level deeper. -/
theorem ranked_grouped (hcontainer : s.containers source = some container) (hlevel : Ranked s level)
    (hroot : source ∈ s.roots) (hroom : ∀ m, s.Ascends m source → level m < maxDepth) :
    ∃ deeper, Ranked (s.grouped source container) deeper ∧ deeper s.spawned = 1 ∧
      (∀ n, n ≠ source → s.Ascends n source → deeper n = level n + 1) ∧
      ∀ n, n ≠ s.spawned → ¬ s.Ascends n source → deeper n = level n := by
  classical
  have x := dissolves_grouped h hcontainer
  have hnone : ¬ s.Ascends s.spawned source := by
    intro hascends
    rcases hascends.cases_head with heq | ⟨p, hp, -⟩
    · exact x.ne heq.symm
    · exact absurd (x.orphan.symm.trans hp) nofun
  have htop := hlevel.root source hroot
  refine ⟨fun n => if n = s.spawned then 1 else if n ≠ source ∧ s.Ascends n source then level n + 1
    else level n, ⟨fun n => ?_, fun r hr => ?_, fun n p hp => ?_⟩, if_pos rfl, fun n hn hup => ?_,
    fun n hn hup => ?_⟩
  · split_ifs with _ hbelow
    · decide
    · exact hroom n hbelow.2
    · exact hlevel.bound n
  · rw [if_neg (h.root_ne_spawned hr), if_neg]
    · exact hlevel.root r hr
    · exact fun hbelow => hbelow.1 (h.root_unique hr hroot .refl hbelow.2)
  · by_cases hng : n = s.spawned
    · subst hng
      cases x.parent.symm.trans hp
      rw [if_pos rfl, if_neg x.ne, if_neg (fun hbelow => hbelow.1 rfl), htop]
    · by_cases hlisted : n ∈ container.entities
      · obtain ⟨hp', hparent⟩ := x.inner n hlisted
        cases hp'.symm.trans hp
        have hne : n ≠ source := by
          rintro rfl
          exact h.notMem_roots hparent hroot
        have hstep := hlevel.step n source hparent
        rw [if_neg hng, if_pos ⟨hne, .single hparent⟩, if_pos rfl]
        omega
      · rw [← x.parents n hng hlisted] at hp
        have hstep := hlevel.step n p hp
        have hpg : p ≠ s.spawned := by
          rintro rfl
          obtain ⟨c, hc, -⟩ := (h.edges n _).mp hp
          exact absurd (x.gone.symm.trans hc) nofun
        have hps : p ≠ source := by
          rintro rfl
          obtain ⟨c, hc, hmem⟩ := (h.edges n p).mp hp
          cases hcontainer.symm.trans hc
          exact hlisted hmem
        have hne : n ≠ source := by
          rintro rfl
          exact h.notMem_roots hp hroot
        have hiff : s.Ascends n source ↔ s.Ascends p source := by
          constructor
          · intro hascends
            rcases hascends.cases_head with heq | ⟨q, hq, hup⟩
            · exact absurd heq hne
            · cases hp.symm.trans hq
              exact hup
          · exact .head hp
        rw [if_neg hng, if_neg hpg]
        by_cases hup : s.Ascends p source
        · rw [if_pos ⟨hne, hiff.mpr hup⟩, if_pos ⟨hps, hup⟩]
          omega
        · rw [if_neg fun hbelow => hup (hiff.mp hbelow.2), if_neg fun hbelow => hup hbelow.2]
          exact hstep
  · have hng : n ≠ s.spawned := by
      rintro rfl
      exact hnone hup
    dsimp only
    rw [if_neg hng, if_pos ⟨hn, hup⟩]
  · dsimp only
    rw [if_neg hn, if_neg fun hbelow => hup hbelow.2]

omit d in
/-- The group has the row of the workspace. -/
theorem leafRow_grouped (hcontainer : s.containers source = some container)
    (hroot : source ∈ s.roots) (hrow : s.LeafRow source row) :
    (s.grouped source container).LeafRow s.spawned row ∧
      (s.grouped source container).LeafRow source row := by
  have x := dissolves_grouped h hcontainer
  have hchildren : Frontier (s.grouped source container).kids (container.entities ++ []) row := by
    cases hrow with
    | leaf hnone _ =>
        rw [kids, hcontainer] at hnone
        cases hnone
    | node hsome hrest =>
        rw [kids, hcontainer] at hsome
        cases hsome
        refine hrest.congr (fun n => n ≠ source ∧ n ≠ s.spawned) (fun n hn => ?_)
          (fun n children hn hsome child hchild => ?_) fun n hn => ?_
        · rw [kids, kids, x.rest n hn.1 hn.2]
        · have hparent := h.parents_iff_kids.mpr ⟨children, hsome, hchild⟩
          exact ⟨fun heq => h.notMem_roots hparent (heq ▸ hroot), h.ne_spawned_of_parent hparent⟩
        · rw [List.append_nil] at hn
          have hparent := (h.edges n source).mpr ⟨container, hcontainer, hn⟩
          exact ⟨fun heq => h.notMem_roots hparent (heq ▸ hroot), h.ne_spawned_of_parent hparent⟩
  have hgroup : (s.grouped source container).LeafRow s.spawned row :=
    .node (by rw [kids, x.group]; rfl) hchildren
  have hroot' : (s.grouped source container).kids source = some [s.spawned] := by
    rw [kids, x.outer]
    rfl
  exact ⟨hgroup, .node hroot' hgroup⟩

omit d in
/-- Other rows are as they were. -/
theorem leafRow_grouped_other (hcontainer : s.containers source = some container)
    (hroot : source ∈ s.roots) (hr : r ∈ s.roots) (hne : r ≠ source)
    (hrow : s.LeafRow r row) : (s.grouped source container).LeafRow r row := by
  have x := dissolves_grouped h hcontainer
  refine hrow.congr (fun n => n ≠ source ∧ n ≠ s.spawned) (fun n hn => ?_)
    (fun n children _ hsome child hchild => ?_) fun n hn => ?_
  · rw [kids, kids, x.rest n hn.1 hn.2]
  · have hparent := h.parents_iff_kids.mpr ⟨children, hsome, hchild⟩
    exact ⟨fun heq => h.notMem_roots hparent (heq ▸ hroot), h.ne_spawned_of_parent hparent⟩
  · rw [List.mem_singleton.mp hn]
    exact ⟨hne, h.root_ne_spawned hr⟩

end Grouped

/-! ### Atomic transfers -/

/-- What has changed when a transfer is done. -/
structure Transferred (s s' : TileWorld) (event : TileWorkspaceMove) (source output : Entity)
    (visible : Bool) (moved : Entity) (leaves : List Entity) : Prop where
  wellFormed : WellFormed s'
  roots : s'.roots = s.roots
  departed : source ∈ s.roots ∧ s.Ascends event.window source ∧ source ≠ event.workspace
  workspace : s.workspaces event.workspace = some { visible, output := some output }
  /-- The leaves that move, in their order, before and after. -/
  row : s.LeafRow event.window leaves
  row' : s'.LeafRow moved leaves
  nodup : leaves.Nodup
  owned : ∀ leaf ∈ leaves, s.membership leaf = some (source, source, false)
  /-- A window or a nested container stays as it is; a workspace hands all that it holds to a group. -/
  top : event.window ≠ source → moved = event.window ∧ s'.containers moved = s.containers moved
  group : event.window = source → ∃ container id, s.containers source = some container ∧
    s'.containers moved = some { container with id } ∧
    s'.containers source = some { container with children := [], preparedSplit := none }
  inner : ∀ n, s.Ascends n event.window → n ≠ event.window → s'.containers n = s.containers n ∧
    s'.parents n = if s.parents n = some event.window then some moved else s.parents n
  /-- One slot of the destination: after the anchor, or at the end of the root. -/
  slot : ∃ destination target front back weight, s.containers destination = some target ∧
    target.children = front ++ back ∧ Arrives s event.workspace destination front back event.anchor ∧
    s'.containers destination = some { target with children := front ++ ⟨moved, weight⟩ :: back } ∧
    s'.parents moved = some destination
  windows : ∀ leaf ∈ leaves, s'.windows leaf = resettled event.workspace output visible (s.windows leaf)
  others : ∀ n, s.containers n = none → n ∉ leaves → s'.windows n = s.windows n ∧
    (s.InTree n → s'.parents n = s.parents n)
  left : ∀ r ∈ s.roots, r ≠ event.workspace → ∀ row, s.LeafRow r row →
    s'.LeafRow r (row.filter (· ∉ leaves))
  entered : ∀ row, s.LeafRow event.workspace row → ∃ left right, row = left ++ right ∧
    s'.LeafRow event.workspace (left ++ leaves ++ right)
  events : s'.events = s.events ++ leaves.reverse.map (fun leaf => .memberMoved leaf source) ++
    [.treeChanged, .layoutRequested]

section Done

variable {s : TileWorld} (h : WellFormed s) {event : TileWorkspaceMove}
  {source parent destination output : Entity} {visible : Bool} {target : TileContainer} {insertion : ℕ}
  {leaves : List Entity}

include h

/-- The leaves of a workspace are not below another one. -/
theorem filter_row_of_ne {r : Entity} (hup : s.Ascends window source) (hroot : source ∈ s.roots)
    (hr : r ∈ s.roots) (hne : source ≠ r) {row : List Entity} (hleaves : s.LeafRow window leaves)
    (hrow : s.LeafRow r row) : row.filter (· ∉ leaves) = row :=
  List.filter_eq_self.mpr fun _ hy => decide_eq_true fun hmem =>
    hne (h.root_unique hroot hr (((h.mem_leafRow hleaves).mp hmem).2.trans hup)
      ((h.mem_leafRow hrow).mp hy).2)

/-- The room that the check leaves. -/
theorem Departing.room {index : Option ℕ}
    (d : Departing s event source parent destination index target insertion leaves) {level : Entity → ℕ}
    (hlevel : Ranked s level) : s.LeafRow event.window leaves.reverse ∧
      (∀ leaf ∈ leaves.reverse, s.membership leaf = some (source, source, false)) ∧
      ∀ m, s.Ascends m event.window → level m + level destination + 1 ≤ maxDepth + level event.window := by
  obtain ⟨ancestors, hancestry, hmovable⟩ := d.checked
  have hspec := movable_spec h hlevel _ _ _ hmovable
  obtain ⟨found, hfound, -, htree⟩ := h.ancestry_eq hlevel destination
  cases hancestry.symm.trans hfound
  obtain ⟨hlength, -⟩ := htree (h.inTree_of_container d.outer)
  refine ⟨hspec.row, fun leaf hleaf => hspec.owned leaf (List.mem_reverse.mp hleaf), fun m hm => ?_⟩
  have hroom := hspec.room event.window (List.mem_singleton_self _) m hm
  have hbound := hlevel.bound destination
  omega

/-- **A window or a nested container is transferred.** -/
theorem Departing.transferred {index : ℕ}
    (d : Departing s event source parent destination (some index) target insertion leaves)
    (hworkspace : s.workspaces event.workspace = some { visible, output := some output }) :
    Transferred s ((s.unlinked parent index).attach event.window parent source destination
      event.workspace output visible insertion (arrivalWeight target) leaves).flush event source
      output visible event.window leaves.reverse := by
  obtain ⟨level, hlevel⟩ := h.ranked
  obtain ⟨hrow, howned, hroom⟩ := d.room h hlevel
  obtain ⟨hne, hparent, container, edge, hcontainer, -⟩ := slot_some d.slot
  obtain ⟨hup, hbelow, -⟩ := d.apart h
  obtain ⟨hdestination, front, back, hsplit, hinsertion, harrives⟩ := arrival_spec h d.arrival d.outer
  obtain ⟨vacated, hv⟩ : ∃ vacated,
      Vacated s (fun n => decide (n = source) = true) event.window parent vacated :=
    h.exists_vacated hbelow (decide_eq_true rfl) (by rw [hcontainer]; rfl) event.window
  have x := d.transplant h hsplit output visible (arrivalWeight target) hv
  have h' := x.wellFormed h hlevel hroom d.weight
  have hleaf : ∀ {n}, s.containers n = none → n ∉ vacated := fun hn hmem => by
    obtain ⟨-, -, -, c, hc⟩ := hv.mem hmem
    exact absurd (hn.symm.trans hc) nofun
  rw [d.attach_flush h hsplit hinsertion output visible _ hv]
  refine
    { wellFormed := h'
      roots := rfl
      departed := ⟨d.root, hup, d.ne⟩
      workspace := hworkspace
      row := hrow
      row' := x.leafRow_moved h hrow
      nodup := h.leafRow_nodup hrow
      owned := howned
      top := fun _ => ⟨rfl, (x.subtree h .refl).1⟩
      group := fun heq => absurd heq hne
      inner := fun n hn hnode => ⟨(x.subtree h hn).1, ?_⟩
      slot := ⟨destination, target, front, back, arrivalWeight target, d.outer, hsplit, harrives,
        ?_, ?_⟩
      windows := fun leaf hmem => ?_
      others := fun n hn hmem => ⟨?_, fun _ => ?_⟩
      left := fun r hr hne' row hrow' => x.leafRow_left h h' hr (fun hascends =>
        hne' (h.root_unique hr d.workspace hascends hdestination)) hrow hrow'
      entered := fun row hrow' => ?_
      events := by rw [List.reverse_reverse]; rfl }
  · rw [(x.subtree h hn).2 hnode]
    split_ifs with heq
    · exact heq
    · rfl
  · rw [x.self]
    refine congrArg some (without_of_notMem fun m hm hlisted => ?_)
    rcases x.mem_list.mp hlisted with rfl | ⟨-, hlisted⟩
    · exact x.notMem_vacated h .refl hm
    · obtain ⟨-, hascends, -⟩ := x.retired m hm
      have hchild := (h.edges m destination).mpr ⟨target, d.outer, hlisted⟩
      obtain ⟨r, hr, -, hr'⟩ := h.root_eq (h.inTree_parent hparent)
      exact d.ne ((h.root_unique d.root hr hbelow hr').trans
        (h.root_unique hr d.workspace hr' (hascends.trans (.head hchild hdestination))))
  · exact x.parents_iff.mpr ⟨x.notMem_vacated h .refl, .inl ⟨rfl, rfl⟩⟩
  · dsimp only [crossed]
    rw [if_neg (hleaf ((h.mem_leafRow hrow).mp hmem).1), if_pos (List.mem_reverse.mp hmem)]
  · dsimp only [crossed]
    rw [if_neg (hleaf hn), if_neg fun hfound => hmem (List.mem_reverse.mpr hfound)]
  · dsimp only [crossed]
    have hwindow : n ≠ event.window := by
      rintro rfl
      exact hmem ((h.mem_leafRow hrow).mpr ⟨hn, .refl⟩)
    rw [if_neg (hleaf hn), Function.update_of_ne hwindow]
  · obtain ⟨left, right, hentered, heq⟩ := x.leafRow_entered h h' d.workspace hdestination hrow hrow'
    rw [filter_row_of_ne h hup d.root d.workspace d.ne hrow hrow'] at heq
    exact ⟨left, right, heq, hentered⟩

/-- **All of a workspace is transferred.** -/
theorem Departing.transferred_all
    (d : Departing s event source parent destination none target insertion leaves)
    (hworkspace : s.workspaces event.workspace = some { visible, output := some output })
    {moved : Entity} {s₁ : TileWorld} (hdetach : s.detachAll source = some (moved, s₁)) :
    Transferred s (s₁.attach moved source source destination event.workspace output visible insertion
      (arrivalWeight target) leaves).flush event source output visible moved
      leaves.reverse := by
  obtain ⟨level, hlevel⟩ := h.ranked
  obtain ⟨hrow, howned, hroom⟩ := d.room h hlevel
  obtain ⟨hwindow, -, hne, hdestination, hapart⟩ := d.apart_all h
  obtain ⟨-, front, back, hsplit, hinsertion, harrives⟩ := arrival_spec h d.arrival d.outer
  obtain ⟨container, hcontainer, rfl, hflush⟩ :=
    d.attach_flush_all h hdetach hsplit hinsertion output visible (arrivalWeight target)
  rw [hflush]
  have htop := hlevel.root source d.root
  rw [hwindow] at hrow hroom
  obtain ⟨deeper, hdeeper, hgroup, hbelow, hother⟩ := ranked_grouped h hcontainer hlevel d.root
    fun m hm => by have := hroom m hm; omega
  have hgrouped := wellFormed_grouped h hcontainer hlevel d.root fun m hm => by
    have := hroom m hm
    omega
  have y := dissolves_grouped h hcontainer
  have x := d.transplant_all h hcontainer hgrouped hsplit output visible (arrivalWeight target)
  have hfresh := h.ne_spawned_of_container d.outer
  have h' := x.wellFormed hgrouped hdeeper (fun m hm => by
    rw [hgroup, hother destination hfresh hapart]
    rcases ascends_of_grouped h hcontainer d.root hm with rfl | ⟨hm', hup⟩
    · have := hroom source .refl
      omega
    · have := hroom m hup
      rw [hbelow m hm' hup]
      omega) d.weight
  obtain ⟨hrow₁, hrow₂⟩ := leafRow_grouped h hcontainer d.root hrow
  have hentered := ascends_grouped h hcontainer d.workspace d.ne.symm d.root hdestination
  have hup : ∀ {n}, s.Ascends n source → n ≠ source →
      (s.grouped source container).Ascends n s.spawned := by
    intro n hn
    induction hn using Relation.ReflTransGen.head_induction_on with
    | refl => exact fun hne => absurd rfl hne
    | @head n p hp hup ih =>
        intro hns
        by_cases hlisted : n ∈ container.entities
        · exact .single (y.inner n hlisted).1
        · have hps : p ≠ source := by
            rintro rfl
            obtain ⟨c, hc, hmem⟩ := (h.edges n p).mp hp
            cases hcontainer.symm.trans hc
            exact hlisted hmem
          refine .head ?_ (ih hps)
          rw [← y.parents n (h.ne_spawned_of_parent hp) hlisted]
          exact hp
  have hrowOf : ∀ r ∈ s.roots, ∀ row, s.LeafRow r row →
      (s.grouped source container).LeafRow r row := by
    intro r hr row hrow'
    by_cases hrs : r = source
    · subst hrs
      cases hrow.unique hrow'
      exact hrow₂
    · exact leafRow_grouped_other h hcontainer d.root hr hrs hrow'
  refine
    { wellFormed := h'
      roots := rfl
      departed := ⟨d.root, hwindow ▸ .refl, d.ne⟩
      workspace := hworkspace
      row := by rw [hwindow]; exact hrow
      row' := x.leafRow_moved hgrouped hrow₁
      nodup := h.leafRow_nodup hrow
      owned := howned
      top := fun hnot => absurd hwindow hnot
      group := fun _ => ⟨container, s.nextId, hcontainer, ?_, ?_⟩
      inner := fun n hn hnode => ?_
      slot := ⟨destination, target, front, back, arrivalWeight target, d.outer, hsplit, harrives,
        by rw [x.self, without_nil],
        x.parents_iff.mpr ⟨List.not_mem_nil, .inl ⟨rfl, rfl⟩⟩⟩
      windows := fun leaf hmem => if_pos (List.mem_reverse.mp hmem)
      others := fun n hn hmem => ⟨if_neg fun hfound => hmem (List.mem_reverse.mpr hfound),
        fun htree => ?_⟩
      left := fun r hr hne' row hrow' => x.leafRow_left hgrouped h' hr (fun hascends =>
        hne' (hgrouped.root_unique hr d.workspace hascends hentered)) hrow₁ (hrowOf r hr row hrow')
      entered := fun row hrow' => ?_
      events := by rw [List.reverse_reverse]; rfl }
  · exact Function.update_self ..
  · dsimp only [crossedAll]
    rw [Function.update_of_ne (h.ne_spawned_of_container hcontainer), Function.update_of_ne hne.symm,
      Function.update_self]
  · rw [hwindow] at hn hnode ⊢
    have hng : n ≠ s.spawned := by
      rintro rfl
      rcases hn.cases_head with heq | ⟨p, hp, -⟩
      · exact y.ne heq.symm
      · exact absurd (y.orphan.symm.trans hp) nofun
    obtain ⟨hc, hp⟩ := x.subtree hgrouped (hup hn hnode)
    rw [hc, hp hng, y.rest n hnode hng]
    refine ⟨rfl, ?_⟩
    by_cases hlisted : n ∈ container.entities
    · rw [(y.inner n hlisted).1, if_pos (y.inner n hlisted).2]
    · rw [← y.parents n hng hlisted, if_neg]
      intro heq
      obtain ⟨c, hc, hmem⟩ := (h.edges n source).mp heq
      cases hcontainer.symm.trans hc
      exact hlisted hmem
  · have hng : n ≠ s.spawned := by
      rintro rfl
      rcases htree with hr | hp
      · exact h.root_ne_spawned hr rfl
      · rw [y.orphan] at hp
        cases hp
    have hlisted : n ∉ container.entities := fun hlisted => hmem
      ((h.mem_leafRow hrow).mpr ⟨hn, .single (y.inner n hlisted).2⟩)
    dsimp only [crossedAll]
    rw [Function.update_of_ne hng, if_neg hlisted]
  · obtain ⟨left, right, hrow'', heq⟩ := x.leafRow_entered hgrouped h' d.workspace hentered hrow₁
      (hrowOf _ d.workspace row hrow')
    rw [filter_row_of_ne h .refl d.root d.workspace d.ne hrow hrow'] at heq
    exact ⟨left, right, heq, hrow''⟩

/-- **A node in a tree is transferred, or nothing changes.** -/
theorem transferred_of_tiled (hfloating : ∀ source, s.departure event.window ≠ some (source, true)) :
    s.applyMove event = s ∨ ∃ source output visible moved leaves,
      Transferred s (s.applyMove event) event source output visible moved leaves := by
  rcases moveWindow_cases s event hfloating with hsame | ⟨source, output, visible, parent, destination,
    index, target, insertion, leaves, moved, s₁, hworkspace, hdeparting, hdetach, heq⟩
  · left
    rw [applyMove, hsame, flush_settled h.settled]
  right
  rw [applyMove, heq]
  cases index with
  | some index =>
      cases hdetach
      exact ⟨source, output, visible, _, _, hdeparting.transferred h hworkspace⟩
  | none =>
      obtain ⟨-, rfl⟩ := slot_none hdeparting.slot
      exact ⟨parent, output, visible, _, _, hdeparting.transferred_all h hworkspace hdetach⟩

end Done

/-! ### Windows that float -/

/-- What has changed when a floating window is transferred: the trees are as they were. -/
structure Floated (s s' : TileWorld) (event : TileWorkspaceMove) (source output : Entity)
    (visible : Bool) : Prop where
  departed : s.membership event.window = some (source, source, true) ∧ source ≠ event.workspace
  workspace : s.workspaces event.workspace = some { visible, output := some output }
  window : s'.windows event.window = resettled event.workspace output visible
    { s.windows event.window with slot := none, pendingDialogPlacement := false }
  others : ∀ n, n ≠ event.window → s'.windows n = s.windows n
  trees : s'.roots = s.roots ∧ s'.containers = s.containers ∧ s'.parents = s.parents
  history : s'.history = s.history
  events : s'.events = s.events ++ [.memberMoved event.window source]

theorem floated_of_floating (hsettled : s.commands = []) {event : TileWorkspaceMove}
    (hfloating : s.departure event.window = some (source, true)) :
    s.applyMove event = s ∨ ∃ output visible, Floated s (s.applyMove event) event source output visible := by
  rw [applyMove, moveWindow, hfloating]
  dsimp only
  by_cases hrefused : source ∉ s.roots ∨ source = event.workspace ∨ event.workspace ∉ s.roots
  · rw [if_pos hrefused, flush_settled hsettled]
    exact .inl rfl
  rw [if_neg hrefused]
  simp only [not_or, not_not] at hrefused
  split
  · rename_i visible output hworkspace
    rw [if_pos rfl]
    refine .inr ⟨output, visible, ?_⟩
    simp only [moveFloating, flush, defer, hsettled, List.nil_append,
      List.cons_append, List.foldl_cons, List.foldl_nil, Deferred.apply]
    exact
      { departed := ⟨departure_floating hfloating, hrefused.2.1⟩
        workspace := hworkspace
        window := by
          dsimp only
          rw [Function.update_self, Function.update_self]
        others := fun n hn => by
          dsimp only
          rw [Function.update_of_ne hn, Function.update_of_ne hn]
        trees := ⟨rfl, rfl, rfl⟩
        history := rfl
        events := rfl }
  · exact .inl (flush_settled hsettled)

/-- **Workspace transfer is atomic and loses nothing.**  Nothing changes; or the leaves below the window
have moved, in their order and with all that is between them, into one slot of the destination, which
owns them now, and no other leaf has moved; or the window floats, and no tree changes. -/
theorem workspace_transfer_is_atomic (s : TileWorld) (h : WellFormed s) (event : TileWorkspaceMove) :
    s.applyMove event = s ∨
      (∃ source output visible moved leaves,
        Transferred s (s.applyMove event) event source output visible moved leaves) ∨
      ∃ source output visible, Floated s (s.applyMove event) event source output visible := by
  by_cases hfloating : ∃ source, s.departure event.window = some (source, true)
  · obtain ⟨source, hfloating⟩ := hfloating
    rcases floated_of_floating h.settled hfloating with hsame | hdone
    · exact .inl hsame
    · exact .inr (.inr ⟨source, hdone⟩)
  · rcases transferred_of_tiled h (not_exists.mp hfloating) with hsame | hdone
    · exact .inl hsame
    · exact .inr (.inl hdone)

/-- The sample, and a second workspace that is empty. -/
def twoWorkspaces : TileWorld :=
  { sample with
    containers := update sample.containers 5
      (some { id := 2, axis := .horizontal, layout := .split .horizontal, children := [] })
    roots := [0, 5]
    workspaces := update sample.workspaces 5 (some { visible := false, output := some 6 })
    nextId := 3
    spawned := 7 }

theorem twoWorkspaces_containers {p : Entity} {c : TileContainer}
    (h : twoWorkspaces.containers p = some c) :
    p = 5 ∧ c.children = [] ∨ p ≠ 5 ∧ sample.containers p = some c := by
  dsimp only [twoWorkspaces] at h
  by_cases hp : p = 5
  · subst hp
    cases h
    exact .inl ⟨rfl, rfl⟩
  · rw [Function.update_of_ne hp] at h
    exact .inr ⟨hp, h⟩

theorem twoWorkspaces_wellFormed : WellFormed twoWorkspaces where
  settled := rfl
  root r hr := by
    rcases List.mem_cons.mp hr with rfl | hr
    · exact ⟨rfl, rfl⟩
    · cases List.mem_singleton.mp hr
      exact ⟨rfl, rfl⟩
  edges n p := by
    refine (sample_wellFormed.edges n p).trans ⟨?_, ?_⟩
    · rintro ⟨c, hc, hn⟩
      have hp : p ≠ 5 := by
        rintro rfl
        cases hc
      exact ⟨c, (Function.update_of_ne hp ..).trans hc, hn⟩
    · rintro ⟨c, hc, hn⟩
      rcases twoWorkspaces_containers hc with ⟨rfl, hchildren⟩ | ⟨-, hsample⟩
      · rw [entities, hchildren] at hn
        cases hn
      · exact ⟨c, hsample, hn⟩
  nodup p c hc := by
    rcases twoWorkspaces_containers hc with ⟨rfl, hchildren⟩ | ⟨-, hsample⟩
    · rw [entities, hchildren]
      exact List.nodup_nil
    · exact sample_wellFormed.nodup p c hsample
  weights p c hc child hchild := by
    rcases twoWorkspaces_containers hc with ⟨rfl, hchildren⟩ | ⟨-, hsample⟩
    · rw [hchildren] at hchild
      cases hchild
    · exact sample_wellFormed.weights p c hsample child hchild
  top n hn hparent := by
    obtain ⟨c, hc⟩ := Option.isSome_iff_exists.mp hn
    rcases twoWorkspaces_containers hc with ⟨rfl, -⟩ | ⟨-, hsample⟩
    · exact List.mem_cons_of_mem _ List.mem_cons_self
    · exact List.mem_cons.mpr (.inl (List.mem_singleton.mp
        (sample_wellFormed.top n (by rw [hsample]; rfl) hparent)))
  ranked := by
    obtain ⟨level, hlevel⟩ := sample_wellFormed.ranked
    refine ⟨update level 5 0, fun n => ?_, fun r hr => ?_, fun n p hp => ?_⟩
    · by_cases hn : n = 5
      · rw [hn, Function.update_self]
        exact Nat.zero_le _
      · rw [Function.update_of_ne hn]
        exact hlevel.bound n
    · rcases List.mem_cons.mp hr with rfl | hr
      · exact (Function.update_of_ne (by decide) ..).trans (hlevel.root 0 (List.mem_singleton_self 0))
      · rw [List.mem_singleton.mp hr, Function.update_self]
    · have hstep := hlevel.step n p hp
      rw [Function.update_of_ne, Function.update_of_ne, hstep]
      · rintro rfl
        rcases sample_parents.mp hp with ⟨hp, -⟩ | ⟨hp, -⟩
        all_goals exact absurd hp (by decide)
      · rintro rfl
        cases hp
  spawned n hn := by
    rcases hn with hn | hn
    · obtain ⟨c, hc⟩ := Option.isSome_iff_exists.mp hn
      rcases twoWorkspaces_containers hc with ⟨rfl, -⟩ | ⟨-, hsample⟩
      · decide
      · exact (sample_wellFormed.spawned n (.inl (by rw [hsample]; rfl))).trans (by decide)
    · exact (sample_wellFormed.spawned n (.inr hn)).trans (by decide)

/-- The unary split moves, with its window. -/
theorem twoWorkspaces_transfer_moves_the_split : ∃ source output visible moved leaves,
    Transferred twoWorkspaces (twoWorkspaces.applyMove ⟨2, 5, none⟩) ⟨2, 5, none⟩ source output visible moved
      leaves := by
  rcases workspace_transfer_is_atomic twoWorkspaces twoWorkspaces_wellFormed ⟨2, 5, none⟩ with hsame |
    hdone | ⟨source, output, visible, hdone⟩
  · have hevents : (twoWorkspaces.applyMove ⟨2, 5, none⟩).events ≠ twoWorkspaces.events := by decide +kernel
    exact absurd (congrArg events hsame) hevents
  · exact hdone
  · have hmember : twoWorkspaces.membership 2 = none := rfl
    exact absurd (hmember.symm.trans hdone.departed.1) nofun

end Tile
