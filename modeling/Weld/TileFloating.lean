/-
**Floating windows.**

A window that floats leaves the tree of its workspace, and remembers its slot: the container, the index
and the weight.  A window that is tiled again goes back to its slot, if the container is still below the
root that owns the window, and else to the end of that root.

Floating removes an edge by its index and the way back inserts it there, so a sequence of windows that
float, each from the tree that the one before left, is undone from its end.  Containers that are emptied
on the way are retired; a slot in such a container is stale.

Main definitions: `TileWorld.float`, `TileWorld.unfloat`, `TileWorld.request`, `TiledWindow`,
`FloatingWindow`, `NeverEmpties`, `Stale`, `ReturnsToRoot`.

Main results:

* `applyRequest_float`, `applyRequest_unfloat` — what the observer does;
* `unfloatAll_floatAll`, `unfloat_stale`;
* `floating_round_trip`.
-/

import Weld.TilePreservation
import Weld.TileRetiring

namespace Tile

open TileContainer

open Function (update)

/-- A request that a window (or the focused one) float, or not, or the other way. -/
structure TileFloatingRequest where
  window : Option Entity := none
  enabled : Option Bool := none
  deriving DecidableEq, Repr

/-- A dialog that is asked to float, or not, is not centered any more. -/
def cancelPlacement (window : Entity) : Deferred :=
  .modifyWindow window fun w => { w with pendingDialogPlacement := false }

namespace TileWorld

/-! ### The observer -/

/-- Where a window floats: where it did before, or in the middle of its workspace. -/
def freeform (s : TileWorld) (window owner : Entity) (geometry : WindowGeometry) : WindowGeometry :=
  match (s.windows window).savedGeometry with
  | some saved => saved
  | none =>
      let bounds := (s.rects owner).getD geometry
      let width := max (min geometry.width (bounds.width * (7 / 10))) 1
      let height := max (min geometry.height (bounds.height * (7 / 10))) 1
      { x := bounds.x + (bounds.width - width) / 2, y := bounds.y + (bounds.height - height) / 2,
        width, height }

/-- A window leaves the tree. -/
def float (s : TileWorld) (window owner : Entity) (geometry : WindowGeometry) : TileWorld :=
  match s.parents window with
  | none => s
  | some parent =>
      match s.containers parent with
      | none => s
      | some container =>
          match position container.children window with
          | none => s
          | some (index, child) =>
              let freeform := s.freeform window owner geometry
              let s := s.defer (.trigger (.endInteraction window))
              let s := s.modifyContainer parent fun container =>
                { container with children := container.children.eraseIdx index }
              let s := { s with
                windows := update s.windows window
                  { s.windows window with geometry := some freeform } }
              let s := s.defer (.removeTiled window)
              let s := s.defer (.modifyWindow window fun w =>
                { w with floating := true, slot := some ⟨parent, index, child.weight⟩, zOrder := some 1 })
              (s.retireEmptyAncestors parent owner).publish

/-- Where a window goes that is tiled again. -/
def landing (s : TileWorld) (slot : Option SavedTileSlot) (owner : Entity) : Entity :=
  match slot with
  | some slot => if s.rootOf slot.parent = some owner then slot.parent else owner
  | none => owner

/-- At what index it goes there. -/
def landingIndex (slot : Option SavedTileSlot) (destination : Entity) (length : ℕ) : ℕ :=
  match slot with
  | some slot => if slot.parent = destination then min slot.index length else length
  | none => length

/-- A window is tiled again. -/
def unfloat (s : TileWorld) (window owner : Entity) (geometry : WindowGeometry) : TileWorld :=
  let slot := (s.windows window).slot
  let destination := s.landing slot owner
  match s.containers destination with
  | none => s
  | some container =>
      let s := s.defer (.trigger (.endInteraction window))
      let index := landingIndex slot destination container.children.length
      let weight := (slot.map SavedTileSlot.weight).getD 1
      let s := s.modifyContainer destination fun container =>
        { container with children := container.children.insertIdx index ⟨window, weight⟩ }
      let s := s.defer (.modifyWindow window fun w => { w with floating := false, slot := none })
      let s := s.defer (.insertParent window destination)
      let s := s.defer (.insertRect window)
      let s := s.defer (.modifyWindow window fun w =>
        { w with savedGeometry := some geometry, zOrder := some 0 })
      s.publish

def request (s : TileWorld) (event : TileFloatingRequest) : TileWorld :=
  match event.window.or s.focus with
  | none => s
  | some window =>
      let w := s.windows window
      match w.managedBy, w.member, w.geometry with
      | some owner, some member, some geometry =>
          if ¬ w.managed ∨ w.fullscreen ∨ owner ≠ member ∨ owner ∉ s.roots then s
          else if event.enabled.getD (!w.floating) = w.floating then s
          else
            let s := s.defer (cancelPlacement window)
            if event.enabled.getD (!w.floating) then s.float window owner geometry
            else s.unfloat window owner geometry
      | _, _, _ => s

/-- The request, and its commands. -/
def applyRequest (s : TileWorld) (event : TileFloatingRequest) : TileWorld := (s.request event).flush

/-- Windows float, one after the other. -/
def floatAll (s : TileWorld) (windows : List Entity) : TileWorld :=
  windows.foldl (fun s window => s.applyRequest { window := some window, enabled := some true }) s

/-- Windows are tiled again, one after the other. -/
def unfloatAll (s : TileWorld) (windows : List Entity) : TileWorld :=
  windows.foldl (fun s window => s.applyRequest { window := some window, enabled := some false }) s

end TileWorld

open TileWorld

/-! ### Windows -/

/-- A window that the observer accepts, in a workspace. -/
structure OwnedWindow (s : TileWorld) (owner window : Entity) : Prop where
  root : owner ∈ s.roots
  managed : (s.windows window).managed = true
  windowed : (s.windows window).fullscreen = false
  owned : (s.windows window).managedBy = some owner
  member : (s.windows window).member = some owner
  geometry : ∃ geometry, (s.windows window).geometry = some geometry

/-- A window that is a leaf of the tree of its workspace. -/
structure TiledWindow (s : TileWorld) (owner window : Entity) : Prop
    extends OwnedWindow s owner window where
  grounded : (s.windows window).floating = false
  leaf : s.containers window = none
  below : s.Ascends window owner

/-- A window that floats in its workspace. -/
structure FloatingWindow (s : TileWorld) (owner window : Entity) : Prop
    extends OwnedWindow s owner window where
  floats : (s.windows window).floating = true
  leaf : s.containers window = none
  outside : s.parents window = none
  known : window < s.spawned

/-! ### A window floats -/

/-- The window, as it floats. -/
def floatedWindow (w : WindowComponents) (slot : SavedTileSlot) (geometry : WindowGeometry) :
    WindowComponents :=
  { w with
    floating := true, slot := some slot, zOrder := some 1, geometry := some geometry
    pendingDialogPlacement := false }

/-- The world in which a window floats, and what was emptied is gone. -/
def TileWorld.floated (s : TileWorld) (window : Entity) (slot : SavedTileSlot) (geometry : WindowGeometry)
    (vacated : List Entity) : TileWorld :=
  { s with
    containers := fun n => if n ∈ vacated then none else
      (s.containers n).map (·.without (window :: vacated))
    parents := fun n => if n ∈ vacated then none else update s.parents window none n
    rects := fun n => if n ∈ vacated then none else update s.rects window none n
    windows := fun n => if n ∈ vacated then {} else
      update s.windows window (floatedWindow (s.windows window) slot geometry) n
    workspaces := fun n => if n ∈ vacated then none else s.workspaces n
    history := s.history.filter (· ∉ vacated)
    dirty := true
    events := s.events ++ [.endInteraction window, .treeChanged, .layoutRequested] }

/-- The window has left its list, and nothing is retired yet. -/
def TileWorld.leaving (s : TileWorld) (window : Entity) (slot : SavedTileSlot)
    (geometry : WindowGeometry) : TileWorld :=
  let s := s.defer (.trigger (.endInteraction window))
  let s := s.modifyContainer slot.parent fun container =>
    { container with children := container.children.eraseIdx slot.index }
  let s := { s with
    windows := update s.windows window { s.windows window with geometry := some geometry } }
  let s := s.defer (.removeTiled window)
  s.defer (.modifyWindow window fun w =>
    { w with floating := true, slot := some slot, zOrder := some 1 })

variable {container : TileContainer} {window : Entity}

theorem float_eq (s : TileWorld) {parent : Entity} {index : ℕ} {child : TileChild} (owner : Entity)
    (geometry : WindowGeometry) (hparent : s.parents window = some parent)
    (hcontainer : s.containers parent = some container)
    (hposition : position container.children window = some (index, child)) :
    s.float window owner geometry =
      ((s.leaving window ⟨parent, index, child.weight⟩
        (s.freeform window owner geometry)).retireEmptyAncestors parent owner).publish := by
  rw [float, hparent]
  simp only [hcontainer, hposition]
  rfl

theorem freeform_defer (s : TileWorld) (command : Deferred) (window owner : Entity)
    (geometry : WindowGeometry) :
    (s.defer command).freeform window owner geometry = s.freeform window owner geometry := by
  rw [freeform, freeform, defer]

section Float

variable {s : TileWorld} (h : WellFormed s) {owner window : Entity}

include h

section

variable (x : TiledWindow s owner window)
include x

theorem TiledWindow.exists_parent : ∃ parent, s.parents window = some parent ∧ s.Ascends parent owner := by
  rcases x.below.cases_head with heq | ⟨parent, hparent, hup⟩
  · subst heq
    have hroot := (h.root window x.root).2
    rw [x.leaf] at hroot
    cases hroot
  · exact ⟨parent, hparent, hup⟩

variable {parent : Entity} {vacated : List Entity}

omit x in
/-- The loop runs while a window has left its list. -/
theorem WellFormed.leaves_of_erased {s₁ : TileWorld} (hparents : s₁.parents = s.parents)
    (hcontainers : s₁.containers = fun n => (s.containers n).map (·.without [window]))
    (kept : Entity → Bool) : Leaves s s₁ kept (fun n => kept n = true) window parent := by
  refine ⟨fun a _ => by rw [hparents], fun a _ _ => by rw [hcontainers], fun _ hkept => hkept,
    fun _ _ hkept => .inl hkept, fun a _ n c hc hlisted => ?_⟩
  rw [hcontainers] at hc
  obtain ⟨d, hd, rfl⟩ := Option.map_eq_some_iff.mp hc
  exact (h.edges a n).mpr ⟨d, hd, (mem_entities_without.mp hlisted).1⟩

/-- What is retired when a window leaves: windows and roots stay. -/
theorem notMem_vacated {stays : Entity → Prop} (hv : Vacated s stays window parent vacated) :
    window ∉ vacated ∧ s.roots.filter (· ∉ vacated) = s.roots := by
  refine ⟨fun hmem => ?_, List.filter_eq_self.mpr fun r hr => decide_eq_true fun hmem => ?_⟩
  · obtain ⟨-, -, -, c, hc⟩ := hv.mem hmem
    exact absurd (x.leaf.symm.trans hc) nofun
  · obtain ⟨-, -, ⟨p, hp⟩, -⟩ := hv.mem hmem
    exact h.notMem_roots hp hr

omit x in
omit h in
/-- The request to float is accepted. -/
theorem request_float (x : TiledWindow s owner window) : ∃ geometry,
    s.request { window := some window, enabled := some true } =
      (s.defer (cancelPlacement window)).float window owner geometry := by
  obtain ⟨geometry, hgeometry⟩ := x.geometry
  have haccepted : ¬ (¬ (s.windows window).managed = true ∨ (s.windows window).fullscreen = true ∨
      owner ≠ owner ∨ owner ∉ s.roots) := by
    rw [x.managed, x.windowed]
    simp only [not_true_eq_false, Bool.false_eq_true, ne_eq, x.root, or_self, not_false_eq_true]
  refine ⟨geometry, ?_⟩
  rw [request]
  simp only [Option.some_or, x.owned, x.member, hgeometry, if_neg haccepted, x.grounded,
    Option.getD_some, Bool.true_eq_false, if_false, if_true]

/-- The world before anything is retired, in terms of the one before the request. -/
def TileWorld.left (s : TileWorld) (window : Entity) (slot : SavedTileSlot) (geometry : WindowGeometry) :
    TileWorld :=
  { s with
    containers := fun n => (s.containers n).map (·.without [window])
    windows := update s.windows window { s.windows window with geometry := some geometry }
    commands := [cancelPlacement window, .trigger (.endInteraction window), .removeTiled window,
      .modifyWindow window fun w => { w with floating := true, slot := some slot, zOrder := some 1 }] }

omit x in
theorem leaving_eq {index : ℕ} {child : TileChild} (hparent : s.parents window = some parent)
    (hcontainer : s.containers parent = some container)
    (hposition : position container.children window = some (index, child)) (geometry : WindowGeometry) :
    (s.defer (cancelPlacement window)).leaving window ⟨parent, index, child.weight⟩ geometry =
      s.left window ⟨parent, index, child.weight⟩ geometry := by
  rw [left, ← h.eraseIdx_containers hparent hcontainer hposition]
  simp only [leaving, defer, modifyContainer, h.settled, List.nil_append, List.cons_append]

/-- **What a window does that floats.** -/
theorem applyRequest_float (hparent : s.parents window = some parent)
    (hv : Vacated s (fun n => decide (n = owner) = true) window parent vacated) :
    ∃ container front weight back geometry, s.containers parent = some container ∧
      container.children = front ++ ⟨window, weight⟩ :: back ∧
      window ∉ front.map TileChild.entity ∧ window ∉ back.map TileChild.entity ∧
      s.applyRequest { window := some window, enabled := some true } =
        s.floated window ⟨parent, front.length, weight⟩ geometry vacated := by
  obtain ⟨level, hlevel⟩ := h.ranked
  obtain ⟨container, hcontainer, hlisted⟩ := (h.edges window parent).mp hparent
  obtain ⟨front, weight, back, hsplit, hfront, hback⟩ := exists_split hlisted (h.nodup parent _ hcontainer)
  have hposition : position container.children window = some (front.length, ⟨window, weight⟩) := by
    rw [hsplit, position_append hfront]
  obtain ⟨hwindow, hroots⟩ := notMem_vacated h x hv
  obtain ⟨old, hrequest⟩ := request_float x
  refine ⟨container, front, weight, back, s.freeform window owner old, hcontainer, hsplit, hfront, hback,
    ?_⟩
  have hfloat : (s.defer (cancelPlacement window)).float window owner old =
      (((s.defer (cancelPlacement window)).leaving window ⟨parent, front.length, weight⟩
        (s.freeform window owner old)).retireEmptyAncestors parent owner).publish := by
    have hstep := float_eq (s.defer (cancelPlacement window)) owner old hparent hcontainer hposition
    rw [hstep, freeform_defer]
  have hleaves : Leaves s (s.left window ⟨parent, front.length, weight⟩ (s.freeform window owner old))
      (fun n => n = owner) (fun n => decide (n = owner) = true) window parent := by
    refine h.leaves_of_erased ?_ ?_ _
    · rfl
    · rfl
  rw [applyRequest, hrequest, hfloat, leaving_eq h hparent hcontainer hposition,
    retireEmptyAncestors,
    Leaves.retireEmpty_eq h hlevel hv hleaves hparent (Nat.lt_succ_of_le (hlevel.bound parent))]
  simp only [left, publish, markDirty, defer,
    flush, cancelPlacement, List.cons_append, List.append_assoc, List.nil_append,
    List.foldl_cons, List.foldl_append, List.foldl_nil, Deferred.apply, foldl_despawn, hroots,
    Function.update_self, Function.update_idem, Option.map_map]
  have hwithout : ((·.without vacated) ∘ (·.without [window]) : TileContainer → TileContainer) =
      (·.without (window :: vacated)) := funext fun c => c.without_without [window] vacated
  rw [hwithout, floated, h.settled]
  rfl

/-- A forest that a window leaves stays well formed, and the window floats. -/
theorem wellFormed_floated (hparent : s.parents window = some parent)
    (hv : Vacated s (fun n => decide (n = owner) = true) window parent vacated) (slot : SavedTileSlot)
    (geometry : WindowGeometry) :
    WellFormed (s.floated window slot geometry vacated) ∧
      FloatingWindow (s.floated window slot geometry vacated) owner window := by
  obtain ⟨hwindow, hroots⟩ := notMem_vacated h x hv
  have hkept : ∀ r ∈ s.roots, r ∉ window :: vacated := by
    intro r hr hmem
    rcases List.mem_cons.mp hmem with rfl | hmem
    · exact h.notMem_roots hparent hr
    · obtain ⟨-, -, ⟨p, hp⟩, -⟩ := hv.mem hmem
      exact h.notMem_roots hp hr
  have hparents : ∀ n, (s.floated window slot geometry vacated).parents n =
      if n ∈ window :: vacated then none else s.parents n := by
    intro n
    dsimp only [floated]
    by_cases hn : n = window
    · rw [hn, if_pos List.mem_cons_self, Function.update_self, ite_self]
    · rw [Function.update_of_ne hn]
      simp only [List.mem_cons, hn, false_or]
  have hcontainers : ∀ n, (s.floated window slot geometry vacated).containers n =
      if n ∈ window :: vacated then none else (s.containers n).map (·.without (window :: vacated)) := by
    intro n
    dsimp only [floated]
    by_cases hn : n = window
    · subst hn
      rw [if_pos List.mem_cons_self, x.leaf, Option.map_none, ite_self]
    · simp only [List.mem_cons, hn, false_or]
  have hwindows : (s.floated window slot geometry vacated).windows window =
      floatedWindow (s.windows window) slot geometry := by
    dsimp only [floated]
    rw [if_neg hwindow, Function.update_self]
  refine ⟨h.removed hkept (fun n p hp hgone => ?_) hcontainers hparents rfl
    (fun n hn => (List.mem_filter.mp hn).1) rfl h.settled, ⟨⟨x.root, ?_, ?_, ?_, ?_, ?_⟩, ?_, ?_, ?_, ?_⟩⟩
  · rcases List.mem_cons.mp hgone with rfl | hgone
    · obtain ⟨c, hc, -⟩ := (h.edges n p).mp hp
      cases x.leaf.symm.trans hc
    · exact hv.child_mem h hp hgone
  · rw [hwindows]
    exact x.managed
  · rw [hwindows]
    exact x.windowed
  · rw [hwindows]
    exact x.owned
  · rw [hwindows]
    exact x.member
  · rw [hwindows]
    exact ⟨geometry, rfl⟩
  · rw [hwindows]
    rfl
  · rw [hcontainers, if_pos List.mem_cons_self]
  · rw [hparents, if_pos List.mem_cons_self]
  · exact h.spawned window (.inr (.inl (by rw [hparent]; rfl)))

/-- Other windows stay in the tree. -/
theorem tiledWindow_floated (hv : Vacated s (fun n => decide (n = owner) = true) window parent vacated)
    (slot : SavedTileSlot) (geometry : WindowGeometry) {other : Entity} (y : TiledWindow s owner other)
    (hne : other ≠ window) : TiledWindow (s.floated window slot geometry vacated) owner other := by
  have hleft : other ∉ vacated := fun hmem => by
    obtain ⟨-, -, -, c, hc⟩ := hv.mem hmem
    exact absurd (y.leaf.symm.trans hc) nofun
  have hwindows : (s.floated window slot geometry vacated).windows other = s.windows other := by
    dsimp only [floated]
    rw [if_neg hleft, Function.update_of_ne hne]
  have hup : ∀ n, s.Ascends n owner → n ∉ window :: vacated →
      (s.floated window slot geometry vacated).Ascends n owner := by
    intro n hn
    induction hn using Relation.ReflTransGen.head_induction_on with
    | refl => exact fun _ => .refl
    | @head n p hp _ ih =>
        intro hmem
        rw [List.mem_cons, not_or] at hmem
        refine .head ?_ (ih fun hgone => ?_)
        · dsimp only [floated]
          rw [if_neg hmem.2, Function.update_of_ne hmem.1]
          exact hp
        · rcases List.mem_cons.mp hgone with rfl | hgone
          · obtain ⟨c, hc, -⟩ := (h.edges n p).mp hp
            exact absurd (x.leaf.symm.trans hc) nofun
          · exact absurd (hv.child_mem h hp hgone) (by rw [List.mem_cons, not_or]; exact hmem)
  refine ⟨⟨x.root, ?_, ?_, ?_, ?_, ?_⟩, ?_, ?_, hup other y.below ?_⟩
  · rw [hwindows]
    exact y.managed
  · rw [hwindows]
    exact y.windowed
  · rw [hwindows]
    exact y.owned
  · rw [hwindows]
    exact y.member
  · rw [hwindows]
    exact y.geometry
  · rw [hwindows]
    exact y.grounded
  · dsimp only [floated]
    rw [if_neg hleft, y.leaf, Option.map_none]
  · rw [List.mem_cons, not_or]
    exact ⟨hne, hleft⟩

end

end Float

/-! ### A window is tiled again -/

/-- The window, as it is tiled again. -/
def tiledWindow (w : WindowComponents) (geometry : WindowGeometry) : WindowComponents :=
  { w with
    floating := false, slot := none, zOrder := some 0, savedGeometry := some geometry
    pendingDialogPlacement := false }

/-- The world in which a window is back in a container. -/
def TileWorld.tiled (s : TileWorld) (window destination : Entity) (index : ℕ) (weight : ℚ)
    (geometry : WindowGeometry) : TileWorld :=
  { s with
    containers := update s.containers destination ((s.containers destination).map fun container =>
      { container with children := container.children.insertIdx index ⟨window, weight⟩ })
    parents := update s.parents window (some destination)
    rects := update s.rects window (some {})
    windows := update s.windows window (tiledWindow (s.windows window) geometry)
    dirty := true
    events := s.events ++ [.endInteraction window, .treeChanged, .layoutRequested] }

variable {owner : Entity} {s : TileWorld}

/-- **What a window does that is tiled again.** -/
theorem applyRequest_unfloat (hsettled : s.commands = []) (x : FloatingWindow s owner window)
    (hcontainer : s.containers (s.landing (s.windows window).slot owner) = some container) :
    ∃ geometry, s.applyRequest { window := some window, enabled := some false } =
      s.tiled window (s.landing (s.windows window).slot owner)
        (landingIndex (s.windows window).slot (s.landing (s.windows window).slot owner)
          container.children.length)
        (((s.windows window).slot.map SavedTileSlot.weight).getD 1) geometry := by
  obtain ⟨geometry, hgeometry⟩ := x.geometry
  have haccepted : ¬ (¬ (s.windows window).managed = true ∨ (s.windows window).fullscreen = true ∨
      owner ≠ owner ∨ owner ∉ s.roots) := by
    rw [x.managed, x.windowed]
    simp only [not_true_eq_false, Bool.false_eq_true, ne_eq, x.root, or_self, not_false_eq_true]
  have hlanding : (s.defer (cancelPlacement window)).landing (s.windows window).slot owner =
      s.landing (s.windows window).slot owner := rfl
  refine ⟨geometry, ?_⟩
  rw [applyRequest, request]
  simp only [Option.some_or, x.owned, x.member, hgeometry, if_neg haccepted, x.floats,
    Option.getD_some, Bool.false_eq_true, if_false]
  have hslot : ((s.defer (cancelPlacement window)).windows window).slot = (s.windows window).slot := rfl
  have hfound : (s.defer (cancelPlacement window)).containers
      (s.landing (s.windows window).slot owner) = some container := hcontainer
  rw [unfloat]
  simp only [hslot, hlanding, hfound]
  simp only [publish, markDirty, defer, modifyContainer,
    flush, cancelPlacement, hsettled, List.nil_append, List.cons_append, List.append_assoc,
    List.foldl_cons, List.foldl_nil, Deferred.apply, Function.update_self, Function.update_idem]
  rw [tiled, hsettled]
  rfl

/-! ### The round trip -/

/-- The same trees. -/
structure SameTrees (s s' : TileWorld) : Prop where
  containers : s'.containers = s.containers
  parents : s'.parents = s.parents
  roots : s'.roots = s.roots
  history : s'.history = s.history
  spawned : s'.spawned = s.spawned
  settled : s'.commands = s.commands

theorem SameTrees.wellFormed {s' : TileWorld} (e : SameTrees s s') (h : WellFormed s) : WellFormed s' :=
  h.congr (fun n => by rw [e.containers]) e.parents e.roots e.history e.spawned
    (e.settled.trans h.settled)

/-- A window goes back to the slot that it left. -/
theorem unfloat_floated {s' : TileWorld} (h : WellFormed s) {parent : Entity} {front back : List TileChild}
    {weight : ℚ} {geometry : WindowGeometry} (x : TiledWindow s owner window)
    (hparent : s.parents window = some parent) (hcontainer : s.containers parent = some container)
    (hsplit : container.children = front ++ ⟨window, weight⟩ :: back)
    (hfront : window ∉ front.map TileChild.entity) (hback : window ∉ back.map TileChild.entity)
    (hv : Vacated s (fun n => decide (n = owner) = true) window parent [])
    (e : SameTrees (s.floated window ⟨parent, front.length, weight⟩ geometry []) s') (hwindow : s'.windows
      window = (s.floated window ⟨parent, front.length, weight⟩ geometry []).windows window) :
    SameTrees s (s'.applyRequest { window := some window, enabled := some false }) ∧
      ∀ n, n ≠ window → (s'.applyRequest { window := some window, enabled := some false }).windows n =
        s'.windows n := by
  obtain ⟨hfloated, y⟩ := wellFormed_floated h x hparent hv ⟨parent, front.length, weight⟩ geometry
  have h' := e.wellFormed hfloated
  obtain ⟨level, hlevel⟩ := h.ranked
  have hcontainers : ∀ n, s'.containers n = (s.containers n).map (·.without [window]) := fun n =>
    congrFun e.containers n
  have hparents : ∀ n, s'.parents n = update s.parents window none n := fun n => congrFun e.parents n
  have hslot : (s'.windows window).slot = some ⟨parent, front.length, weight⟩ := by
    rw [hwindow]
    dsimp only [floated]
    rw [if_neg List.not_mem_nil, Function.update_self]
    rfl
  have z : FloatingWindow s' owner window :=
    { root := e.roots.symm ▸ y.root
      managed := hwindow ▸ y.managed
      windowed := hwindow ▸ y.windowed
      owned := hwindow ▸ y.owned
      member := hwindow ▸ y.member
      geometry := hwindow ▸ y.geometry
      floats := hwindow ▸ y.floats
      leaf := (congrFun e.containers window).trans y.leaf
      outside := (congrFun e.parents window).trans y.outside
      known := e.spawned.symm ▸ y.known }
  -- the container is still below the owner
  have hup : ∀ n, s.Ascends n owner → ¬ s.Ascends n window → s'.Ascends n owner := by
    intro n hn
    induction hn using Relation.ReflTransGen.head_induction_on with
    | refl => exact fun _ => .refl
    | @head n p hp _ ih =>
        intro hnot
        refine .head ?_ (ih fun hascends => hnot (.head hp hascends))
        have hne : n ≠ window := by
          rintro rfl
          exact hnot .refl
        rw [hparents, Function.update_of_ne hne]
        exact hp
  have hbelow : s.Ascends parent owner := by
    obtain ⟨p, hp, hascends⟩ := x.exists_parent h
    cases hp.symm.trans hparent
    exact hascends
  have hlanding : s'.landing (s'.windows window).slot owner = parent := by
    rw [hslot, landing]
    exact if_pos (h'.rootOf_eq z.root (hup parent hbelow (hlevel.not_ascends_parent hparent)))
  have hfound : s'.containers (s'.landing (s'.windows window).slot owner) =
      some (container.without [window]) := by
    rw [hlanding, hcontainers, hcontainer]
    rfl
  have hchildren : (container.without [window]).children = front ++ back := by
    have hfilter : (front ++ ⟨window, weight⟩ :: back).filter (·.entity ≠ window) = front ++ back :=
      (eraseIdx_split ⟨window, weight⟩ hfront hback).2
    rw [without, ← hfilter, hsplit]
    exact List.filter_congr fun child _ => by simp only [List.mem_singleton]
  have hindex : landingIndex (s'.windows window).slot parent
      (container.without [window]).children.length = front.length := by
    rw [hslot, landingIndex, hchildren, List.length_append]
    rw [if_pos rfl, min_eq_left (Nat.le_add_right _ _)]
  obtain ⟨shown, hrequest⟩ := applyRequest_unfloat h'.settled z hfound
  rw [hlanding, hindex, hslot] at hrequest
  rw [hrequest]
  refine ⟨⟨?_, ?_, e.roots, ?_, e.spawned, e.settled⟩, fun n hn => Function.update_of_ne hn ..⟩
  · funext n
    dsimp only [tiled]
    by_cases hn : n = parent
    · subst hn
      rw [Function.update_self, hcontainers, hcontainer]
      simp only [Option.map_some, Option.getD_some, hchildren, insertIdx_split, ← hsplit]
      rfl
    · rw [Function.update_of_ne hn, hcontainers]
      cases hc : s.containers n with
      | none => rfl
      | some c =>
          refine congrArg some (without_of_notMem fun m hm hlisted => hn ?_)
          cases List.mem_singleton.mp hm
          exact Option.some.inj (((h.edges _ n).mpr ⟨c, hc, hlisted⟩).symm.trans hparent)
  · funext n
    dsimp only [tiled]
    by_cases hn : n = window
    · rw [hn, Function.update_self, hparent]
    · rw [Function.update_of_ne hn, hparents, Function.update_of_ne hn]
  · rw [tiled, e.history]
    exact List.filter_eq_self.mpr fun _ _ => decide_eq_true List.not_mem_nil

/-- No container below a root is emptied when windows float, one after the other. -/
def NeverEmpties : TileWorld → List Entity → Prop
  | _, [] => True
  | s, window :: windows =>
      (∀ parent container, s.parents window = some parent → parent ∉ s.roots →
        s.containers parent = some container → container.entities ≠ [window]) ∧
      NeverEmpties (s.applyRequest { window := some window, enabled := some true }) windows

/-- **Windows that float, and are tiled again from the last one to the first.** -/
theorem unfloatAll_floatAll {windows : List Entity} (hnodup : windows.Nodup) :
    ∀ {s : TileWorld}, WellFormed s → (∀ window ∈ windows, TiledWindow s owner window) →
      NeverEmpties s windows →
      SameTrees s ((s.floatAll windows).unfloatAll windows.reverse) ∧
        ∀ n ∉ windows, ((s.floatAll windows).unfloatAll windows.reverse).windows n = s.windows n := by
  induction windows with
  | nil => exact fun _ _ _ => ⟨⟨rfl, rfl, rfl, rfl, rfl, rfl⟩, fun _ _ => rfl⟩
  | cons window windows ih =>
      intro s h hall hempties
      rw [List.nodup_cons] at hnodup
      have x := hall window List.mem_cons_self
      obtain ⟨parent, hparent, hbelow⟩ := x.exists_parent h
      obtain ⟨c, hc, -⟩ := (h.edges window parent).mp hparent
      have hv : Vacated s (fun n => decide (n = owner) = true) window parent [] := by
        refine .stop ?_
        by_cases hroot : parent ∈ s.roots
        · exact .inl (decide_eq_true (h.root_unique hroot x.root .refl hbelow))
        · exact .inr ⟨c, hc, hempties.1 parent c hparent hroot hc⟩
      obtain ⟨container, front, weight, back, geometry, hcontainer, hsplit, hfront, hback, hrequest⟩ :=
        applyRequest_float h x hparent hv
      obtain ⟨hfloated, -⟩ := wellFormed_floated h x hparent hv ⟨parent, front.length, weight⟩ geometry
      have hrest := hempties.2
      rw [hrequest] at hrest
      obtain ⟨e, hwindows⟩ := ih hnodup.2 hfloated (fun other hother =>
        tiledWindow_floated h x hv _ geometry (hall other (List.mem_cons_of_mem _ hother))
          fun heq => hnodup.1 (heq ▸ hother)) hrest
      obtain ⟨e', hwindows'⟩ := unfloat_floated h x hparent hcontainer hsplit hfront hback hv e
        (hwindows window hnodup.1)
      have hrun : (s.floatAll (window :: windows)).unfloatAll (window :: windows).reverse =
          (((s.floated window ⟨parent, front.length, weight⟩ geometry []).floatAll windows).unfloatAll
            windows.reverse).applyRequest { window := some window, enabled := some false } := by
        rw [← hrequest]
        simp only [floatAll, unfloatAll, List.foldl_cons, List.reverse_cons,
          List.foldl_append, List.foldl_nil]
      rw [hrun]
      refine ⟨e', fun n hn => ?_⟩
      rw [List.mem_cons, not_or] at hn
      rw [hwindows' n hn.1, hwindows n hn.2]
      dsimp only [floated]
      rw [if_neg List.not_mem_nil, Function.update_of_ne hn.1]

/-! ### Stale slots -/

/-- A forest that a window enters stays well formed. -/
theorem wellFormed_tiled (h : WellFormed s) {level : Entity → ℕ} (hlevel : Ranked s level)
    {destination : Entity} (x : FloatingWindow s owner window) {front back : List TileChild} {weight : ℚ}
    (hcontainer : s.containers destination = some container) (hsplit : container.children = front ++ back)
    (hroom : level destination < maxDepth) (hweight : 0 < weight) (geometry : WindowGeometry) :
    WellFormed (s.tiled window destination front.length weight geometry) := by
  have hne : destination ≠ window := by
    rintro rfl
    exact absurd (x.leaf.symm.trans hcontainer) nofun
  have hself : (s.tiled window destination front.length weight geometry).containers destination =
      some { container with children := front ++ ⟨window, weight⟩ :: back } := by
    dsimp only [tiled]
    rw [Function.update_self, hcontainer, Option.map_some, hsplit, insertIdx_split]
  have hother : ∀ {n}, n ≠ destination →
      (s.tiled window destination front.length weight geometry).containers n = s.containers n :=
    fun hn => Function.update_of_ne hn ..
  have hparents : ∀ {n}, n ≠ window →
      (s.tiled window destination front.length weight geometry).parents n = s.parents n :=
    fun hn => Function.update_of_ne hn ..
  have hparent : (s.tiled window destination front.length weight geometry).parents window =
      some destination := Function.update_self ..
  have hwindow : ∀ {p c}, s.containers p = some c → window ∉ c.entities := fun hc hlisted =>
    absurd (x.outside.symm.trans ((h.edges window _).mpr ⟨_, hc, hlisted⟩)) nofun
  have hentities : ∀ n, n ∈ (front ++ (⟨window, weight⟩ : TileChild) :: back).map TileChild.entity ↔
      n = window ∨ n ∈ container.entities := by
    intro n
    rw [entities, hsplit]
    simp only [List.map_append, List.map_cons, List.mem_append, List.mem_cons]
    exact or_left_comm
  have hroot : ∀ r ∈ s.roots, r ≠ window := by
    rintro r hr rfl
    have hsome := (h.root r hr).2
    rw [x.leaf] at hsome
    cases hsome
  refine
    { settled := h.settled
      root := fun r hr => ?_
      edges := fun n p => ?_
      nodup := fun p c hc => ?_
      weights := fun p c hc => ?_
      top := fun n hn hp => ?_
      ranked := ⟨update level window (level destination + 1), fun n => ?_, fun r hr => ?_, fun n p hp => ?_⟩
      spawned := fun n hn => ?_ }
  · rw [hparents (hroot r hr)]
    refine ⟨(h.root r hr).1, ?_⟩
    by_cases hr' : r = destination
    · rw [hr', hself]
      rfl
    · rw [hother hr']
      exact (h.root r hr).2
  · by_cases hn : n = window
    · subst hn
      rw [hparent]
      constructor
      · intro heq
        cases heq
        exact ⟨_, hself, (hentities n).mpr (.inl rfl)⟩
      · rintro ⟨c, hc, hlisted⟩
        by_cases hp : p = destination
        · rw [hp]
        · rw [hother hp] at hc
          exact absurd hlisted (hwindow hc)
    · rw [hparents hn, h.edges]
      by_cases hp : p = destination
      · subst hp
        constructor
        · rintro ⟨c, hc, hlisted⟩
          cases hcontainer.symm.trans hc
          exact ⟨_, hself, (hentities n).mpr (.inr hlisted)⟩
        · rintro ⟨c, hc, hlisted⟩
          cases hself.symm.trans hc
          exact ⟨container, hcontainer, ((hentities n).mp hlisted).resolve_left hn⟩
      · rw [hother hp]
  · by_cases hp : p = destination
    · subst hp
      cases hself.symm.trans hc
      have hlist := h.nodup p container hcontainer
      have hforeign := hwindow hcontainer
      rw [entities, hsplit, List.map_append] at hlist hforeign
      rw [entities, List.map_append, List.map_cons]
      exact List.nodup_middle.mpr (List.nodup_cons.mpr ⟨hforeign, hlist⟩)
    · rw [hother hp] at hc
      exact h.nodup p c hc
  · by_cases hp : p = destination
    · subst hp
      cases hself.symm.trans hc
      have hlist := h.weights p container hcontainer
      rw [hsplit] at hlist
      intro child hchild
      rcases List.mem_append.mp hchild with hchild | hchild
      · exact hlist child (List.mem_append_left _ hchild)
      · rcases List.mem_cons.mp hchild with rfl | hchild
        · exact hweight
        · exact hlist child (List.mem_append_right _ hchild)
    · rw [hother hp] at hc
      exact h.weights p c hc
  · by_cases hn' : n = window
    · rw [hn', hparent] at hp
      cases hp
    · rw [hparents hn'] at hp
      refine h.top n ?_ hp
      by_cases hn'' : n = destination
      · rw [hn'', hcontainer]
        rfl
      · rwa [hother hn''] at hn
  · by_cases hn : n = window
    · rw [hn, Function.update_self]
      exact hroom
    · rw [Function.update_of_ne hn]
      exact hlevel.bound n
  · rw [Function.update_of_ne (hroot r hr)]
    exact hlevel.root r hr
  · by_cases hn : n = window
    · subst hn
      cases hparent.symm.trans hp
      rw [Function.update_self, Function.update_of_ne hne]
    · rw [hparents hn] at hp
      obtain ⟨c, hc, -⟩ := (h.edges n p).mp hp
      have hp' : p ≠ window := by
        rintro rfl
        exact absurd (x.leaf.symm.trans hc) nofun
      rw [Function.update_of_ne hn, Function.update_of_ne hp']
      exact hlevel.step n p hp
  · by_cases hn' : n = window
    · exact hn' ▸ x.known
    · rw [hparents hn'] at hn
      rcases hn with hn | hn | hn
      · refine h.spawned n (.inl ?_)
        by_cases hn'' : n = destination
        · rw [hn'', hcontainer]
          rfl
        · rwa [hother hn''] at hn
      · exact h.spawned n (.inr (.inl hn))
      · exact h.spawned n (.inr (.inr hn))

/-- The window is at the end of the root, and nowhere else. -/
structure ReturnsToRoot (s s' : TileWorld) (owner window : Entity) : Prop where
  list : ∃ container weight, s.containers owner = some container ∧
    s'.containers owner = some { container with children := container.children ++ [⟨window, weight⟩] }
  others : ∀ n, n ≠ owner → s'.containers n = s.containers n
  parent : s'.parents window = some owner
  parents : ∀ n, n ≠ window → s'.parents n = s.parents n
  once : ∀ p c, s'.containers p = some c → c.entities.count window = if p = owner then 1 else 0
  wellFormed : (∀ slot, (s.windows window).slot = some slot → 0 < slot.weight) → WellFormed s'

/-- The container of the slot was retired, or is not below the root. -/
def Stale (s : TileWorld) (owner window : Entity) : Prop :=
  ∀ slot, (s.windows window).slot = some slot →
    s.containers slot.parent = none ∧ s.parents slot.parent = none ∨ ¬ s.Ascends slot.parent owner

/-- **A window whose slot is stale goes to the end of its root.** -/
theorem unfloat_stale (h : WellFormed s) (x : FloatingWindow s owner window) (hstale : Stale s owner window) :
    ReturnsToRoot s (s.applyRequest { window := some window, enabled := some false }) owner window := by
  obtain ⟨level, hlevel⟩ := h.ranked
  obtain ⟨container, hcontainer⟩ := Option.isSome_iff_exists.mp (h.root owner x.root).2
  have hlost : ∀ slot, (s.windows window).slot = some slot → ¬ s.Ascends slot.parent owner := by
    intro slot hslot
    rcases hstale slot hslot with ⟨hgone, hparent⟩ | hnot
    · intro hascends
      rcases hascends.cases_head with heq | ⟨p, hp, -⟩
      · exact absurd ((heq ▸ hgone).symm.trans hcontainer) nofun
      · exact absurd (hparent.symm.trans hp) nofun
    · exact hnot
  have hlanding : s.landing (s.windows window).slot owner = owner := by
    cases hslot : (s.windows window).slot with
    | none => rfl
    | some slot =>
        exact if_neg fun hroot => hlost slot hslot (WellFormed.ascends_of_rootOf hroot).2
  have hindex : landingIndex (s.windows window).slot owner container.children.length =
      container.children.length := by
    cases hslot : (s.windows window).slot with
    | none => rfl
    | some slot =>
        have hne : slot.parent ≠ owner := fun heq => hlost slot hslot (heq ▸ .refl)
        rw [landingIndex]
        exact if_neg hne
  obtain ⟨geometry, hrequest⟩ := applyRequest_unfloat h.settled x (hlanding.symm ▸ hcontainer)
  rw [hlanding, hindex] at hrequest
  have hwindow : ∀ {p c}, s.containers p = some c → window ∉ c.entities := fun hc hlisted =>
    absurd (x.outside.symm.trans ((h.edges window _).mpr ⟨_, hc, hlisted⟩)) nofun
  have hlist : container.children.insertIdx container.children.length
      ⟨window, ((s.windows window).slot.map SavedTileSlot.weight).getD 1⟩ =
      container.children ++ [⟨window, ((s.windows window).slot.map SavedTileSlot.weight).getD 1⟩] := by
    have hend := insertIdx_split container.children []
      (⟨window, ((s.windows window).slot.map SavedTileSlot.weight).getD 1⟩ : TileChild)
    rwa [List.append_nil] at hend
  rw [hrequest]
  refine
    { list := ⟨container, ((s.windows window).slot.map SavedTileSlot.weight).getD 1, hcontainer, ?_⟩
      others := fun n hn => Function.update_of_ne hn ..
      parent := Function.update_self ..
      parents := fun n hn => Function.update_of_ne hn ..
      once := fun p c hc => ?_
      wellFormed := fun hweight => ?_ }
  · dsimp only [tiled]
    rw [Function.update_self, hcontainer, Option.map_some, hlist]
  · dsimp only [tiled] at hc
    split_ifs with hp
    · subst hp
      rw [Function.update_self, hcontainer, Option.map_some, hlist] at hc
      cases hc
      rw [entities, List.map_append, List.count_append, ← entities,
        List.count_eq_zero_of_not_mem (hwindow hcontainer), Nat.zero_add, List.map_singleton,
        List.count_singleton_self]
    · rw [Function.update_of_ne hp] at hc
      exact List.count_eq_zero_of_not_mem (hwindow hc)
  · refine wellFormed_tiled h hlevel x hcontainer (List.append_nil _).symm ?_ ?_ geometry
    · rw [hlevel.root owner x.root]
      decide
    · cases hslot : (s.windows window).slot with
      | none => exact one_pos
      | some slot => exact hweight slot hslot

/-- **Floating round trip.** -/
theorem floating_round_trip :
    (∀ (s : TileWorld) (owner : Entity) (windows : List Entity), WellFormed s → windows.Nodup →
      (∀ window ∈ windows, TiledWindow s owner window) → NeverEmpties s windows →
        ((s.floatAll windows).unfloatAll windows.reverse).containers = s.containers ∧
          ((s.floatAll windows).unfloatAll windows.reverse).parents = s.parents) ∧
    (∀ (s : TileWorld) (owner window : Entity), WellFormed s → FloatingWindow s owner window →
      Stale s owner window →
        ReturnsToRoot s (s.applyRequest { window := some window, enabled := some false }) owner window) ∧
    ∀ (s : TileWorld) (owner window : Entity), WellFormed s → TiledWindow s owner window →
      WellFormed (s.applyRequest { window := some window, enabled := some true }) ∧
        FloatingWindow (s.applyRequest { window := some window, enabled := some true }) owner window := by
  refine ⟨fun s owner windows h hnodup hall hempties => ?_, fun s owner window h x hstale => unfloat_stale h x hstale,
    fun s owner window h x => ?_⟩
  · obtain ⟨e, -⟩ := unfloatAll_floatAll hnodup h hall hempties
    exact ⟨e.containers, e.parents⟩
  · obtain ⟨parent, hparent, hup⟩ := x.exists_parent h
    obtain ⟨c, hc, -⟩ := (h.edges window parent).mp hparent
    obtain ⟨vacated, hv⟩ : ∃ vacated,
        Vacated s (fun n => decide (n = owner) = true) window parent vacated :=
      h.exists_vacated hup (decide_eq_true rfl) (by rw [hc]; rfl) window
    obtain ⟨-, front, weight, -, geometry, -, -, -, -, hrequest⟩ := applyRequest_float h x hparent hv
    rw [hrequest]
    exact wellFormed_floated h x hparent hv ⟨parent, front.length, weight⟩ geometry

end Tile
