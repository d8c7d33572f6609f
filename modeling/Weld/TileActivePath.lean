/-
**Regrouping keeps the active path.**

A regrouping changes the history of the focus by the container that it puts into the tree or takes out of
it: seen from the larger tree, what was active below the container is active in its place, and the other
containers have the active child that they had.  So the leaf at the end of the active path stays, and if
the containers that are edited are splits, so do the leaves that are shown.

Main definitions: `Recorded`, `Tracks`, `KeepsActive`.

Main results:

* `WellFormed.branchVisible_iff` — a node is shown if it is reached from a root;
* `regrouping_preserves_the_active_path`.
-/

import Weld.TilePreservation

namespace Tile

open TileWorld TileContainer TileChild

open Forest (Frontier Below weigh bypass scale)
open Function (update)

/-! ### What is shown -/

variable {s : TileWorld} {n : Entity}

/-- From a root, all weights on the way are one. -/
theorem below_visible_one {r : Entity} {q : ℚ}
    (h : Below (weigh (s.edgesBy (visible s.history))) (r, 1) (n, q)) : q = 1 := by
  have hall : ∀ m, Below (weigh (s.edgesBy (visible s.history))) (r, 1) m → m.2 = 1 := by
    intro m hm
    induction hm with
    | refl => rfl
    | @tail m k _ hstep ih =>
        obtain ⟨children, hchildren, hk⟩ := hstep
        obtain ⟨edges, hedges, rfl⟩ := Option.map_eq_some_iff.mp hchildren
        obtain ⟨c, -, rfl⟩ := Option.map_eq_some_iff.mp hedges
        obtain ⟨edge, hedge, rfl⟩ := List.mem_map.mp hk
        have hone : edge.2 = 1 := by
          rw [visible] at hedge
          split_ifs at hedge
          · obtain ⟨child, -, rfl⟩ := List.mem_map.mp hedge
            rfl
          · obtain ⟨child, -, rfl⟩ := List.mem_map.mp hedge
            rfl
        rw [ih, hone, one_mul]
  exact hall (n, q) h

variable {history : List Entity} {c : TileContainer}

theorem mem_visible_iff (hn : n ∈ c.entities) : (n, (1 : ℚ)) ∈ visible history c ↔
      (c.layout.isSplit || activeChild history c = some n) = true := by
  rw [visible]
  cases hsplit : c.layout.isSplit with
  | true =>
      rw [if_pos rfl, Bool.true_or]
      exact ⟨fun _ => rfl, fun _ => List.mem_map_of_mem hn⟩
  | false =>
      rw [if_neg Bool.false_ne_true, Bool.false_or, decide_eq_true_eq, active]
      constructor
      · intro hmem
        obtain ⟨child, hchild, heq⟩ := List.mem_map.mp hmem
        cases heq
        exact Option.mem_toList.mp hchild
      · exact fun hactive => List.mem_map.mpr ⟨n, Option.mem_toList.mpr hactive, rfl⟩

variable {leaves : List (Entity × ℚ)} {p : Entity}

namespace WellFormed

variable {s : TileWorld} (h : WellFormed s)

include h

/-- The last step to a node comes from its parent. -/
theorem below_visible_parent {r : Entity} (hr : r ∈ s.roots) (hp : s.parents n = some p)
    (hc : s.containers p = some c) (hn : n ∈ c.entities) :
    Below (weigh (s.edgesBy (visible s.history))) (r, 1) (n, 1) ↔
      (c.layout.isSplit || activeChild s.history c = some n) = true ∧
        Below (weigh (s.edgesBy (visible s.history))) (r, 1) (p, 1) := by
  rw [← mem_visible_iff hn]
  constructor
  · intro hbelow
    rcases hbelow.cases_tail with heq | ⟨⟨m, q⟩, hbefore, children, hchildren, hmem⟩
    · cases heq
      exact absurd hr (h.notMem_roots hp)
    · have hone := below_visible_one hbefore
      subst hone
      obtain ⟨edges, hedges, rfl⟩ := Option.map_eq_some_iff.mp hchildren
      obtain ⟨other, hother, rfl⟩ := Option.map_eq_some_iff.mp hedges
      rw [Forest.scale_one] at hmem
      have hparent := (h.edges n m).mpr ⟨other, hother, picks_visible s.history other _ hmem⟩
      cases hp.symm.trans hparent
      cases hc.symm.trans hother
      exact ⟨hmem, hbefore⟩
  · rintro ⟨hmem, hbefore⟩
    refine hbefore.tail ⟨_, ?_, hmem⟩
    rw [weigh, edgesBy, hc, Option.map_some, Option.map_some, Forest.scale_one]

theorem branchVisibleFrom_iff {level : Entity → ℕ} (hlevel : Ranked s level) :
    ∀ (fuel : ℕ) (n : Entity), level n < fuel → s.InTree n →
      (s.branchVisibleFrom fuel n = true ↔
        ∃ r ∈ s.roots, Below (weigh (s.edgesBy (visible s.history))) (r, 1) (n, 1)) := by
  intro fuel
  induction fuel with
  | zero => intro n hlt; omega
  | succ fuel ih =>
      intro n hlt hn
      rw [branchVisibleFrom]
      cases hp : s.parents n with
      | none =>
          have hroot := hn.resolve_right (by rw [hp]; exact Bool.false_ne_true)
          exact ⟨fun _ => ⟨n, hroot, .refl⟩, fun _ => rfl⟩
      | some p =>
          obtain ⟨c, hc, hmem⟩ := (h.edges n p).mp hp
          have hstep := hlevel.step n p hp
          simp only [hc]
          rw [Bool.and_eq_true_iff, ih p (by omega) (h.inTree_parent hp)]
          constructor
          · rintro ⟨hshown, r, hr, hbelow⟩
            exact ⟨r, hr, (h.below_visible_parent hr hp hc hmem).mpr ⟨hshown, hbelow⟩⟩
          · rintro ⟨r, hr, hbelow⟩
            obtain ⟨hshown, hbefore⟩ := (h.below_visible_parent hr hp hc hmem).mp hbelow
            exact ⟨hshown, r, hr, hbefore⟩

/-- **A node is shown if it is reached from a root.** -/
theorem branchVisible_iff (hn : s.InTree n) : s.branchVisible n = true ↔
    ∃ r ∈ s.roots, Below (weigh (s.edgesBy (visible s.history))) (r, 1) (n, 1) := by
  obtain ⟨level, hlevel⟩ := h.ranked
  exact h.branchVisibleFrom_iff hlevel (maxDepth + 1) n (Nat.lt_succ_of_le (hlevel.bound n)) hn

/-- A leaf of a root is in the tree, and no container. -/
theorem inTree_of_shares {r : Entity} (hr : r ∈ s.roots) (hleaves : s.Shares r leaves) {leaf : Entity × ℚ}
    (hleaf : leaf ∈ leaves) : s.containers leaf.1 = none ∧ s.InTree leaf.1 := by
  obtain ⟨hnone, m, hm, hbelow⟩ := (Frontier.mem_iff hleaves).mp hleaf
  rw [List.mem_singleton] at hm
  subst hm
  rw [weigh, Option.map_eq_none_iff, edgesBy, Option.map_eq_none_iff] at hnone
  refine ⟨hnone, ?_⟩
  rcases hbelow.cases_tail with heq | ⟨⟨m, q⟩, -, children, hchildren, hmem⟩
  · exact .inl (by rw [heq]; exact hr)
  · obtain ⟨edges, hedges, rfl⟩ := Option.map_eq_some_iff.mp hchildren
    obtain ⟨c, hc, rfl⟩ := Option.map_eq_some_iff.mp hedges
    obtain ⟨edge, hedge, rfl⟩ := List.mem_map.mp hmem
    have hparent := (h.edges edge.1 m).mpr ⟨c, hc, picks_shares c edge hedge⟩
    exact .inr (by rw [hparent]; rfl)

end WellFormed

/-! ### Worlds that differ by one container -/

/-- The ancestors of what is recorded are recorded. -/
structure Recorded (s : TileWorld) : Prop where
  nodup : s.history.Nodup
  ancestors : ∀ n ∈ s.history, ∀ a, s.Ascends n a → a ∈ s.history

/-- What is active below the container is active in its place, and other containers have the same
active child. -/
structure Tracks (full bare : TileWorld) (g p : Entity) (cg cp cp' : TileContainer) : Prop where
  outer : activeChild bare.history cp' = (activeChild full.history cp).bind fun n =>
    if n = g then activeChild full.history cg else some n
  rest : ∀ m c, m ≠ p → m ≠ g → full.containers m = some c →
    activeChild bare.history c = activeChild full.history c

section Tracks

variable {full bare : TileWorld} {g p : Entity} {cg cp cp' : TileContainer}
  (d : Dissolves full bare g p cg cp cp') (t : Tracks full bare g p cg cp cp')

include d t

/-- **The active leaf is the same.** -/
theorem Tracks.activeLeaf_iff {root leaf : Entity} (hroot : root ≠ g) :
    bare.ActiveLeaf root leaf ↔ full.ActiveLeaf root leaf := by
  refine d.frontier_iff (picks_active full.history) (fun m c hmp hmg hc => ?_) ?_
    fun n hn => by rw [List.mem_singleton.mp hn]; exact hroot
  · rw [active, active, t.rest m c hmp hmg hc]
  · simp only [active, t.outer]
    cases activeChild full.history cp with
    | none => rfl
    | some n =>
        simp only [Option.bind_some, Option.toList_some, List.map_singleton, List.flatMap_singleton,
          bypass]
        split_ifs
        · rw [Forest.scale_one]
        · rfl

variable {root : Entity}

/-- The same is shown, if the containers that differ are splits. -/
theorem Tracks.visible_iff (hcg : cg.layout.isSplit = true) (hcp : cp.layout.isSplit = true)
    (hcp' : cp'.layout.isSplit = true) (hroot : root ≠ g) :
    Frontier (weigh (bare.edgesBy (visible bare.history))) [(root, 1)] leaves ↔
      Frontier (weigh (full.edgesBy (visible full.history))) [(root, 1)] leaves := by
  refine d.frontier_iff (picks_visible full.history) (fun m c hmp hmg hc => ?_) ?_
    fun n hn => by rw [List.mem_singleton.mp hn]; exact hroot
  · rw [visible, visible, active, active, t.rest m c hmp hmg hc]
  · rw [visible, visible, visible, if_pos hcg, if_pos hcp, if_pos hcp', d.entities, List.map_flatMap,
      List.flatMap_map]
    refine List.flatMap_congr fun n _ => ?_
    rw [unfoldNode, bypass]
    split_ifs
    · rw [Forest.scale_one]
    · rfl

theorem Tracks.branchVisible_eq (h : WellFormed full) (h' : WellFormed bare)
    (hshares : shares cp' = (shares cp).flatMap (bypass g (shares cg))) (hcg : cg.layout.isSplit = true)
    (hcp : cp.layout.isSplit = true) (hcp' : cp'.layout.isSplit = true) (hroot : root ∈ full.roots)
    (hleaves : full.Shares root leaves) {leaf : Entity × ℚ} (hleaf : leaf ∈ leaves) :
    bare.branchVisible leaf.1 = full.branchVisible leaf.1 := by
  have hroot' : root ∈ bare.roots := by rw [d.roots]; exact hroot
  obtain ⟨hnone, htree⟩ := h.inTree_of_shares hroot hleaves hleaf
  obtain ⟨hnone', htree'⟩ := h'.inTree_of_shares hroot'
    ((d.shares_iff hshares (d.root_ne h hroot)).mpr hleaves) hleaf
  have hkids : ∀ s : TileWorld, s.containers leaf.1 = none →
      weigh (s.edgesBy (visible s.history)) (leaf.1, 1) = none := by
    intro s hs
    rw [weigh, edgesBy, hs, Option.map_none, Option.map_none]
  -- under every root, both have one frontier, and it tells what is reached
  have hbelow : ∀ r ∈ full.roots,
      (Below (weigh (bare.edgesBy (visible bare.history))) (r, 1) (leaf.1, 1) ↔
        Below (weigh (full.edgesBy (visible full.history))) (r, 1) (leaf.1, 1)) := by
    intro r hr
    obtain ⟨shown, hshown⟩ := h.exists_frontier (picks_visible full.history) [(r, 1)]
    have hshown' := (t.visible_iff d hcg hcp hcp' (d.root_ne h hr)).mpr hshown
    have hmem := @Frontier.mem_iff _ _ _ _ hshown (leaf.1, 1)
    have hmem' := @Frontier.mem_iff _ _ _ _ hshown' (leaf.1, 1)
    constructor
    · intro hb
      obtain ⟨-, m, hm, hm'⟩ := hmem.mp (hmem'.mpr ⟨hkids bare hnone', _, List.mem_singleton_self _, hb⟩)
      exact List.mem_singleton.mp hm ▸ hm'
    · intro hb
      obtain ⟨-, m, hm, hm'⟩ := hmem'.mp (hmem.mpr ⟨hkids full hnone, _, List.mem_singleton_self _, hb⟩)
      exact List.mem_singleton.mp hm ▸ hm'
  rw [Bool.eq_iff_iff, h'.branchVisible_iff htree', h.branchVisible_iff htree, d.roots]
  constructor
  · rintro ⟨r, hr, hb⟩
    exact ⟨r, hr, (hbelow r hr).mp hb⟩
  · rintro ⟨r, hr, hb⟩
    exact ⟨r, hr, (hbelow r hr).mpr hb⟩

end Tracks

/-! ### The containers that are dissolved -/

theorem activeOf_singleton (history : List Entity) (n : Entity) : activeOf history [n] = some n := by
  rw [activeOf]
  cases hfind : history.find? (· ∈ [n]) with
  | none => rfl
  | some m =>
      have hm := List.find?_some hfind
      rw [List.mem_singleton.mp (of_decide_eq_true hm)]
      rfl

variable {g : Entity}

/-- A node that is not listed does not matter. -/
theorem activeChild_wrapHistory {child : Entity} (hg : g ∉ c.entities) :
    activeChild (wrapHistory history child g) c = activeChild history c :=
  activeOf_congr (filter_wrapHistory (decide_eq_false hg))

theorem mem_wrapHistory {child : Entity} (h : child ∈ history) : g ∈ wrapHistory history child g := by
  obtain ⟨front, back, rfl, hfront⟩ := List.eq_append_cons_of_mem h
  rw [wrapHistory_split hfront]
  exact List.mem_append_right front List.mem_cons_self

variable {container : TileContainer} {node parent : Entity} {f : TileContainer → TileContainer}

section Edits

variable {s : TileWorld} (h : WellFormed s) (hr : Recorded s)

include h

include hr in
theorem tracks_nest {window : Entity} (axis : SplitAxis) (hparent : s.parents window = some parent)
    (hcontainer : s.containers parent = some container) (hid : s.nextId < u64Max) :
    Tracks (s.nest parent window axis).flush s s.spawned parent (s.nested window axis)
      { container with children := redirect container.children window s.spawned } container := by
  have d := dissolves_nest h axis hparent hcontainer hid
  have hwindowg := h.ne_spawned_of_parent hparent
  obtain ⟨-, -, hhistory, hforeign⟩ := h.fresh
  obtain ⟨c, hc, hlisted⟩ := (h.edges window parent).mp hparent
  cases hcontainer.symm.trans hc
  obtain ⟨front, w, back, hchildren, hfront, hback⟩ := exists_split hlisted
    (h.nodup parent container hc)
  have hg := hforeign parent container hc
  rw [entities, hchildren, List.map_append, List.map_cons, List.mem_append,
    List.mem_cons, not_or, not_or] at hg
  have hnew : (s.nest parent window axis).flush.history = wrapHistory s.history window s.spawned := by
    rw [nest_flush h.settled hid]
  refine ⟨?_, fun m other hmp hmg hother => ?_⟩
  · rw [hnew, activeChild_eq, activeChild_eq, activeChild_eq]
    have hexpand := expandHistory_wrapHistory hhistory hwindowg hr.nodup
    have hunrecorded : s.spawned ∉ wrapHistory s.history window s.spawned →
        ∀ n ∈ [window], n ∉ wrapHistory s.history window s.spawned := by
      intro hnot n hn hmem
      obtain rfl := List.mem_singleton.mp hn
      rcases mem_of_mem_wrapHistory hmem with hmem | heq
      · exact hnot (mem_wrapHistory hmem)
      · exact hwindowg heq
    have hactive := activeOf_expandHistory (front.map entity) (back.map entity)
      hunrecorded (List.cons_ne_nil _ _) (fun hmem => hwindowg (List.mem_singleton.mp hmem).symm) hg.1
      (fun n hn => by rw [List.mem_singleton.mp hn]; exact hfront)
      (fun n hn => by rw [List.mem_singleton.mp hn]; exact hback)
    rw [hexpand, List.append_assoc, List.singleton_append] at hactive
    rw [entities, entities, hchildren, redirect_append hfront,
      List.map_append, List.map_append, List.map_cons, List.map_cons]
    exact hactive
  · rw [hnew]
    refine (activeChild_wrapHistory (hforeign m other ?_)).symm
    exact (d.rest m hmp hmg).trans hother

theorem tracks_enclose {axis : SplitAxis} (hf : ∀ c : TileContainer, (f c).children = c.children)
    (hcontainer : s.containers node = some container)
    (hdone : (s.enclose node container f axis).2 = true) :
    Tracks (s.enclose node container f axis).1.flush s s.spawned node (f (s.newGroup container))
      { container.setLayout (.split axis) with children := [⟨s.spawned, 1⟩] } container := by
  have d := dissolves_enclose h hf hcontainer hdone
  obtain ⟨-, -, -, hforeign⟩ := h.fresh
  have hnew : (s.enclose node container f axis).1.flush.history = s.groupHistory container := by
    rw [enclose_flush h.settled hdone]
  have hgroup : ∀ c : TileContainer, s.spawned ∉ c.entities →
      activeChild (s.groupHistory container) c = activeChild s.history c := by
    intro c hc
    rw [groupHistory]
    split
    · exact activeChild_wrapHistory hc
    · rfl
  have hentities : (f (s.newGroup container)).entities = container.entities := by
    rw [entities, hf, newGroup, entities]
  refine ⟨?_, fun m other hmp hmg hother => ?_⟩
  · have hsingle : activeChild (s.groupHistory container)
        { container.setLayout (.split axis) with children := [⟨s.spawned, 1⟩] } = some s.spawned :=
      activeOf_singleton _ _
    rw [hnew, hsingle, Option.bind_some, if_pos rfl, activeChild_eq (s.groupHistory container), hentities,
      ← activeChild_eq, hgroup container (hforeign node container hcontainer)]
  · rw [hnew]
    exact (hgroup other (hforeign m other ((d.rest m hmp hmg).trans hother))).symm

include hr in
theorem tracks_collapse {outer : TileContainer} {child : TileChild}
    (hparent : s.parents node = some parent) (hcontainer : s.containers node = some container)
    (hchildren : container.children = [child]) (houter : s.containers parent = some outer) :
    Tracks s (s.collapseInto node child.entity parent).flush node parent container outer
      { outer with children := redirect outer.children node child.entity } := by
  have d := dissolves_collapse h hparent hcontainer hchildren houter
  obtain ⟨c, hc, hlisted⟩ := (h.edges node parent).mp hparent
  cases houter.symm.trans hc
  obtain ⟨front, w, back, hsplit, hfront, -⟩ := exists_split hlisted (h.nodup parent outer hc)
  have hentities : container.entities = [child.entity] := by
    rw [entities, hchildren, List.map_singleton]
  have hself : node ∉ container.entities := d.foreign node container d.ne.symm hcontainer
  have hedge : s.parents child.entity = some node :=
    (d.inner child.entity (by rw [hentities]; exact List.mem_singleton_self _)).1
  have hne : child.entity ≠ node := fun heq => hself (by
    rw [hentities, heq]
    exact List.mem_singleton_self node)
  -- the child is listed by the node only
  have honly : ∀ m c, m ≠ node → s.containers m = some c → child.entity ∉ c.entities :=
    fun m c hm hc hmem => hm (Option.some.inj (((h.edges _ m).mpr ⟨c, hc, hmem⟩).symm.trans hedge))
  have hchild := honly parent outer d.ne hc
  rw [entities, hsplit, List.map_append, List.map_cons, List.mem_append, List.mem_cons,
    not_or, not_or] at hchild
  have hnew : (s.collapseInto node child.entity parent).flush.history =
      expandHistory s.history node [child.entity] := by
    rw [collapseInto_flush h.settled]
    exact replaceHistory_eq_expandHistory hne hr.nodup
  refine ⟨?_, fun m other hmp hmg hother => ?_⟩
  · have hrecorded : node ∉ s.history → ∀ n ∈ [child.entity], n ∉ s.history := by
      intro hnot n hn hmem
      obtain rfl := List.mem_singleton.mp hn
      exact hnot (hr.ancestors _ hmem node (.single hedge))
    have hactive := activeOf_expandHistory (front.map entity) (back.map entity)
      hrecorded (List.cons_ne_nil _ _) (fun hmem => hne (List.mem_singleton.mp hmem).symm) hfront
      (fun n hn => by rw [List.mem_singleton.mp hn]; exact hchild.1)
      (fun n hn => by rw [List.mem_singleton.mp hn]; exact hchild.2.2)
    rw [List.append_assoc, List.singleton_append] at hactive
    rw [hnew, activeChild_eq, activeChild_eq, activeChild_eq, hentities, entities,
      entities, hsplit, redirect_append hfront, List.map_append, List.map_append,
      List.map_cons, List.map_cons]
    exact hactive
  · rw [hnew]
    refine activeOf_congr (filter_expandHistory (decide_eq_false (d.foreign m other hmp hother)) ?_)
    intro n hn
    rw [List.mem_singleton.mp hn]
    exact decide_eq_false (honly m other hmg hother)

namespace Nesting

variable {node inner parent : Entity} {container lower destination : TileContainer}
  (x : Nesting s node inner parent container lower destination)

include x

theorem tracks_midway :
    Tracks s (s.midway node inner container lower) inner node lower container
      { container with children := lower.children } := by
  have d := x.dissolves_midway h
  obtain ⟨-, -, -, -, hself⟩ := x.ne h
  refine ⟨?_, fun m other hmp hmg hother => ?_⟩
  · have hsingle : activeChild s.history container = some inner := by
      rw [activeChild_eq, x.unary, activeOf_singleton]
    rw [hsingle, Option.bind_some, if_pos rfl]
    exact activeOf_congr (filter_replaceHistory_none (decide_eq_false hself))
  · exact activeOf_congr (filter_replaceHistory_none (decide_eq_false (d.foreign m other hmp hother)))

include hr in
theorem recorded_midway : (s.midway node inner container lower).history.Nodup ∧
    (node ∉ (s.midway node inner container lower).history →
      ∀ n ∈ lower.entities, n ∉ (s.midway node inner container lower).history) := by
  obtain ⟨hin, -, -, -, -⟩ := x.ne h
  have hnew : (s.midway node inner container lower).history = s.history.filter (· ≠ inner) :=
    replaceHistory_none
  rw [hnew]
  refine ⟨hr.nodup.filter _, fun hnot n hn hmem => hnot ?_⟩
  have hascends : s.Ascends n node := .head (x.lower_parent h hn) (.single (x.inner_parent h))
  exact List.mem_filter.mpr ⟨hr.ancestors n (List.mem_filter.mp hmem).1 node hascends,
    decide_eq_true hin.symm⟩

include hr in
theorem tracks_promote {front back : List TileChild} {w : ℚ} (hne : lower.children ≠ [])
    (hsplit : destination.children = front ++ ⟨node, w⟩ :: back)
    (hfront : node ∉ front.map entity) (hback : node ∉ back.map entity) :
    Tracks (s.midway node inner container lower)
      (s.promote node inner parent front.length (rescale lower w)).flush node parent
      { container with children := lower.children } destination
      { destination with children := front ++ rescale lower w ++ back } := by
  have d := x.dissolves_promote h hsplit hfront hback
  have h' := x.wellFormed_midway h
  obtain ⟨-, hpn, -, hnode, -⟩ := x.ne h
  have hidentities : (rescale lower w).map entity = lower.entities := by
    rw [rescale, List.map_map, entities]
    exact List.map_congr_left fun _ _ => rfl
  have hnew : (s.promote node inner parent front.length (rescale lower w)).flush.history =
      expandHistory (s.midway node inner container lower).history node lower.entities := by
    rw [promote_flush h.settled, hidentities]
    rfl
  have honly : ∀ m c, m ≠ node → (s.midway node inner container lower).containers m = some c →
      ∀ n ∈ lower.entities, n ∉ c.entities := by
    intro m c hm hc n hn hmem
    exact hm (Option.some.inj (((h'.edges n m).mpr ⟨c, hc, hmem⟩).symm.trans (d.inner n hn).1))
  have hdestination : destination.entities = front.map entity ++ node :: back.map entity := by
    rw [entities, hsplit, List.map_append, List.map_cons]
  have hchild := honly parent destination hpn d.outer
  rw [hdestination] at hchild
  refine ⟨?_, fun m other hmp hmg hother => ?_⟩
  · have hactive := activeOf_expandHistory (front.map entity) (back.map entity)
      (x.recorded_midway h hr).2 (fun hempty => hne (entities_nil_iff.mp hempty)) hnode hfront
      (fun n hn hmem => hchild n hn (List.mem_append_left _ hmem))
      (fun n hn hmem => hchild n hn (List.mem_append_right _ (List.mem_cons_of_mem _ hmem)))
    have hpost : ({ destination with children := front ++ rescale lower w ++ back } :
        TileContainer).entities =
          front.map entity ++ lower.entities ++ back.map entity := by
      rw [entities, List.map_append, List.map_append, hidentities]
    rw [hnew, activeChild_eq, activeChild_eq, activeChild_eq, hdestination, hpost]
    exact hactive
  · rw [hnew]
    refine activeOf_congr (filter_expandHistory (decide_eq_false (d.foreign m other hmp hother)) ?_)
    exact fun n hn => decide_eq_false (honly m other hmg hother n hn)

end Nesting

end Edits

/-! ### What regrouping keeps -/

/-- The containers that differ are splits, before and after. -/
def EditsSplits (s s' : TileWorld) : Prop :=
  ∀ n c, s.containers n ≠ s'.containers n → s.containers n = some c ∨ s'.containers n = some c →
    c.layout.isSplit = true

/-- The active leaf of every root, a history without duplicates, and the leaves that are shown, if
splits are edited. -/
structure KeepsActive (s s' : TileWorld) : Prop where
  active : ∀ root ∈ s.roots, ∀ leaf, s'.ActiveLeaf root leaf ↔ s.ActiveLeaf root leaf
  nodup : s'.history.Nodup
  visible : EditsSplits s s' → ∀ root ∈ s.roots, ∀ leaves, s.Shares root leaves → ∀ leaf ∈ leaves,
    s'.branchVisible leaf.1 = s.branchVisible leaf.1

variable {s' : TileWorld}

theorem branchVisibleFrom_congr (hparents : s'.parents = s.parents) (hcontainers : ∀ n, (s'.containers
      n).map (fun c => (c.layout.isSplit, activeChild s'.history c)) = (s.containers n).map fun c =>
      (c.layout.isSplit, activeChild s.history c)) :
    ∀ (fuel : ℕ) (n : Entity), s'.branchVisibleFrom fuel n = s.branchVisibleFrom fuel n := by
  intro fuel
  induction fuel with
  | zero => intro n; rfl
  | succ fuel ih =>
      intro n
      rw [branchVisibleFrom, branchVisibleFrom, hparents]
      cases s.parents n with
      | none => rfl
      | some p =>
          have hp := hcontainers p
          cases hc : s.containers p with
          | none =>
              rw [hc, Option.map_none, Option.map_eq_none_iff] at hp
              simp only [hp, hc]
          | some c =>
              rw [hc, Option.map_some] at hp
              obtain ⟨c', hc', heq⟩ := Option.map_eq_some_iff.mp hp
              obtain ⟨hsplit, hactive⟩ := Prod.mk.inj heq
              simp only [hc', hc, hsplit, hactive, ih]

theorem KeepsActive.congr {s'' : TileWorld} (hk : KeepsActive s s')
    (hcontainers : s''.containers = s'.containers) (hparents : s''.parents = s'.parents)
    (hhistory : s''.history = s'.history) : KeepsActive s s'' where
  active root hroot leaf := by
    have hedges : s''.edgesBy (Tile.active s''.history) = s'.edgesBy (Tile.active s'.history) := by
      funext n
      rw [edgesBy, edgesBy, hcontainers, hhistory]
    rw [← hk.active root hroot leaf, ActiveLeaf, hedges]
    rfl
  nodup := hhistory ▸ hk.nodup
  visible hedits root hroot leaves hleaves leaf hleaf := by
    rw [← hk.visible (fun n c hn hc => hedits n c (hcontainers ▸ hn) (hcontainers ▸ hc)) root hroot
      leaves hleaves leaf hleaf]
    exact branchVisibleFrom_congr hparents (fun n => by rw [hcontainers, hhistory]) _ _

theorem KeepsActive.refl (hr : Recorded s) : KeepsActive s s :=
  ⟨fun _ _ _ => Iff.rfl, hr.nodup, fun _ _ _ _ _ _ _ => rfl⟩

variable {cp' cg cp : TileContainer}

/-- The containers that make the difference differ. -/
theorem Dissolves.splits {full bare : TileWorld} (d : Dissolves full bare g p cg cp cp')
    (h : WellFormed bare) (hedits : EditsSplits full bare) :
    cg.layout.isSplit = true ∧ cp.layout.isSplit = true ∧ cp'.layout.isSplit = true := by
  have hg : full.containers g ≠ bare.containers g := by
    rw [d.group, d.gone]
    nofun
  have hp : full.containers p ≠ bare.containers p := by
    rw [d.outer, d.outer']
    intro heq
    have hparent := (h.edges g p).mpr ⟨cp', d.outer', Option.some.inj heq ▸ d.listed⟩
    exact absurd (d.orphan.symm.trans hparent) nofun
  exact ⟨hedits g cg hg (.inl d.group), hedits p cp hp (.inl d.outer), hedits p cp' hp (.inr d.outer')⟩

theorem EditsSplits.symm (h : EditsSplits s s') : EditsSplits s' s :=
  fun n c hn hc => h n c hn.symm hc.symm

/-- A container is put into the forest. -/
theorem Tracks.keepsActive_full (d : Dissolves s' s g p cg cp cp') (t : Tracks s' s g p cg cp cp')
    (h : WellFormed s) (h' : WellFormed s')
    (hshares : shares cp' = (shares cp).flatMap (bypass g (shares cg))) (hnodup : s'.history.Nodup) :
    KeepsActive s s' where
  active root hroot leaf := (t.activeLeaf_iff d (d.root_ne h' (d.roots ▸ hroot))).symm
  nodup := hnodup
  visible hedits root hroot leaves hleaves leaf hleaf := by
    obtain ⟨hcg, hcp, hcp'⟩ := d.splits h hedits.symm
    rw [d.roots] at hroot
    exact (t.branchVisible_eq d h' h hshares hcg hcp hcp' hroot
      ((d.shares_iff hshares (d.root_ne h' hroot)).mp hleaves) hleaf).symm

/-- A container is taken out of the forest. -/
theorem Tracks.keepsActive_bare (d : Dissolves s s' g p cg cp cp') (t : Tracks s s' g p cg cp cp')
    (h : WellFormed s) (h' : WellFormed s')
    (hshares : shares cp' = (shares cp).flatMap (bypass g (shares cg))) (hnodup : s'.history.Nodup) :
    KeepsActive s s' where
  active root hroot leaf := t.activeLeaf_iff d (d.root_ne h hroot)
  nodup := hnodup
  visible hedits root hroot leaves hleaves leaf hleaf := by
    obtain ⟨hcg, hcp, hcp'⟩ := d.splits h' hedits
    exact t.branchVisible_eq d h h' hshares hcg hcp hcp' hroot hleaves hleaf

section Keeps

variable {s : TileWorld} (h : WellFormed s) (hr : Recorded s)

include h hr

theorem keepsActive_split {window : Entity} (axis : SplitAxis) (hroot : window ∉ s.roots) :
    KeepsActive s (s.split window axis).flush := by
  rcases split_cases axis hroot with hsame | ⟨parent, container, -, hcontainer, hsplit,
    hprepare⟩ | ⟨parent, container, ancestors, hparent, hcontainer, hancestry, hwithin, hid, hnest⟩
  · rw [hsame, flush_settled h.settled]
    exact .refl hr
  · rw [hprepare, flush_settled (wellFormed_prepare h parent window axis).settled]
    have hnew : ∀ n, ((s.prepare parent window axis).containers n).map
        (fun c => (c.layout.isSplit, activeChild s.history c)) =
          (s.containers n).map fun c => (c.layout.isSplit, activeChild s.history c) := by
      intro n
      dsimp only [prepare, markDirty, modifyContainer]
      by_cases hn : n = parent
      · subst hn
        rw [Function.update_self, hcontainer, Option.map_some, Option.map_some, Option.map_some]
        congr 2
        exact hsplit.symm
      · rw [Function.update_of_ne hn]
    refine ⟨fun root _ leaf => ?_, hr.nodup, fun _ _ _ _ _ leaf _ => ?_⟩
    · have hedges : (s.prepare parent window axis).edgesBy
          (active (s.prepare parent window axis).history) = s.edgesBy (active s.history) := by
        funext n
        have hn := congrArg (Option.map fun pair : Bool × Option Entity =>
          pair.2.toList.map fun child => (child, (1 : ℚ))) (hnew n)
        rw [Option.map_map, Option.map_map] at hn
        exact hn
      rw [ActiveLeaf, hedges]
      rfl
    · exact @branchVisibleFrom_congr s (s.prepare parent window axis) rfl hnew _ _
  · rw [hnest]
    have h' := wellFormed_nest h axis hparent hcontainer hid hancestry hwithin
    refine Tracks.keepsActive_full (dissolves_nest h axis hparent hcontainer hid)
      (tracks_nest h hr axis hparent hcontainer hid) h h' (shares_nest h axis hparent hcontainer) ?_
    rw [nest_flush h.settled hid]
    exact nodup_wrapHistory h.fresh.2.2.1 hr.nodup

theorem keepsActive_enclose {axis : SplitAxis} {depth height : ℕ}
    (hf : ∀ c : TileContainer, (f c).children = c.children) (hdepth : s.depth node = some depth)
    (hheight : s.height (maxDepth + 1) node = some height)
    (hcontainer : s.containers node = some container) (hroom : depth + height < maxDepth)
    (hdone : (s.enclose node container f axis).2 = true) :
    KeepsActive s (s.enclose node container f axis).1.flush := by
  refine Tracks.keepsActive_full (dissolves_enclose h hf hcontainer hdone)
    (tracks_enclose h hf hcontainer hdone) h
    (wellFormed_enclose h hf hdepth hheight hcontainer hroom hdone) (shares_enclose hf axis) ?_
  rw [enclose_flush h.settled hdone]
  change (s.groupHistory container).Nodup
  rw [groupHistory]
  split
  · exact nodup_wrapHistory h.fresh.2.2.1 hr.nodup
  · exact hr.nodup

theorem keepsActive_collapse {outer : TileContainer} {child : TileChild}
    (hparent : s.parents node = some parent) (hcontainer : s.containers node = some container)
    (hchildren : container.children = [child]) (houter : s.containers parent = some outer) :
    KeepsActive s (s.collapseInto node child.entity parent).flush := by
  refine Tracks.keepsActive_bare (dissolves_collapse h hparent hcontainer hchildren houter)
    (tracks_collapse h hr hparent hcontainer hchildren houter) h
    (wellFormed_collapse h hparent hcontainer hchildren houter)
    (shares_collapse h hparent hcontainer hchildren houter) ?_
  rw [collapseInto_flush h.settled]
  have d := dissolves_collapse h hparent hcontainer hchildren houter
  have hne : child.entity ≠ node := fun heq => d.foreign node container d.ne.symm hcontainer (by
    rw [← heq]
    exact entity_mem (by rw [hchildren]; exact List.mem_singleton_self child))
  change (replaceHistory s.history node (some child.entity)).Nodup
  rw [replaceHistory_eq_expandHistory hne hr.nodup]
  exact nodup_expandHistory hr.nodup

theorem keepsActive_flatten (hdone : (s.flatten node).2 = true) :
    KeepsActive s (s.flatten node).1.flush := by
  obtain ⟨parent, container, child, lower, destination, front, w, back, x, hchildren, hne,
    ⟨hcontainer, hlower, hlayout⟩, hsplit, hfront, hback, heq⟩ := flatten_nesting h hdone
  have hpositive := h.weights node container x.group child
    (by rw [hchildren]; exact List.mem_singleton_self child)
  have htotal := total_pos (h.weights _ lower x.nested) hne
  have hshares : shares { container with children := lower.children } =
      (shares container).flatMap (bypass child.entity (shares lower)) :=
    shares_midway hchildren hpositive
  have hshares' : shares { destination with children := front ++ rescale lower w ++ back } =
      (shares destination).flatMap
        (bypass node (shares { container with children := lower.children })) :=
    shares_promote hsplit hfront hback htotal.ne'
  have d := x.dissolves_midway h
  have d' := x.dissolves_promote h hsplit hfront hback
  have t := x.tracks_midway h
  have t' := x.tracks_promote h hr hne hsplit hfront hback
  have hmidway := x.wellFormed_midway h
  have hpromote := x.wellFormed_promote h hsplit hfront hback
  have hdestination : destination.layout.isSplit = true := hlayout ▸ hlower
  rw [heq]
  refine ⟨fun root hroot leaf => ?_, ?_, fun _ root hroot leaves hleaves leaf hleaf => ?_⟩
  · exact (t'.activeLeaf_iff d' (d'.root_ne hmidway hroot)).trans
      (t.activeLeaf_iff d (d.root_ne h hroot))
  · rw [promote_flush h.settled]
    exact nodup_expandHistory (x.recorded_midway h hr).1
  · rw [t'.branchVisible_eq d' hmidway hpromote hshares' hcontainer hdestination hdestination hroot
      ((d.shares_iff hshares (d.root_ne h hroot)).mpr hleaves) hleaf]
    exact t.branchVisible_eq d h hmidway hshares hlower hcontainer hcontainer hroot hleaves hleaf

theorem keepsActive_edit {request : TileTreeEdit} {container : Entity}
    (hregroups : request.regroups = some container) (hdone : (s.edit request).2 = true) :
    KeepsActive s (s.edit request).1.flush := by
  cases request with
  | place node anchor side => cases hregroups
  | wrapChildren node axis =>
      obtain ⟨depth, height, found, hdepth, hheight, hfound, hroom, -, heq⟩ :=
        wrapChildren_cases hdone
      rw [edit, heq] at hdone ⊢
      exact keepsActive_enclose h hr (fun _ => rfl) hdepth hheight hfound hroom hdone
  | groupChildren node layout =>
      obtain ⟨depth, height, found, hdepth, hheight, hfound, hroom, -, heq⟩ :=
        groupChildren_cases hdone
      rw [edit, heq] at hdone ⊢
      exact keepsActive_enclose h hr (fun group => setLayout_children group layout) hdepth hheight
        hfound hroom hdone
  | collapse node =>
      obtain ⟨parent, found, child, outer, hparent, hfound, hchildren, houter, -, heq⟩ :=
        collapse_cases hdone
      rw [edit, heq]
      exact keepsActive_collapse h hr hparent hfound hchildren houter
  | flatten node => exact keepsActive_flatten h hr hdone

end Keeps

/-- **Regrouping keeps the active path.** -/
theorem regrouping_preserves_the_active_path :
    ∀ s : TileWorld, WellFormed s ∧ Recorded s →
      (∀ window axis, window ∉ s.roots → KeepsActive s (s.applySplit window axis)) ∧
      ∀ request container, request.regroups = some container → (s.edit request).2 = true →
        KeepsActive s (s.applyEdit request) := by
  rintro s ⟨h, hr⟩
  refine ⟨fun window axis hroot => ?_, fun request container hregroups hdone => ?_⟩
  · obtain ⟨events, hevents⟩ := s.applySplit_eq window axis
    rw [hevents]
    exact (keepsActive_split h hr axis hroot).congr rfl rfl rfl
  · rw [applyEdit_of_done hdone]
    exact (keepsActive_edit h hr hregroups hdone).congr rfl rfl rfl

theorem sample_recorded : Recorded sample where
  nodup := by decide
  ancestors n hn a hascends := by
    induction hascends with
    | refl => exact hn
    | tail _ hstep _ =>
        rcases sample_parents.mp hstep with ⟨rfl, -⟩ | ⟨rfl, -⟩
        all_goals decide

/-- The unary split is collapsed. -/
theorem sample_keeps_the_active_path : KeepsActive sample (sample.applyEdit (.collapse 2)) :=
  (regrouping_preserves_the_active_path sample ⟨sample_wellFormed, sample_recorded⟩).2 (.collapse 2) 2
    rfl (by decide)

end Tile
