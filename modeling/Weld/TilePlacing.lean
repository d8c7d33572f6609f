/-
**A node is placed beside another one.**

The edge of the node leaves its container and enters that of the anchor, beside the edge of the anchor.
The containers that are empty then are retired, up to a root or to the container that the edge entered.
The anchor may be one of them: a child that is lifted out of a unary container beside this container
takes its place.

Main definitions: `TileSide.beside`, `Placed`.

Main results:

* `place_is_correct_and_atomic`;
* `sample_place_lifts_the_window` — the anchor may disappear.
-/

import Weld.TileRetiring

namespace Tile

open TileWorld

open Function (update)

/-! ### Lists of children -/

/-- An edge beside the edge of the anchor. -/
def TileSide.beside (edge mark : TileChild) : TileSide → List TileChild
  | before => [edge, mark]
  | after => [mark, edge]

/-- An edge is inserted at the index of the anchor, or after it. -/
theorem insertIdx_beside (front back : List TileChild) (edge mark : TileChild) (side : TileSide) :
    (front ++ mark :: back).insertIdx (front.length + if side = .after then 1 else 0) edge =
      front ++ side.beside edge mark ++ back := by
  cases side with
  | before =>
      rw [if_neg (by decide), Nat.add_zero, insertIdx_split, TileSide.beside, List.append_assoc]
      rfl
  | after =>
      have hlength : front.length + 1 = (front ++ [mark]).length := by
        rw [List.length_append, List.length_singleton]
      rw [if_pos rfl, hlength, ← List.singleton_append, ← List.append_assoc, insertIdx_split,
        TileSide.beside]
      simp only [List.append_assoc, List.cons_append, List.nil_append]

variable {index targetIndex : ℕ} {edge mark : TileChild} {side : TileSide} {node anchor : Entity}

/-- Removal and insertion in one list: the index of the anchor may shift. -/
theorem exists_beside {children : List TileChild} (hnodup : (children.map TileChild.entity).Nodup)
    (hne : node ≠ anchor) (hnode : position children node = some (index, edge))
    (hanchor : position children anchor = some (targetIndex, mark)) (side : TileSide) :
    ∃ front back, children.filter (·.entity ≠ node) = front ++ mark :: back ∧
      (children.eraseIdx index).insertIdx
        (targetIndex - (if index < targetIndex then 1 else 0) + if side = .after then 1 else 0) edge =
        front ++ side.beside edge mark ++ back := by
  obtain ⟨front, back, rfl, rfl, rfl, hfront, hback⟩ := position_split hnodup hnode
  obtain ⟨herase, hfilter⟩ := eraseIdx_split edge hfront hback
  obtain ⟨left, right, hsplit, rfl, rfl, -, -⟩ := position_split hnodup hanchor
  rw [herase, hfilter]
  rcases List.append_eq_append_iff.mp hsplit with ⟨between, hleft, hrest⟩ | ⟨between, hfront', hrest⟩
  · -- the anchor comes later
    cases between with
    | nil =>
        cases hrest
        exact absurd rfl hne
    | cons first between =>
        obtain ⟨rfl, rfl⟩ : edge = first ∧ back = between ++ mark :: right := List.cons.inj hrest
        refine ⟨front ++ between, right, by rw [List.append_assoc], ?_⟩
        have hindex : left.length - (if front.length < left.length then 1 else 0) =
            (front ++ between).length := by
          rw [hleft, List.length_append, List.length_append, List.length_cons, if_pos (by omega)]
          omega
        rw [hindex, ← List.append_assoc]
        exact insertIdx_beside ..
  · -- the anchor comes before
    cases between with
    | nil =>
        cases hrest
        exact absurd rfl hne
    | cons first between =>
        obtain ⟨rfl, rfl⟩ : mark = first ∧ right = between ++ edge :: back := List.cons.inj hrest
        refine ⟨left, between ++ back, by rw [hfront', List.append_assoc]; rfl, ?_⟩
        have hindex : left.length - (if front.length < left.length then 1 else 0) = left.length := by
          rw [hfront', List.length_append, List.length_cons, if_neg (by omega), Nat.sub_zero]
        rw [hindex, hfront', List.append_assoc, List.cons_append]
        exact insertIdx_beside ..

/-! ### What the edit does -/

/-- A node that may move beside an anchor. -/
structure Moving (s : TileWorld) (node anchor source destination : Entity)
    (container target : TileContainer) (index targetIndex : ℕ) (edge mark : TileChild) : Prop where
  ne : node ≠ anchor
  root : s.root node = s.root anchor
  child : s.parents node = some source
  sibling : s.parents anchor = some destination
  group : s.containers source = some container
  outer : s.containers destination = some target
  edge : position container.children node = some (index, edge)
  mark : position target.children anchor = some (targetIndex, mark)
  apart : ∃ ancestors, s.ancestry destination = some ancestors ∧ node ∉ ancestors
  room : ∃ depth height, s.depth anchor = some depth ∧ s.height maxDepth node = some height ∧
    depth + height ≤ maxDepth

/-- The edge as it enters the destination. -/
def arriving (source destination : Entity) (target : TileContainer) (edge : TileChild) : TileChild :=
  if source = destination then edge else { edge with weight := meanWeight target }

/-- The index at which the edge enters the destination. -/
def insertion (source destination : Entity) (index targetIndex : ℕ) (side : TileSide) : ℕ :=
  targetIndex - (if source = destination ∧ index < targetIndex then 1 else 0) +
    if side = .after then 1 else 0

variable {s : TileWorld}

/-- When a node is placed. -/
theorem place_cases (h : (s.place node anchor side).2 = true) :
    ∃ source destination container target index targetIndex edge mark,
      Moving s node anchor source destination container target index targetIndex edge mark ∧
      (s.place node anchor side).1 = (s.moveEdge node source destination index
        (insertion source destination index targetIndex side)
        (arriving source destination target edge)).1 ∧
      (s.moveEdge node source destination index
        (insertion source destination index targetIndex side)
        (arriving source destination target edge)).2 = true := by
  unfold place at h ⊢
  split_ifs at h ⊢ with hrefused
  simp only [not_or, not_not] at hrefused
  split at h
  · rename_i source destination depth hsource hdestination hdepth
    split at h
    · rename_i low excess height hlow hover hheight
      split_ifs at h ⊢ with hdeep
      unfold placeEdge at h ⊢
      split at h
      · rename_i ancestors container target hancestry hcontainer htarget
        by_cases hcycle : node ∈ ancestors
        · rw [if_pos hcycle] at h
          cases h
        rw [if_neg hcycle] at h ⊢
        split at h
        · rename_i index edge targetIndex mark hedge hmark
          exact ⟨source, destination, container, target, index, targetIndex, edge, mark,
            ⟨hrefused.1, hrefused.2.2, hsource, hdestination, hcontainer, htarget, hedge, hmark,
              ⟨ancestors, hancestry, hcycle⟩, depth, height, hdepth, hheight, by omega⟩, rfl, h⟩
        · cases h
      · cases h
    · cases h
  · cases h

/-- The edge has moved, and nothing is retired yet. -/
def TileWorld.rehung (s : TileWorld) (node source destination : Entity) (index insertion : ℕ)
    (edge : TileChild) : TileWorld :=
  ((s.modifyContainer source fun container =>
    { container with children := container.children.eraseIdx index }).modifyContainer destination
      fun container => { container with children := container.children.insertIdx insertion edge }).setParent
    node destination

theorem moveEdge_eq {source destination : Entity} {insertion : ℕ}
    (h : (s.moveEdge node source destination index insertion edge).2 = true) :
    0 < edge.weight ∧ (s.moveEdge node source destination index insertion edge).1 =
      ((s.rehung node source destination index insertion edge).removeEmptyAncestors source).markDirty := by
  rw [moveEdge] at h ⊢
  split_ifs at h ⊢ with hweight
  exact ⟨not_le.mp hweight, rfl⟩

/-- The containers that stay when an edge moves. -/
def Stays (s : TileWorld) (destination n : Entity) : Prop := n ∈ s.roots ∨ n = destination

namespace Moving

variable {s : TileWorld} {node anchor source destination : Entity} {container target : TileContainer}
  {index targetIndex : ℕ} {edge mark : TileChild}
  (x : Moving s node anchor source destination container target index targetIndex edge mark)
  (h : WellFormed s) (side : TileSide)

include x h

theorem not_ascends : ¬ s.Ascends destination node := by
  obtain ⟨level, hlevel⟩ := h.ranked
  obtain ⟨ancestors, hancestry, hnode⟩ := x.apart
  obtain ⟨found, hfound, hmem, -⟩ := h.ancestry_eq hlevel destination
  cases hancestry.symm.trans hfound
  exact fun hascends => hnode ((hmem node).mpr hascends)

theorem not_ascends_source : ¬ s.Ascends source node := by
  obtain ⟨level, hlevel⟩ := h.ranked
  exact hlevel.not_ascends_parent x.child

theorem entities : edge.entity = node ∧ mark.entity = anchor := by
  obtain ⟨-, -, -, -, hedge, -, -⟩ := position_split (h.nodup source container x.group) x.edge
  obtain ⟨-, -, -, -, hmark, -, -⟩ := position_split (h.nodup destination target x.outer) x.mark
  exact ⟨hedge, hmark⟩

theorem arriving_entity : (arriving source destination target edge).entity = node := by
  rw [arriving]
  split_ifs <;> exact (x.entities h).1

/-- The edges of the containers, before any is retired. -/
theorem rehung_containers : ∃ front back,
    target.children.filter (·.entity ≠ node) = front ++ mark :: back ∧
      (s.rehung node source destination index (insertion source destination index targetIndex side)
        (arriving source destination target edge)).containers = fun n =>
          if n = destination then some { target with
            children := front ++ side.beside (arriving source destination target edge) mark ++ back }
          else (s.containers n).map (·.without [node]) := by
  have herased := h.eraseIdx_containers x.child x.group x.edge
  by_cases hsame : source = destination
  · subst hsame
    cases x.group.symm.trans x.outer
    obtain ⟨front, back, hfilter, hlist⟩ :=
      exists_beside (h.nodup source container x.group) x.ne x.edge x.mark side
    refine ⟨front, back, hfilter, ?_⟩
    funext n
    simp only [rehung, modifyContainer, setParent]
    by_cases hn : n = source
    · subst hn
      rw [if_pos rfl, Function.update_self, Function.update_self, x.group, Option.map_some,
        Option.map_some, insertion, arriving, if_pos rfl, ← hlist]
      simp only [true_and]
    · rw [if_neg hn, Function.update_of_ne hn]
      exact congrFun herased n
  · obtain ⟨front, back, hsplit, hindex, -, -, -⟩ :=
      position_split (h.nodup destination target x.outer) x.mark
    have hforeign : node ∉ target.entities := fun hlisted => hsame (Option.some.inj
      (x.child.symm.trans ((h.edges node destination).mpr ⟨target, x.outer, hlisted⟩)))
    refine ⟨front, back, by rw [filter_entity_of_notMem hforeign, hsplit], ?_⟩
    funext n
    simp only [rehung, modifyContainer, setParent]
    by_cases hn : n = destination
    · subst hn
      have hlist := insertIdx_beside front back (arriving source n target edge) mark side
      rw [if_pos rfl, Function.update_self, Function.update_of_ne (Ne.symm hsame), x.outer,
        Option.map_some, insertion, if_neg fun hshift => hsame hshift.1, Nat.sub_zero, hindex, ← hlist,
        hsplit]
    · rw [if_neg hn, Function.update_of_ne hn]
      exact congrFun herased n

/-- The loop runs while the edge has moved. -/
theorem leaves : Leaves s
    (s.rehung node source destination index (insertion source destination index targetIndex side)
      (arriving source destination target edge))
    (fun other => other ∈ s.roots) (Stays s destination) node source := by
  obtain ⟨front, back, hfilter, hcontainers⟩ := x.rehung_containers h side
  have hentity := x.arriving_entity h
  have hsource := x.not_ascends_source h
  refine ⟨fun a ha => ?_, fun a _ hstays => ?_, fun a hkept => .inl (of_decide_eq_true hkept),
    fun a ha hstays => ?_, fun a ha n c hc hlisted => ?_⟩
  · have hne : a ≠ node := fun heq => hsource (heq ▸ ha)
    simp only [rehung, modifyContainer, setParent]
    rw [Function.update_of_ne hne]
  · rw [hcontainers]
    exact if_neg fun heq => hstays (.inr heq)
  · rcases hstays with hroot | rfl
    · exact .inl (decide_eq_true hroot)
    · refine .inr ⟨_, by rw [hcontainers]; exact if_pos rfl, node, ?_, hsource⟩
      refine List.mem_map.mpr ⟨arriving source a target edge, ?_, hentity⟩
      refine List.mem_append_left _ (List.mem_append_right _ ?_)
      cases side with
      | before => exact List.mem_cons_self
      | after => exact List.mem_cons_of_mem _ List.mem_cons_self
  · have hne : a ≠ node := fun heq => hsource (heq ▸ ha)
    rw [hcontainers] at hc
    dsimp only at hc
    split_ifs at hc with hn
    · subst hn
      cases hc
      obtain ⟨child, hchild, rfl⟩ := List.mem_map.mp hlisted
      have hmem : child ∈ target.children.filter (·.entity ≠ node) := by
        rw [hfilter]
        have hbeside : child ∈ side.beside (arriving source n target edge) mark → child = mark := by
          cases side with
          | before =>
              intro hmem
              rcases List.mem_cons.mp hmem with rfl | hmem
              · exact absurd hentity hne
              · exact List.mem_singleton.mp hmem
          | after =>
              intro hmem
              rcases List.mem_cons.mp hmem with rfl | hmem
              · rfl
              · exact absurd (List.mem_singleton.mp hmem ▸ hentity) hne
        rcases List.mem_append.mp hchild with hchild | hchild
        · rcases List.mem_append.mp hchild with hchild | hchild
          · exact List.mem_append_left _ hchild
          · rw [hbeside hchild]
            exact List.mem_append_right _ List.mem_cons_self
        · exact List.mem_append_right _ (List.mem_cons_of_mem _ hchild)
      exact (h.edges child.entity n).mpr ⟨target, x.outer, entity_mem (List.mem_filter.mp hmem).1⟩
    · obtain ⟨d, hd, rfl⟩ := Option.map_eq_some_iff.mp hc
      exact (h.edges a n).mpr ⟨d, hd, (TileContainer.mem_entities_without.mp hlisted).1⟩

/-- The world, once what is empty is gone. -/
theorem moveEdge_flush {vacated : List Entity} (hv : Vacated s (Stays s destination) node source vacated)
    (hdone : (s.moveEdge node source destination index
      (insertion source destination index targetIndex side)
      (arriving source destination target edge)).2 = true) :
    (s.moveEdge node source destination index (insertion source destination index targetIndex side)
      (arriving source destination target edge)).1.flush =
      { s with
        containers := fun n => if n ∈ vacated then none else
          ((s.rehung node source destination index
            (insertion source destination index targetIndex side)
            (arriving source destination target edge)).containers n).map (·.without vacated)
        parents := fun n => if n ∈ vacated then none else
          update s.parents node (some destination) n
        rects := fun n => if n ∈ vacated then none else s.rects n
        windows := fun n => if n ∈ vacated then {} else s.windows n
        workspaces := fun n => if n ∈ vacated then none else s.workspaces n
        history := s.history.filter (· ∉ vacated)
        dirty := true } := by
  obtain ⟨level, hlevel⟩ := h.ranked
  have hretired := Leaves.retireEmpty_eq h hlevel hv (x.leaves h side) x.child
    (Nat.lt_succ_of_le (hlevel.bound source))
  have hroots : s.roots.filter (· ∉ vacated) = s.roots :=
    List.filter_eq_self.mpr fun r hr => decide_eq_true fun hmem => (hv.mem hmem).1 (.inl hr)
  have hparents : (s.parents node).map (fun _ => destination) = some destination := by
    rw [x.child]
    rfl
  rw [(moveEdge_eq hdone).2, removeEmptyAncestors]
  change (retireEmpty (fun other => decide (other ∈ s.roots)) (maxDepth + 1) _ source).markDirty.flush = _
  rw [hretired, markDirty, flush]
  simp only [rehung, modifyContainer, setParent, h.settled, List.nil_append,
    foldl_despawn, hroots, hparents]

end Moving

/-! ### Place -/

/-- What has changed when a node is placed beside an anchor. -/
structure Placed (s s' : TileWorld) (node anchor : Entity) (side : TileSide)
    (source destination : Entity) (target : TileContainer) (edge : TileChild)
    (vacated : List Entity) : Prop where
  child : s.parents node = some source
  sibling : s.parents anchor = some destination
  outer : s.containers destination = some target
  /-- The containers above the node that become empty, but for roots and the destination. -/
  retired : Vacated s (Stays s destination) node source vacated
  gone : ∀ n ∈ vacated, s'.containers n = none ∧ s'.parents n = none
  moved : edge.entity = node
  same : source = destination → edge ∈ target.children
  weight : source ≠ destination → edge.weight = meanWeight target
  /-- The edge stands beside that of the anchor, among the edges that were there. -/
  beside : ∃ front mark back, mark.entity = anchor ∧
    target.children.filter (·.entity ≠ node) = front ++ mark :: back ∧
    s'.containers destination =
      some ({ target with children := front ++ side.beside edge mark ++ back }.without vacated)
  /-- If the anchor does not disappear, the node is next to it. -/
  adjacent : anchor ∉ vacated → ∃ front mark back c, mark.entity = anchor ∧
    s'.containers destination = some c ∧ c.children = front ++ side.beside edge mark ++ back
  others : ∀ n ∉ vacated, n ≠ destination →
    s'.containers n = (s.containers n).map (·.without (node :: vacated))
  parent : s'.parents node = some destination
  parents : ∀ n ∉ vacated, n ≠ node → s'.parents n = s.parents n
  subtree : ∀ n, s.Ascends n node →
    s'.containers n = s.containers n ∧ (n ≠ node → s'.parents n = s.parents n)
  roots : s'.roots = s.roots ∧ ∀ r ∈ s.roots, (s'.containers r).isSome
  history : s'.history = s.history.filter (· ∉ vacated)

theorem Moving.placed {source destination : Entity} {container target : TileContainer}
    (x : Moving s node anchor source destination container target index targetIndex edge mark)
    (h : WellFormed s) (hdone : (s.moveEdge node source destination index (insertion source destination
      index targetIndex side) (arriving source destination target edge)).2 = true) :
    ∃ vacated, Placed s (s.moveEdge node source destination index
      (insertion source destination index targetIndex side)
      (arriving source destination target edge)).1.flush node anchor side source destination target
      (arriving source destination target edge) vacated := by
  obtain ⟨r, hr, -, hup⟩ := h.root_eq (h.inTree_parent x.child)
  have hstays : Stays s destination r := .inl hr
  obtain ⟨vacated, hv⟩ := h.exists_vacated hup hstays (by rw [x.group]; rfl) node
  refine ⟨vacated, ?_⟩
  have hflush := x.moveEdge_flush h side hv hdone
  obtain ⟨front, back, hfilter, hcontainers⟩ := x.rehung_containers h side
  have hentity := x.arriving_entity h
  have habove : ∀ {n}, s.Ascends n node → n ∉ vacated := fun hn hmem =>
    x.not_ascends_source h ((hv.mem hmem).2.1.trans hn)
  have hdestination : destination ∉ vacated := fun hmem => (hv.mem hmem).1 (.inr rfl)
  have htarget : (s.moveEdge node source destination index
      (insertion source destination index targetIndex side)
      (arriving source destination target edge)).1.flush.containers destination =
      some ({ target with
        children := front ++ side.beside (arriving source destination target edge) mark ++
          back }.without vacated) := by
    rw [hflush]
    dsimp only
    rw [if_neg hdestination, hcontainers]
    dsimp only
    rw [if_pos rfl, Option.map_some]
  have hothers : ∀ n ∉ vacated, n ≠ destination → (s.moveEdge node source destination index
      (insertion source destination index targetIndex side)
      (arriving source destination target edge)).1.flush.containers n =
      (s.containers n).map (·.without (node :: vacated)) := by
    intro n hn hne
    rw [hflush]
    dsimp only
    rw [if_neg hn, hcontainers]
    dsimp only
    rw [if_neg hne, Option.map_map]
    congr 1
    funext c
    exact c.without_without [node] vacated
  refine
    { child := x.child
      sibling := x.sibling
      outer := x.outer
      retired := hv
      gone := fun n hn => ?_
      moved := hentity
      same := fun hsame => ?_
      weight := fun hne => by rw [arriving, if_neg hne]
      beside := ⟨front, mark, back, (x.entities h).2, hfilter, htarget⟩
      adjacent := fun hanchor => ?_
      others := hothers
      parent := ?_
      parents := fun n hn hne => ?_
      subtree := fun n hn => ?_
      roots := ?_
      history := by rw [hflush] }
  · rw [hflush]
    exact ⟨if_pos hn, if_pos hn⟩
  · subst hsame
    cases x.group.symm.trans x.outer
    obtain ⟨left, right, hsplit, -⟩ := position_split (h.nodup source container x.group) x.edge
    rw [arriving, if_pos rfl, hsplit]
    exact List.mem_append_right _ List.mem_cons_self
  · have hpair : (side.beside (arriving source destination target edge) mark).filter
        (·.entity ∉ vacated) = side.beside (arriving source destination target edge) mark := by
      refine List.filter_eq_self.mpr fun child hchild => decide_eq_true ?_
      have hcases : child = arriving source destination target edge ∨ child = mark := by
        cases side with
        | before => exact (List.mem_cons.mp hchild).imp id List.mem_singleton.mp
        | after => exact (List.mem_cons.mp hchild).symm.imp List.mem_singleton.mp id
      rcases hcases with rfl | rfl
      · rw [hentity]
        exact habove .refl
      · rw [(x.entities h).2]
        exact hanchor
    refine ⟨front.filter (·.entity ∉ vacated), mark, back.filter (·.entity ∉ vacated), _,
      (x.entities h).2, htarget, ?_⟩
    rw [TileContainer.without]
    rw [List.filter_append, List.filter_append, hpair]
  · rw [hflush]
    dsimp only
    rw [if_neg (habove .refl), Function.update_self]
  · rw [hflush]
    dsimp only
    rw [if_neg hn, Function.update_of_ne hne]
  · refine ⟨?_, fun hne => ?_⟩
    · rw [hothers n (habove hn) fun heq => x.not_ascends h (heq ▸ hn)]
      cases hc : s.containers n with
      | none => rfl
      | some c =>
          refine congrArg some (TileContainer.without_of_notMem fun m hm hlisted => ?_)
          have hparent : s.parents m = some n := (h.edges m n).mpr ⟨c, hc, hlisted⟩
          rcases List.mem_cons.mp hm with rfl | hm
          · cases x.child.symm.trans hparent
            exact x.not_ascends_source h hn
          · exact habove (.head hparent hn) hm
    · rw [hflush]
      dsimp only
      rw [if_neg (habove hn), Function.update_of_ne hne]
  · rw [hflush]
    refine ⟨rfl, fun r hr => ?_⟩
    have hnot : r ∉ vacated := fun hmem => (hv.mem hmem).1 (.inl hr)
    dsimp only
    rw [if_neg hnot, Option.isSome_map, hcontainers]
    dsimp only
    split_ifs
    · rfl
    · rw [Option.isSome_map]
      exact (h.root r hr).2

/-! ### Refusals -/

/-- A node that is a root, or unknown. -/
def Unplaced (s : TileWorld) (n : Entity) : Prop := n ∈ s.roots ∨ ¬ s.InTree n

theorem place_refuses (h : WellFormed s) (side : TileSide) (hrefused : s.Ascends anchor node ∨ Unplaced s
      node ∨ Unplaced s anchor ∨ ∃ r ∈ s.roots, ∃ r' ∈ s.roots, s.Ascends node r ∧ s.Ascends anchor r' ∧ r ≠
      r') : (s.place node anchor side).2 = false := by
  by_contra hdone
  obtain ⟨source, destination, container, target, index, targetIndex, edge, mark, x, -, -⟩ :=
    place_cases (Bool.not_eq_false _ ▸ hdone)
  have hplaced : ∀ {n p : Entity}, s.parents n = some p → ¬ Unplaced s n := by
    rintro n p hp (hroot | hout)
    · exact h.notMem_roots hp hroot
    · exact hout (.inr (by rw [hp]; rfl))
  rcases hrefused with hascends | hnode | hanchor | ⟨r, hr, r', hr', hnode, hanchor, hne⟩
  · rcases hascends.cases_head with heq | ⟨p, hp, hup⟩
    · exact x.ne heq.symm
    · cases hp.symm.trans x.sibling
      exact x.not_ascends h hup
  · exact hplaced x.child hnode
  · exact hplaced x.sibling hanchor
  · obtain ⟨a, ha, hroot, hnode'⟩ := h.root_eq (n := node) (.inr (by rw [x.child]; rfl))
    obtain ⟨b, hb, hroot', hanchor'⟩ := h.root_eq (n := anchor) (.inr (by rw [x.sibling]; rfl))
    have heq : a = b := Option.some.inj (hroot.symm.trans (x.root.trans hroot'))
    exact hne ((h.root_unique hr ha hnode hnode').trans
      (heq.trans (h.root_unique hb hr' hanchor' hanchor)))

/-- **Place is correct and atomic.** -/
theorem place_is_correct_and_atomic :
    ∀ s : TileWorld, WellFormed s → ∀ (node anchor : Entity) (side : TileSide),
      ((s.place node anchor side).2 = false ∧ s.applyEdit (.place node anchor side) = s ∨
        (s.place node anchor side).2 = true ∧ ∃ source destination target edge vacated,
          Placed s (s.applyEdit (.place node anchor side)) node anchor side source destination target edge
            vacated) ∧
      (s.Ascends anchor node ∨ Unplaced s node ∨ Unplaced s anchor ∨
        (∃ r ∈ s.roots, ∃ r' ∈ s.roots, s.Ascends node r ∧ s.Ascends anchor r' ∧ r ≠ r') →
        (s.place node anchor side).2 = false) := by
  intro s h node anchor side
  refine ⟨?_, place_refuses h side⟩
  cases hdone : (s.place node anchor side).2 with
  | false =>
      have hedit : (s.edit (.place node anchor side)).2 = false := hdone
      exact .inl ⟨rfl, applyEdit_of_refused h.settled hedit⟩
  | true =>
      obtain ⟨source, destination, container, target, index, targetIndex, edge, mark, x, heq, hmoved⟩ :=
        place_cases hdone
      obtain ⟨vacated, hplaced⟩ := x.placed h hmoved
      have hedit : (s.edit (.place node anchor side)).2 = true := hdone
      refine .inr ⟨rfl, source, destination, target, arriving source destination target edge, vacated, ?_⟩
      rw [applyEdit_of_done hedit]
      change Placed s { (s.place node anchor side).1.flush with events := _ } node anchor side source
        destination target (arriving source destination target edge) vacated
      rw [heq]
      exact { hplaced with }

/-- A window is placed beside the unary split that holds it. -/
theorem sample_place_moves_the_window : ∃ source destination target edge vacated,
    Placed sample (sample.applyEdit (.place 3 2 .after)) 3 2 .after source destination target edge
      vacated :=
  ((place_is_correct_and_atomic sample sample_wellFormed 3 2 .after).1.resolve_left
    fun hrefused => absurd hrefused.1 (by decide +kernel)).2

/-- The split is gone, so the window is not next to it. -/
theorem sample_place_lifts_the_window :
    (sample.place 3 2 .after).2 = true ∧ (sample.applyEdit (.place 3 2 .after)).containers 2 = none ∧
      ¬ ∃ front back, ((sample.applyEdit (.place 3 2 .after)).containers 0).map TileContainer.entities =
        some (front ++ [2, 3] ++ back) := by
  have hleft : ((sample.applyEdit (.place 3 2 .after)).containers 0).map TileContainer.entities =
      some [1, 3] := by decide +kernel
  refine ⟨by decide +kernel, by decide +kernel, ?_⟩
  rintro ⟨front, back, heq⟩
  have hmem : (2 : Entity) ∈ ([1, 3] : List Entity) := by
    rw [Option.some.inj (hleft.symm.trans heq)]
    exact List.mem_append_left _ (List.mem_append_right _ List.mem_cons_self)
  exact absurd hmem (by decide)

end Tile
