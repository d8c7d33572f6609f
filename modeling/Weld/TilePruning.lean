/-
**Pruning.**

When windows stop being managed by their root, one pass over every tree removes them.  The recursion
gives back what is left of a branch: the branch itself, its only survivor, or nothing.  What is left
takes the place of the branch in the list above, with the weight of that place, while new parents,
removals and the end of the containers that collapse are deferred.

What is left of a branch depends on the tree before the pass and on which leaves are live.  A container
that lost a leaf collapses if it is not a root and has no child left, or one while it is a split.

Main definitions: `TileWorld.prune`, `TileWorld.prunePass`, `TileWorld.pruneRemoved`,
`TileWorld.survivor`, `TileContainer.heirs`, `TileWorld.Heir`.

Main results:

* `WellFormed.survivor_node` — which containers collapse;
* `WellFormed.heir_unique`, `WellFormed.exists_heir` — every node that is left has one parent.
-/

import Mathlib.Data.List.Dedup
import Weld.TileTransplant

namespace Tile

namespace TileWorld

/-! ### The pass -/

/-- A managed window of the root. -/
def liveIn (s : TileWorld) (root n : Entity) : Bool :=
  (s.windows n).managed ∧ (s.windows n).managedBy = some root

/-- The branch of a child has been pruned: what is left takes the place of the child. -/
def adopt (entity : Entity) (child : TileChild) (kept : List TileChild) (removed : Bool) :
    TileWorld × Option Entity × Bool → TileWorld × List TileChild × Bool
  | (s, none, changed) => (s, kept, removed || changed)
  | (s, some replacement, changed) =>
      (if replacement ≠ child.entity then s.defer (.insertParent replacement entity) else s,
        kept ++ [{ child with entity := replacement }], removed || changed)

/-- All children have been pruned: the container keeps what is left, or collapses. -/
def compact (root entity : Entity) (container : TileContainer) :
    TileWorld × List TileChild × Bool → TileWorld × Option Entity × Bool
  | (s, _, false) => (s, some entity, false)
  | (s, kept, true) =>
      let s := s.markDirty
      if entity ≠ root ∧ (kept = [] ∨ kept.length = 1 ∧ container.layout.isSplit) then
        let replacement := kept.head?.map TileChild.entity
        let s := { s with history := replaceHistory s.history entity replacement }
        (s.defer (.despawn entity), replacement, true)
      else (s.modifyContainer entity fun container => { container with children := kept }, some entity, true)

/-- The recursion ends in a well-formed tree, whose depth is bounded. -/
def prune (root : Entity) : ℕ → TileWorld → Entity → Option (TileWorld × Option Entity × Bool)
  | 0, _, _ => none
  | fuel + 1, s, entity =>
      match s.containers entity with
      | none =>
          if s.liveIn root entity then some (s, some entity, false)
          else
            let s := { s with history := replaceHistory s.history entity none }
            some (s.defer (.removeTiled entity), none, true)
      | some container =>
          (container.children.foldlM (fun (found : TileWorld × List TileChild × Bool) child =>
            (prune root fuel found.1 child.entity).map (adopt entity child found.2.1 found.2.2))
            (s, [], false)).map (compact root entity container)

/-- One pass from every root; the query visits each of them once. -/
def prunePass (s : TileWorld) : Option TileWorld :=
  (s.roots.dedup.foldlM (fun (t : TileWorld) root =>
    (t.prune root (maxDepth + 1) root).map Prod.fst) s).map flush

/-- The pass runs when windows or their managers were removed or changed. -/
def pruneRemoved (s : TileWorld) (removed : ℕ) (changed : Bool) : Option TileWorld :=
  if removed = 0 ∧ changed = false then some s else s.prunePass

end TileWorld

/-! ### What is left -/

/-- What is left of the children, in their places. -/
def TileContainer.heirs (c : TileContainer) (left : Entity → Option Entity) : List TileChild :=
  c.children.filterMap fun child => (left child.entity).map fun n => { child with entity := n }

namespace TileWorld

/-- A leaf below the node is not live. -/
def Loses (s : TileWorld) (live : Entity → Bool) (n : Entity) : Prop :=
  ∃ leaf, s.containers leaf = none ∧ s.Ascends leaf n ∧ live leaf = false

/-- A container that is not a root goes when its children do, and a split with one child goes too. -/
def Collapses (s : TileWorld) (live : Entity → Bool) (n : Entity) (c : TileContainer)
    (left : Entity → Option Entity) : Prop :=
  s.Loses live n ∧ n ∉ s.roots ∧ (c.heirs left = [] ∨ (c.heirs left).length = 1 ∧ c.layout.isSplit)

open Classical in
noncomputable def survivorFrom (s : TileWorld) (live : Entity → Bool) : ℕ → Entity → Option Entity
  | 0, _ => none
  | fuel + 1, n =>
      match s.containers n with
      | none => if live n then some n else none
      | some c =>
          if s.Collapses live n c (s.survivorFrom live fuel) then
            (c.heirs (s.survivorFrom live fuel)).head?.map TileChild.entity
          else some n

/-- What is left of a branch: the node, its only survivor, or nothing. -/
noncomputable def survivor (s : TileWorld) (live : Entity → Bool) (n : Entity) : Option Entity :=
  s.survivorFrom live (maxDepth + 1) n

/-- The second node is left, and the first one is what is left of a child of it. -/
def Heir (s : TileWorld) (live : Entity → Bool) (n p : Entity) : Prop :=
  s.survivor live p = some p ∧ ∃ child, s.parents child = some p ∧ s.survivor live child = some n

end TileWorld

variable {c : TileContainer} {left : Entity → Option Entity}

theorem TileContainer.heirs_congr {left' : Entity → Option Entity} (h : ∀ n ∈ c.entities, left n = left' n) :
    c.heirs left = c.heirs left' :=
  List.filterMap_congr fun child hchild => by rw [h child.entity (entity_mem hchild)]

theorem TileContainer.heirs_entities (c : TileContainer) (left : Entity → Option Entity) :
    (c.heirs left).map TileChild.entity = c.entities.filterMap left := by
  rw [heirs, entities, List.map_filterMap, List.filterMap_map]
  refine List.filterMap_congr fun child _ => ?_
  rw [Option.map_map]
  exact Option.map_id' ..

theorem TileContainer.mem_heirs {n : Entity} :
    n ∈ (c.heirs left).map TileChild.entity ↔ ∃ child ∈ c.entities, left child = some n := by
  rw [heirs_entities, List.mem_filterMap]

theorem TileContainer.heirs_self
    (h : ∀ n ∈ c.entities, left n = some n) : c.heirs left = c.children := by
  rw [heirs]
  calc c.children.filterMap (fun child => (left child.entity).map fun n => { child with entity := n })
      = c.children.filterMap some :=
        List.filterMap_congr fun child hchild => by rw [h child.entity (entity_mem hchild)]; rfl
    _ = c.children := List.filterMap_some

namespace WellFormed

variable {s : TileWorld} (h : WellFormed s)

include h

/-- From the children to their parents. -/
theorem induction_below {motive : Entity → Prop}
    (step : ∀ n, (∀ child, s.parents child = some n → motive child) → motive n) (n : Entity) :
    motive n := by
  obtain ⟨level, hlevel⟩ := h.ranked
  have hall : ∀ fuel n, maxDepth < level n + fuel → motive n := by
    intro fuel
    induction fuel with
    | zero =>
        intro n hlt
        have hbound := hlevel.bound n
        omega
    | succ fuel ih =>
        intro n hlt
        refine step n fun child hchild => ih child ?_
        have hstep := hlevel.step child n hchild
        omega
  exact hall (maxDepth + 1) n (by omega)

/-- A node is below one child at most. -/
theorem sibling_unique {m a b p : Entity} (ha : s.parents a = some p) (hb : s.parents b = some p)
    (hma : s.Ascends m a) (hmb : s.Ascends m b) : a = b := by
  obtain ⟨level, hlevel⟩ := h.ranked
  induction hma using Relation.ReflTransGen.head_induction_on with
  | refl =>
      rcases hmb.cases_head with heq | ⟨q, hq, hup⟩
      · exact heq
      · cases ha.symm.trans hq
        exact absurd hup (hlevel.not_ascends_parent hb)
  | @head m q hq hup ih =>
      rcases hmb.cases_head with rfl | ⟨q', hq', hup'⟩
      · cases hb.symm.trans hq
        exact absurd hup (hlevel.not_ascends_parent ha)
      · cases hq.symm.trans hq'
        exact ih hup'

omit h in
/-- Two nodes above a node are one above the other. -/
theorem comparable {m a b : Entity} (ha : s.Ascends m a) (hb : s.Ascends m b) :
    s.Ascends a b ∨ s.Ascends b a := by
  induction ha using Relation.ReflTransGen.head_induction_on with
  | refl => exact .inl hb
  | @head m q hq hup ih =>
      rcases hb.cases_head with rfl | ⟨q', hq', hup'⟩
      · exact .inr (.head hq hup)
      · cases hq.symm.trans hq'
        exact ih hup'

variable {live : Entity → Bool} {n t p r a : Entity} {c : TileContainer}

omit h in
theorem loses_iff (hc : s.containers n = some c) :
    s.Loses live n ↔ ∃ child, s.parents child = some n ∧ s.Loses live child := by
  constructor
  · rintro ⟨leaf, hleaf, hup, hlive⟩
    rcases hup.cases_tail with rfl | ⟨child, hbelow, hchild⟩
    · cases hleaf.symm.trans hc
    · exact ⟨child, hchild, leaf, hleaf, hbelow, hlive⟩
  · rintro ⟨child, hchild, leaf, hleaf, hup, hlive⟩
    exact ⟨leaf, hleaf, hup.tail hchild, hlive⟩

theorem survivorFrom_eq {level : Entity → ℕ} (hlevel : Ranked s level) (live : Entity → Bool) :
    ∀ (fuel fuel' : ℕ) (n : Entity), maxDepth < level n + fuel → maxDepth < level n + fuel' →
      s.survivorFrom live fuel n = s.survivorFrom live fuel' n := by
  intro fuel
  induction fuel with
  | zero =>
      intro fuel' n hlt _
      have hbound := hlevel.bound n
      omega
  | succ fuel ih =>
      intro fuel' n hlt hlt'
      cases fuel' with
      | zero =>
          have hbound := hlevel.bound n
          omega
      | succ fuel' =>
          rw [TileWorld.survivorFrom, TileWorld.survivorFrom]
          cases hc : s.containers n with
          | none => rfl
          | some c =>
              have hheirs : c.heirs (s.survivorFrom live fuel) = c.heirs (s.survivorFrom live fuel') := by
                refine TileContainer.heirs_congr fun child hchild => ?_
                have hstep := hlevel.step child n ((h.edges child n).mpr ⟨c, hc, hchild⟩)
                exact ih fuel' child (by omega) (by omega)
              dsimp only
              rw [TileWorld.Collapses, TileWorld.Collapses, hheirs]

omit h in
theorem survivor_leaf (hn : s.containers n = none) :
    s.survivor live n = if live n then some n else none := by
  rw [TileWorld.survivor, TileWorld.survivorFrom, hn]

variable (hc : s.containers n = some c)
include hc

open Classical in
/-- A container collapses, or is left. -/
theorem survivor_node :
    s.survivor live n =
      if s.Collapses live n c (s.survivor live) then
        (c.heirs (s.survivor live)).head?.map TileChild.entity
      else some n := by
  obtain ⟨level, hlevel⟩ := h.ranked
  have hheirs : c.heirs (s.survivorFrom live maxDepth) = c.heirs (s.survivor live) := by
    refine TileContainer.heirs_congr fun child hchild => ?_
    have hstep := hlevel.step child n ((h.edges child n).mpr ⟨c, hc, hchild⟩)
    exact h.survivorFrom_eq hlevel live _ _ child (by omega) (by omega)
  rw [TileWorld.survivor, TileWorld.survivorFrom, hc]
  dsimp only
  rw [TileWorld.Collapses, TileWorld.Collapses, hheirs]

/-- A container that does not collapse is left. -/
theorem survivor_self (hstays : ¬ s.Collapses live n c (s.survivor live)) : s.survivor live n = some n := by
  rw [h.survivor_node hc, if_neg hstays]

/-- A container that collapses hands on the only survivor. -/
theorem survivor_collapsed (hgone : s.Collapses live n c (s.survivor live)) :
    c.entities.filterMap (s.survivor live) = (s.survivor live n).toList := by
  rw [h.survivor_node hc, if_pos hgone, ← TileContainer.heirs_entities]
  rcases hgone.2.2 with hnil | ⟨hone, -⟩
  · rw [hnil]
    rfl
  · obtain ⟨edge, hedge⟩ := List.length_eq_one_iff.mp hone
    rw [hedge]
    rfl

omit hc

/-- What is left is below the node. -/
theorem survivor_ascends (n : Entity) : ∀ t, s.survivor live n = some t → s.Ascends t n := by
  induction n using h.induction_below with
  | step n ih =>
      intro t ht
      cases hc : s.containers n with
      | none =>
          rw [survivor_leaf hc] at ht
          split_ifs at ht
          cases ht
          exact .refl
      | some c =>
          by_cases hgone : s.Collapses live n c (s.survivor live)
          · have hmem : t ∈ c.entities.filterMap (s.survivor live) := by
              rw [h.survivor_collapsed hc hgone, ht]
              exact List.mem_singleton_self t
            obtain ⟨child, hchild, hleft⟩ := List.mem_filterMap.mp hmem
            have hparent := (h.edges child n).mpr ⟨c, hc, hchild⟩
            exact (ih child hparent t hleft).tail hparent
          · rw [h.survivor_self hc hgone] at ht
            cases ht
            exact .refl

theorem loses_leaf (hn : s.containers n = none) : s.Loses live n ↔ live n = false := by
  constructor
  · rintro ⟨leaf, -, hup, hlive⟩
    rcases hup.cases_tail with rfl | ⟨child, -, hchild⟩
    · exact hlive
    · obtain ⟨c, hc, -⟩ := (h.edges child n).mp hchild
      exact absurd (hn.symm.trans hc) nofun
  · exact fun hlive => ⟨n, hn, .refl, hlive⟩

/-- The survivor of a branch that collapses is the survivor of one child. -/
theorem survivor_child (ht : s.survivor live n = some t)
    (hne : t ≠ n) : ∃ child, s.parents child = some n ∧ s.survivor live child = some t := by
  cases hc : s.containers n with
  | none =>
      rw [survivor_leaf hc] at ht
      split_ifs at ht
      cases ht
      exact absurd rfl hne
  | some c =>
      by_cases hgone : s.Collapses live n c (s.survivor live)
      · have hmem : t ∈ c.entities.filterMap (s.survivor live) := by
          rw [h.survivor_collapsed hc hgone, ht]
          exact List.mem_singleton_self t
        obtain ⟨child, hchild, hleft⟩ := List.mem_filterMap.mp hmem
        exact ⟨child, (h.edges child n).mpr ⟨c, hc, hchild⟩, hleft⟩
      · rw [h.survivor_self hc hgone] at ht
        cases ht
        exact absurd rfl hne

include hc

/-- A container that collapses is not left. -/
theorem survivor_ne (hgone : s.Collapses live n c (s.survivor live)) : s.survivor live n ≠ some n := by
  intro hself
  have hmem : n ∈ c.entities.filterMap (s.survivor live) := by
    rw [h.survivor_collapsed hc hgone, hself]
    exact List.mem_singleton_self n
  obtain ⟨child, hchild, hleft⟩ := List.mem_filterMap.mp hmem
  obtain ⟨level, hlevel⟩ := h.ranked
  exact hlevel.not_ascends_parent ((h.edges child n).mpr ⟨c, hc, hchild⟩) (h.survivor_ascends child n hleft)

omit hc in
/-- The branches between a node and its survivor have the same survivor. -/
theorem survivor_between (htp : s.Ascends t p) (n : Entity) :
    s.survivor live n = some t → s.Ascends p n → s.survivor live p = some t := by
  induction n using h.induction_below with
  | step n ih =>
      intro ht hpn
      rcases hpn.cases_tail with rfl | ⟨child, hup, hchild⟩
      · exact ht
      · obtain ⟨level, hlevel⟩ := h.ranked
        have hne : t ≠ n := by
          rintro rfl
          exact hlevel.not_ascends_parent hchild (htp.trans hup)
        obtain ⟨other, hother, hleft⟩ := h.survivor_child ht hne
        cases h.sibling_unique hother hchild (h.survivor_ascends other t hleft) (htp.trans hup)
        exact ih child hchild hleft hup

omit hc in
/-- A branch that loses no leaf is left. -/
theorem survivor_of_kept (hkept : ¬ s.Loses live n) : s.survivor live n = some n := by
  cases hc : s.containers n with
  | none =>
      rw [survivor_leaf hc, if_pos]
      by_contra hlive
      exact hkept ⟨n, hc, .refl, Bool.not_eq_true _ ▸ hlive⟩
  | some c => exact h.survivor_self hc fun hgone => hkept hgone.1

/-- A list that loses no leaf stays as it is. -/
theorem heirs_of_kept (hkept : ¬ s.Loses live n) : c.heirs (s.survivor live) = c.children :=
  TileContainer.heirs_self fun child hchild => h.survivor_of_kept fun hloses =>
    hkept ((loses_iff hc).mpr ⟨child, (h.edges child n).mpr ⟨c, hc, hchild⟩, hloses⟩)

omit hc in
theorem survivor_root (hr : r ∈ s.roots) : s.survivor live r = some r := by
  obtain ⟨c, hc⟩ := Option.isSome_iff_exists.mp (h.root r hr).2
  exact h.survivor_self hc fun hgone => hgone.2.1 hr

omit hc in
/-- What is left survives itself. -/
theorem survivor_survivor (ht : s.survivor live n = some t) : s.survivor live t = some t :=
  h.survivor_between .refl n ht (h.survivor_ascends n t ht)

/-- A list has what is left of it once. -/
theorem heirs_nodup : (c.entities.filterMap (s.survivor live)).Nodup := by
  have hinjective : ∀ a ∈ c.entities, ∀ b ∈ c.entities, ∀ t, s.survivor live a = some t →
      s.survivor live b = some t → a = b := by
    intro a ha b hb t hat hbt
    exact h.sibling_unique ((h.edges a n).mpr ⟨c, hc, ha⟩) ((h.edges b n).mpr ⟨c, hc, hb⟩)
      (h.survivor_ascends a t hat) (h.survivor_ascends b t hbt)
  have hnodup := h.nodup n c hc
  revert hinjective hnodup
  generalize c.entities = nodes
  intro hinjective hnodup
  induction nodes with
  | nil => exact List.nodup_nil
  | cons a nodes ih =>
      obtain ⟨hnot, hrest⟩ := List.nodup_cons.mp hnodup
      have htail := ih (fun b hb b' hb' => hinjective b (List.mem_cons_of_mem a hb) b'
        (List.mem_cons_of_mem a hb')) hrest
      cases ha : s.survivor live a with
      | none =>
          rw [List.filterMap_cons_none ha]
          exact htail
      | some t =>
          rw [List.filterMap_cons_some ha, List.nodup_cons]
          refine ⟨fun hmem => ?_, htail⟩
          obtain ⟨b, hb, hbt⟩ := List.mem_filterMap.mp hmem
          exact hnot (hinjective a List.mem_cons_self b (List.mem_cons_of_mem a hb) t ha hbt ▸ hb)

omit hc

/-! ### New parents -/

/-- A node has one parent at most when all is pruned. -/
theorem heir_unique {q : Entity} (hp : s.Heir live n p) (hq : s.Heir live n q) : p = q := by
  -- the lower one of the two would be left, and have the node for its survivor
  have hbelow : ∀ {a b}, s.Heir live n a → s.Heir live n b → s.Ascends a b → a = b := by
    rintro a b ⟨hself, child, hchild, hleft⟩ ⟨-, other, hother, hleft'⟩ hup
    rcases hup.cases_tail with heq | ⟨lower, hlower, hparent⟩
    · exact heq.symm
    · have hna : s.Ascends n a := (h.survivor_ascends child n hleft).tail hchild
      cases h.sibling_unique hother hparent (h.survivor_ascends other n hleft') (hna.trans hlower)
      cases hself.symm.trans (h.survivor_between hna other hleft' hlower)
      obtain ⟨level, hlevel⟩ := h.ranked
      exact absurd (h.survivor_ascends child n hleft) (hlevel.not_ascends_parent hchild)
  have ⟨_, child, hchild, hleft⟩ := hp
  have ⟨_, other, hother, hleft'⟩ := hq
  rcases comparable ((h.survivor_ascends child n hleft).tail hchild)
    ((h.survivor_ascends other n hleft').tail hother) with hup | hup
  · exact hbelow hp hq hup
  · exact (hbelow hq hp hup).symm

/-- What has a new parent is left. -/
theorem survivor_of_heir (hp : s.Heir live n p) : s.survivor live n = some n := by
  obtain ⟨-, child, -, hleft⟩ := hp
  exact h.survivor_survivor hleft

/-- A root has no new parent. -/
theorem not_heir_root (hr : r ∈ s.roots) : ¬ s.Heir live r p := by
  rintro ⟨-, child, hchild, hleft⟩
  rcases (h.survivor_ascends child r hleft).cases_head with rfl | ⟨q, hq, -⟩
  · exact h.notMem_roots hchild hr
  · exact h.notMem_roots hq hr

/-- What is left below a root has a new parent. -/
theorem exists_heir (hr : r ∈ s.roots) (hup : s.Ascends a r) :
    s.survivor live a = some n → a ≠ r → ∃ p, s.Ascends p r ∧ s.Heir live n p := by
  induction hup using Relation.ReflTransGen.head_induction_on with
  | refl => exact fun _ hne => absurd rfl hne
  | @head a p hp hup ih =>
      intro hleft _
      obtain ⟨c, hc, hlisted⟩ := (h.edges a p).mp hp
      by_cases hgone : s.Collapses live p c (s.survivor live)
      · have hmem : n ∈ c.entities.filterMap (s.survivor live) :=
          List.mem_filterMap.mpr ⟨a, hlisted, hleft⟩
        rw [h.survivor_collapsed hc hgone, Option.mem_toList] at hmem
        refine ih hmem ?_
        rintro rfl
        exact hgone.2.1 hr
      · exact ⟨p, hup, h.survivor_self hc hgone, a, hp, hleft⟩

end WellFormed

end Tile
