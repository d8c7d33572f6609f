/-
**A subtree moves.**

An edit that moves a node takes its edge out of one list, puts an edge to it into another one, and
retires the containers that are empty then.  Whatever the edit is, the forest stays well formed if there
is room at the destination, the subtree stays as it is, and seen from left to right its leaves leave the
row of their old root and stand together in the row of the new one.

Main definitions: `TileWorld.LeafRow`, `Transplant`.

Main results:

* `WellFormed.leafRow_nodup` — no leaf occurs twice;
* `Transplant.wellFormed`, `Transplant.subtree`;
* `Transplant.leafRow_left`, `Transplant.leafRow_entered` — the rows of the roots.
-/

import Weld.TilePlacing

namespace Tile

open TileContainer

open Forest (Frontier Below)
open Function (update)

/-! ### Rows of leaves -/

/-- What a container lists. -/
def TileWorld.kids (s : TileWorld) (n : Entity) : Option (List Entity) :=
  (s.containers n).map entities

/-- The leaves below a node, from left to right. -/
def TileWorld.LeafRow (s : TileWorld) (n : Entity) (leaves : List Entity) : Prop :=
  Frontier s.kids [n] leaves

namespace WellFormed

variable {s : TileWorld} (h : WellFormed s)

include h

theorem parents_iff_kids {n p : Entity} :
    s.parents n = some p ↔ ∃ children, s.kids p = some children ∧ n ∈ children := by
  rw [h.edges]
  constructor
  · rintro ⟨c, hc, hn⟩
    exact ⟨c.entities, by rw [TileWorld.kids, hc]; rfl, hn⟩
  · rintro ⟨children, hkids, hn⟩
    obtain ⟨c, hc, rfl⟩ := Option.map_eq_some_iff.mp hkids
    exact ⟨c, hc, hn⟩

theorem below_iff {n a : Entity} : Below s.kids a n ↔ s.Ascends n a := by
  constructor
  · intro hbelow
    induction hbelow with
    | refl => exact .refl
    | tail _ hstep ih => exact .head (h.parents_iff_kids.mpr hstep) ih
  · intro hascends
    induction hascends using Relation.ReflTransGen.head_induction_on with
    | refl => exact .refl
    | head hstep _ ih => exact .tail ih (h.parents_iff_kids.mp hstep)

theorem exists_leafRow (n : Entity) : ∃ leaves, s.LeafRow n leaves := by
  obtain ⟨level, hlevel⟩ := h.ranked
  refine Frontier.exists_of_rank (fun _ => True) (fun n => maxDepth - level n) ?_ [n] fun _ _ => trivial
  intro m children _ hsome child hchild
  have hstep := hlevel.step child m (h.parents_iff_kids.mpr ⟨children, hsome, hchild⟩)
  have hbound := hlevel.bound child
  exact ⟨trivial, by omega⟩

/-- The row below a node consists of the leaves below it. -/
theorem mem_leafRow {n x : Entity} {leaves : List Entity} (hrow : s.LeafRow n leaves) :
    x ∈ leaves ↔ s.containers x = none ∧ s.Ascends x n := by
  rw [hrow.mem_iff, TileWorld.kids, Option.map_eq_none_iff, ← h.below_iff]
  simp only [List.mem_singleton, exists_eq_left]

variable {n : Entity}

/-- No leaf occurs twice. -/
theorem leafRow_nodup {leaves : List Entity} (hrow : s.LeafRow n leaves) : leaves.Nodup := by
  obtain ⟨level, hlevel⟩ := h.ranked
  refine hrow.nodup level (fun m children hsome child hchild => ?_) (fun m children hsome => ?_)
    (fun m m' children others child hsome hother hchild hchild' => ?_) (List.nodup_singleton n) ?_
  · exact hlevel.step child m (h.parents_iff_kids.mpr ⟨children, hsome, hchild⟩)
  · obtain ⟨c, hc, rfl⟩ := Option.map_eq_some_iff.mp hsome
    exact h.nodup m c hc
  · exact Option.some.inj ((h.parents_iff_kids.mpr ⟨children, hsome, hchild⟩).symm.trans
      (h.parents_iff_kids.mpr ⟨others, hother, hchild'⟩))
  · intro a ha b hb _
    rw [List.mem_singleton.mp ha, List.mem_singleton.mp hb]

end WellFormed

/-! ### A node has moved -/

/-- A node has moved to another place, and what was empty then is gone. -/
structure Transplant (s s' : TileWorld) (node source destination : Entity) (target : TileContainer)
    (front back : List TileChild) (edge : TileChild) (vacated : List Entity) : Prop where
  child : s.parents node = some source
  outer : s.containers destination = some target
  apart : ¬ s.Ascends destination node
  moved : edge.entity = node
  list : target.children.filter (·.entity ≠ node) = front ++ back
  retired : ∀ n ∈ vacated, n ≠ destination ∧ s.Ascends source n ∧ (∃ p, s.parents n = some p) ∧
    ∃ c, s.containers n = some c
  closed : ∀ n p, s.parents n = some p → p ∈ vacated → n ∈ node :: vacated
  self : s'.containers destination =
    some ({ target with children := front ++ edge :: back }.without vacated)
  others : ∀ n, n ≠ destination → s'.containers n =
    if n ∈ vacated then none else (s.containers n).map (·.without (node :: vacated))
  parents : ∀ n, s'.parents n =
    if n ∈ vacated then none else update s.parents node (some destination) n
  roots : s'.roots = s.roots
  history : ∀ n ∈ s'.history, n ∈ s.history
  spawned : s'.spawned = s.spawned
  settled : s'.commands = []

namespace Transplant

variable {s s' : TileWorld} {node source destination : Entity} {target : TileContainer}
  {front back : List TileChild} {edge : TileChild} {vacated : List Entity}
  (x : Transplant s s' node source destination target front back edge vacated) (h : WellFormed s)

include x h

theorem not_ascends_source : ¬ s.Ascends source node := by
  obtain ⟨level, hlevel⟩ := h.ranked
  exact hlevel.not_ascends_parent x.child

variable {n r : Entity} {leaves row : List Entity}

/-- What is below the node is not retired. -/
theorem notMem_vacated (hn : s.Ascends n node) : n ∉ vacated := fun hmem =>
  x.not_ascends_source h ((x.retired n hmem).2.1.trans hn)

theorem root_notMem (hr : r ∈ s.roots) : r ∉ vacated := fun hmem => by
  obtain ⟨-, -, ⟨p, hp⟩, -⟩ := x.retired r hmem
  exact h.notMem_roots hp hr

omit h in
/-- What the destination lists. -/
theorem mem_list : n ∈ (front ++ edge :: back).map TileChild.entity ↔
    n = node ∨ n ≠ node ∧ n ∈ target.entities := by
  have hfilter : n ∈ (front ++ back).map TileChild.entity ↔ n ≠ node ∧ n ∈ target.entities := by
    rw [← x.list, entities]
    simp only [List.mem_map, List.mem_filter, decide_eq_true_eq]
    constructor
    · rintro ⟨child, ⟨hchild, hne⟩, rfl⟩
      exact ⟨hne, child, hchild, rfl⟩
    · rintro ⟨hne, child, hchild, rfl⟩
      exact ⟨child, ⟨hchild, hne⟩, rfl⟩
  rw [← hfilter, ← x.moved]
  simp only [List.map_append, List.map_cons, List.mem_append, List.mem_cons]
  exact or_left_comm

omit h in
theorem parents_iff {p : Entity} : s'.parents n = some p ↔
    n ∉ vacated ∧ (n = node ∧ p = destination ∨ n ≠ node ∧ s.parents n = some p) := by
  rw [x.parents]
  by_cases hn : n ∈ vacated
  · rw [if_pos hn]
    exact ⟨nofun, fun hnot => absurd hn hnot.1⟩
  · rw [if_neg hn]
    by_cases hnode : n = node
    · subst hnode
      rw [Function.update_self]
      constructor
      · intro heq
        cases heq
        exact ⟨hn, .inl ⟨rfl, rfl⟩⟩
      · rintro ⟨-, ⟨-, rfl⟩ | ⟨hne, -⟩⟩
        · rfl
        · exact absurd rfl hne
    · rw [Function.update_of_ne hnode]
      exact ⟨fun hp => ⟨hn, .inr ⟨hnode, hp⟩⟩, fun hp => (hp.2.resolve_left fun hl => hnode hl.1).2⟩

/-- What lists a node now. -/
theorem listed_iff {p : Entity} : (∃ c, s'.containers p = some c ∧ n ∈ c.entities) ↔
    n ∉ vacated ∧ (n = node ∧ p = destination ∨ n ≠ node ∧ s.parents n = some p) := by
  by_cases hp : p = destination
  · subst hp
    rw [x.self]
    constructor
    · rintro ⟨c, hc, hlisted⟩
      cases hc
      obtain ⟨hlisted, hn⟩ := mem_entities_without.mp hlisted
      refine ⟨hn, (x.mem_list.mp hlisted).imp (fun heq => ⟨heq, rfl⟩) fun hold => ⟨hold.1, ?_⟩⟩
      exact (h.edges n p).mpr ⟨target, x.outer, hold.2⟩
    · rintro ⟨hn, hcases⟩
      refine ⟨_, rfl, mem_entities_without.mpr ⟨x.mem_list.mpr ?_, hn⟩⟩
      refine hcases.imp (fun heq => heq.1) fun hold => ⟨hold.1, ?_⟩
      obtain ⟨c, hc, hlisted⟩ := (h.edges n p).mp hold.2
      cases x.outer.symm.trans hc
      exact hlisted
  · rw [x.others p hp]
    constructor
    · rintro ⟨c', hc', hlisted⟩
      split_ifs at hc' with hgone
      obtain ⟨c, hc, rfl⟩ := Option.map_eq_some_iff.mp hc'
      obtain ⟨hlisted, hn⟩ := mem_entities_without.mp hlisted
      rw [List.mem_cons, not_or] at hn
      exact ⟨hn.2, .inr ⟨hn.1, (h.edges n p).mpr ⟨c, hc, hlisted⟩⟩⟩
    · rintro ⟨hn, ⟨-, heq⟩ | ⟨hnode, hparent⟩⟩
      · exact absurd heq hp
      · obtain ⟨c, hc, hlisted⟩ := (h.edges n p).mp hparent
        have hgone : p ∉ vacated := fun hmem => by
          rcases List.mem_cons.mp (x.closed n p hparent hmem) with heq | hmem
          · exact hnode heq
          · exact hn hmem
        refine ⟨c.without (node :: vacated), by rw [if_neg hgone, hc]; rfl, ?_⟩
        exact mem_entities_without.mpr ⟨hlisted, by
          rw [List.mem_cons, not_or]; exact ⟨hnode, hn⟩⟩

omit h in
/-- A container that is there now was there before. -/
theorem container_of {c' : TileContainer} (hc' : s'.containers n = some c') :
    n ∉ vacated ∧ (s.containers n).isSome := by
  by_cases hn : n = destination
  · subst hn
    exact ⟨fun hmem => (x.retired n hmem).1 rfl, by rw [x.outer]; rfl⟩
  · rw [x.others n hn] at hc'
    split_ifs at hc' with hgone
    obtain ⟨c, hc, -⟩ := Option.map_eq_some_iff.mp hc'
    exact ⟨hgone, by rw [hc]; rfl⟩

/-- **The forest stays well formed**, if there is room for the subtree. -/
theorem wellFormed {level : Entity → ℕ} (hlevel : Ranked s level)
    (hroom : ∀ m, s.Ascends m node → level m + level destination + 1 ≤ maxDepth + level node)
    (hweight : 0 < edge.weight) : WellFormed s' := by
  classical
  have hchildren : ∀ child ∈ front ++ back, child ∈ target.children ∧ child.entity ≠ node := by
    intro child hchild
    rw [← x.list] at hchild
    exact ⟨(List.mem_filter.mp hchild).1, of_decide_eq_true (List.mem_filter.mp hchild).2⟩
  have hlow : ∀ {m}, s.Ascends m node → level node ≤ level m := fun hm => hlevel.le_of_ascends hm
  refine
    { settled := x.settled
      root := fun r hr => ?_
      edges := fun n p => x.parents_iff.trans (x.listed_iff h).symm
      nodup := fun p c' hc' => ?_
      weights := fun p c' hc' child hchild => ?_
      top := fun n hn hp => ?_
      ranked := ⟨fun m => if s.Ascends m node then level m + (level destination + 1) - level node
        else level m, fun m => ?_, fun r hr => ?_, fun n p hp => ?_⟩
      spawned := fun n hn => ?_ }
  · rw [x.roots] at hr
    have hgone := x.root_notMem h hr
    have hnode : r ≠ node := fun heq => h.notMem_roots x.child (heq ▸ hr)
    rw [x.parents, if_neg hgone, Function.update_of_ne hnode]
    refine ⟨(h.root r hr).1, ?_⟩
    by_cases hr' : r = destination
    · rw [hr', x.self]
      rfl
    · rw [x.others r hr', if_neg hgone, Option.isSome_map]
      exact (h.root r hr).2
  · by_cases hp : p = destination
    · subst hp
      cases x.self.symm.trans hc'
      have hnodup : ((front ++ edge :: back).map TileChild.entity).Nodup := by
        rw [List.map_append, List.map_cons, List.nodup_middle, List.nodup_cons, ← List.map_append,
          ← x.list]
        refine ⟨fun hmem => ?_, (h.nodup p target x.outer).sublist
          (List.filter_sublist.map TileChild.entity)⟩
        obtain ⟨child, hchild, heq⟩ := List.mem_map.mp hmem
        exact of_decide_eq_true (List.mem_filter.mp hchild).2 (heq.trans x.moved)
      exact hnodup.sublist (List.filter_sublist.map TileChild.entity)
    · rw [x.others p hp] at hc'
      split_ifs at hc'
      obtain ⟨c, hc, rfl⟩ := Option.map_eq_some_iff.mp hc'
      exact (h.nodup p c hc).sublist (List.filter_sublist.map TileChild.entity)
  · by_cases hp : p = destination
    · subst hp
      cases x.self.symm.trans hc'
      rcases List.mem_append.mp (List.mem_filter.mp hchild).1 with hmem | hmem
      · exact h.weights p target x.outer child (hchildren child (List.mem_append_left _ hmem)).1
      · rcases List.mem_cons.mp hmem with rfl | hmem
        · exact hweight
        · exact h.weights p target x.outer child (hchildren child (List.mem_append_right _ hmem)).1
    · rw [x.others p hp] at hc'
      split_ifs at hc'
      obtain ⟨c, hc, rfl⟩ := Option.map_eq_some_iff.mp hc'
      exact h.weights p c hc child (List.mem_filter.mp hchild).1
  · obtain ⟨c', hc'⟩ := Option.isSome_iff_exists.mp hn
    obtain ⟨hgone, hold⟩ := x.container_of hc'
    rw [x.parents, if_neg hgone] at hp
    rw [x.roots]
    by_cases hnode : n = node
    · rw [hnode, Function.update_self] at hp
      cases hp
    · rw [Function.update_of_ne hnode] at hp
      exact h.top n hold hp
  · split_ifs with hm
    · have := hroom m hm
      omega
    · exact hlevel.bound m
  · rw [x.roots] at hr
    have hnot : ¬ s.Ascends r node := by
      intro hascends
      rcases hascends.cases_head with rfl | ⟨p, hp, -⟩
      · exact h.notMem_roots x.child hr
      · exact h.notMem_roots hp hr
    rw [if_neg hnot]
    exact hlevel.root r hr
  · obtain ⟨-, ⟨rfl, rfl⟩ | ⟨hnode, hparent⟩⟩ := x.parents_iff.mp hp
    · rw [if_pos .refl, if_neg x.apart]
      omega
    · have hstep := hlevel.step n p hparent
      have hiff : s.Ascends n node ↔ s.Ascends p node := by
        constructor
        · intro hascends
          rcases hascends.cases_head with heq | ⟨q, hq, hup⟩
          · exact absurd heq hnode
          · cases hparent.symm.trans hq
            exact hup
        · exact .head hparent
      by_cases hp' : s.Ascends p node
      · have := hlow hp'
        rw [if_pos (hiff.mpr hp'), if_pos hp']
        omega
      · rw [if_neg fun hn => hp' (hiff.mp hn), if_neg hp']
        exact hstep
  · rw [x.spawned]
    rcases hn with hn | hn | hn
    · obtain ⟨c', hc'⟩ := Option.isSome_iff_exists.mp hn
      exact h.spawned n (.inl (x.container_of hc').2)
    · obtain ⟨p, hp⟩ := Option.isSome_iff_exists.mp hn
      obtain ⟨-, ⟨rfl, -⟩ | ⟨-, hparent⟩⟩ := x.parents_iff.mp hp
      · exact h.spawned n (.inr (.inl (by rw [x.child]; rfl)))
      · exact h.spawned n (.inr (.inl (by rw [hparent]; rfl)))
    · exact h.spawned n (.inr (.inr (x.history n hn)))

/-- The subtree stays as it is. -/
theorem subtree (hn : s.Ascends n node) :
    s'.containers n = s.containers n ∧ (n ≠ node → s'.parents n = s.parents n) := by
  have hgone := x.notMem_vacated h hn
  refine ⟨?_, fun hne => by rw [x.parents, if_neg hgone, Function.update_of_ne hne]⟩
  rw [x.others n fun heq => x.apart (heq ▸ hn), if_neg hgone]
  cases hc : s.containers n with
  | none => rfl
  | some c =>
      refine congrArg some (without_of_notMem fun m hm hlisted => ?_)
      have hparent : s.parents m = some n := (h.edges m n).mpr ⟨c, hc, hlisted⟩
      rcases List.mem_cons.mp hm with rfl | hm
      · cases x.child.symm.trans hparent
        exact x.not_ascends_source h hn
      · exact x.notMem_vacated h (.head hparent hn) hm

/-! ### The rows of the roots -/

/-- The node has the row that it had. -/
theorem leafRow_moved (hrow : s.LeafRow node leaves) : s'.LeafRow node leaves := by
  refine hrow.congr (fun n => s.Ascends n node) (fun n hn => ?_) (fun n children hn hsome child hchild =>
    .head (h.parents_iff_kids.mpr ⟨children, hsome, hchild⟩) hn) fun n hn => ?_
  · rw [TileWorld.kids, TileWorld.kids, (x.subtree h hn).1]
  · rw [List.mem_singleton.mp hn]
    exact .refl

omit h in
/-- Away from the subtree and from what is retired, containers list what they did. -/
theorem filter_kids (gone : Entity → Bool) (hnode : gone node = true)
    (hvacated : ∀ n ∈ vacated, gone n = true) (hn : gone n = false) :
    (s.kids n).map (List.filter fun child => !gone child) =
      (s'.kids n).map (List.filter fun child => !gone child) := by
  have hkept : n ∉ vacated := fun hmem => by
    rw [hvacated n hmem] at hn
    cases hn
  have hdrop : ∀ (nodes ns : List Entity), (∀ m ∈ nodes, gone m = true) →
      (ns.filter (· ∉ nodes)).filter (fun child => !gone child) =
        ns.filter fun child => !gone child := by
    intro nodes ns hnodes
    rw [List.filter_filter]
    refine List.filter_congr fun m _ => ?_
    cases hm : gone m with
    | true => rfl
    | false =>
        have hnot : m ∉ nodes := fun hmem => by
          rw [hnodes m hmem] at hm
          cases hm
        exact decide_eq_true hnot
  rw [TileWorld.kids, TileWorld.kids]
  by_cases hd : n = destination
  · subst hd
    rw [x.self, x.outer, Option.map_some, Option.map_some, Option.map_some, Option.map_some,
      entities_without, hdrop vacated _ hvacated]
    have hlist : (target.children.filter (·.entity ≠ node)).map TileChild.entity =
        target.entities.filter (· ∉ [node]) := by
      rw [entities, List.filter_map]
      refine congrArg _ (List.filter_congr fun child _ => ?_)
      simp only [Function.comp_apply, List.mem_singleton]
    have hsingle : ∀ m ∈ [node], gone m = true := fun m hm => by rwa [List.mem_singleton.mp hm]
    rw [← hdrop [node] target.entities hsingle, ← hlist, x.list]
    change _ = some ((List.map TileChild.entity (front ++ edge :: back)).filter _)
    rw [List.map_append, List.map_append, List.map_cons, x.moved, List.filter_append,
      List.filter_append, List.filter_cons_of_neg (by rw [hnode]; exact Bool.false_ne_true)]
  · rw [x.others n hd, if_neg hkept, Option.map_map, Option.map_map, Option.map_map]
    congr 1
    funext c
    have hall : ∀ m ∈ node :: vacated, gone m = true := fun m hm =>
      (List.mem_cons.mp hm).elim (fun heq => heq ▸ hnode) (hvacated m)
    rw [Function.comp_apply, Function.comp_apply, Function.comp_apply, entities_without,
      hdrop _ _ hall]

/-- Away from the subtree, the rows are as they were. -/
theorem filter_rows (h' : WellFormed s') (hr : r ∈ s.roots) {row' : List Entity}
    (hleaves : s.LeafRow node leaves) (hrow : s.LeafRow r row) (hrow' : s'.LeafRow r row') :
    row'.filter (· ∉ leaves) = row.filter (· ∉ leaves) := by
  classical
  -- what is gone: the subtree, and what is retired
  have hgone : ∀ {n}, decide (s.Ascends n node ∨ n ∈ vacated) = true ↔
      s.Ascends n node ∨ n ∈ vacated := decide_eq_true_iff
  have hold := hrow.filter (fun n => (s.kids n).map
    (List.filter fun child => !decide (s.Ascends child node ∨ child ∈ vacated)))
    (fun n => decide (s.Ascends n node ∨ n ∈ vacated)) (fun n children hsome hn child hlisted => ?_)
    fun _ _ => rfl
  have hnew := hrow'.filter (fun n => (s.kids n).map
    (List.filter fun child => !decide (s.Ascends child node ∨ child ∈ vacated)))
    (fun n => decide (s.Ascends n node ∨ n ∈ vacated)) (fun n children hsome hn child hlisted => ?_)
    fun n hn => x.filter_kids (fun n => decide (s.Ascends n node ∨ n ∈ vacated))
      (hgone.mpr (.inl .refl)) (fun n hn => hgone.mpr (.inr hn)) hn
  · have hsame : ∀ y ∈ row, (!decide (s.Ascends y node ∨ y ∈ vacated)) = decide (y ∉ leaves) := by
      intro y hy
      obtain ⟨hleaf, -⟩ := (h.mem_leafRow hrow).mp hy
      rw [← decide_not, decide_eq_decide, not_iff_not, h.mem_leafRow hleaves]
      constructor
      · rintro (hascends | hmem)
        · exact ⟨hleaf, hascends⟩
        · obtain ⟨-, -, -, c, hc⟩ := x.retired y hmem
          exact absurd (hleaf.symm.trans hc) nofun
      · exact fun hy => .inl hy.2
    have hsame' : ∀ y ∈ row', (!decide (s.Ascends y node ∨ y ∈ vacated)) = decide (y ∉ leaves) := by
      intro y hy
      obtain ⟨hleaf, hup⟩ := (h'.mem_leafRow hrow').mp hy
      rw [← decide_not, decide_eq_decide, not_iff_not, h.mem_leafRow hleaves]
      constructor
      · rintro (hascends | hmem)
        · exact ⟨(x.subtree h hascends).1.symm.trans hleaf, hascends⟩
        · rcases hup.cases_head with rfl | ⟨p, hp, -⟩
          · exact absurd hmem (x.root_notMem h hr)
          · exact absurd hmem (x.parents_iff.mp hp).1
      · exact fun hy => .inl hy.2
    rw [← List.filter_congr hsame, ← List.filter_congr hsame']
    exact hnew.unique hold
  · obtain ⟨c', hc', rfl⟩ := Option.map_eq_some_iff.mp hsome
    obtain ⟨-, ⟨rfl, -⟩ | ⟨-, hparent⟩⟩ := (x.listed_iff h).mp ⟨c', hc', hlisted⟩
    · exact hgone.mpr (.inl .refl)
    · rcases hgone.mp hn with hascends | hmem
      · exact hgone.mpr (.inl (.head hparent hascends))
      · exact absurd hmem (x.container_of hc').1
  · have hparent := h.parents_iff_kids.mpr ⟨children, hsome, hlisted⟩
    refine hgone.mpr ((hgone.mp hn).elim (fun hascends => .inl (.head hparent hascends)) fun hmem => ?_)
    rcases List.mem_cons.mp (x.closed child n hparent hmem) with rfl | hmem
    · exact .inl .refl
    · exact .inr hmem

/-- The node is below the root that it entered. -/
theorem ascends_entered (hup : s.Ascends destination r) : s'.Ascends node r := by
  have hkept : ∀ n, s.Ascends n r → ¬ s.Ascends n node → n ∉ vacated → s'.Ascends n r := by
    intro n hn
    induction hn using Relation.ReflTransGen.head_induction_on with
    | refl => exact fun _ _ => .refl
    | @head n p hp _ ih =>
        intro hnot hmem
        have hne : n ≠ node := by
          rintro rfl
          exact hnot .refl
        refine .head (x.parents_iff.mpr ⟨hmem, .inr ⟨hne, hp⟩⟩)
          (ih (fun hascends => hnot (.head hp hascends)) fun hgone => ?_)
        rcases List.mem_cons.mp (x.closed n p hp hgone) with heq | hgone
        · exact hne heq
        · exact hmem hgone
  have hparent : s'.parents node = some destination :=
    x.parents_iff.mpr ⟨x.notMem_vacated h .refl, .inl ⟨rfl, rfl⟩⟩
  exact .head hparent (hkept destination hup x.apart fun hmem => (x.retired _ hmem).1 rfl)

/-- **The leaves stand together in the row that they entered.** -/
theorem leafRow_entered (h' : WellFormed s') (hr : r ∈ s.roots) (hup : s.Ascends destination r)
    (hleaves : s.LeafRow node leaves) (hrow : s.LeafRow r row) :
    ∃ left right, s'.LeafRow r (left ++ leaves ++ right) ∧ row.filter (· ∉ leaves) = left ++ right := by
  obtain ⟨row', hrow'⟩ := h'.exists_leafRow r
  obtain ⟨left, mid, right, rfl, hmid⟩ :=
    hrow'.contiguous (h'.below_iff.mpr (x.ascends_entered h hup))
  cases (x.leafRow_moved h hleaves).unique hmid
  refine ⟨left, right, hrow', ?_⟩
  have hnodup := h'.leafRow_nodup hrow'
  rw [List.append_assoc] at hnodup
  obtain ⟨-, hrest, hleft⟩ := List.nodup_append'.mp hnodup
  obtain ⟨-, -, hright⟩ := List.nodup_append'.mp hrest
  have hfront : left.filter (· ∉ leaves) = left := List.filter_eq_self.mpr fun y hy =>
    decide_eq_true fun hmem => hleft hy (List.mem_append_left _ hmem)
  have hown : leaves.filter (· ∉ leaves) = [] := List.filter_eq_nil_iff.mpr fun y hy => by
    rw [decide_eq_true_eq, not_not]
    exact hy
  have hback : right.filter (· ∉ leaves) = right := List.filter_eq_self.mpr fun y hy =>
    decide_eq_true fun hmem => hright hmem hy
  rw [← x.filter_rows h h' hr hleaves hrow hrow', List.filter_append, List.filter_append, hfront, hown,
    hback, List.append_nil]

/-- **The leaves are gone from every other row.** -/
theorem leafRow_left (h' : WellFormed s') (hr : r ∈ s.roots)
    (hup : ¬ s.Ascends destination r) (hleaves : s.LeafRow node leaves)
    (hrow : s.LeafRow r row) : s'.LeafRow r (row.filter (· ∉ leaves)) := by
  obtain ⟨row', hrow'⟩ := h'.exists_leafRow r
  obtain ⟨q, hq, -, hupq⟩ := h.root_eq (h.inTree_of_container x.outer)
  have hfree : row'.filter (· ∉ leaves) = row' := by
    refine List.filter_eq_self.mpr fun y hy => decide_eq_true fun hmem => hup ?_
    obtain ⟨-, hyr⟩ := (h'.mem_leafRow hrow').mp hy
    obtain ⟨-, hynode⟩ := (h'.mem_leafRow (x.leafRow_moved h hleaves)).mp hmem
    cases h'.root_unique (x.roots.symm ▸ hr) (x.roots.symm ▸ hq) hyr
      (hynode.trans (x.ascends_entered h hupq))
    exact hupq
  rw [← x.filter_rows h h' hr hleaves hrow hrow', hfree]
  exact hrow'

end Transplant

end Tile
