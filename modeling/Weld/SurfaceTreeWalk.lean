/-
**Walks over a surface tree.**

The walk over a tree meets every surface together with its parent, so following parents from any
surface it met leads to the root; as no surface is met twice, the way is shorter than the walk.
This is why the loop that asks whether a surface is visible ends, and ends with the answer.

Main definitions: `Rooted`, `Lineage`, `Planted`.

Main results:

* `planted_visits` — the nodes of a walk are planted;
* `SurfaceTreeState.protocolVisible_iff` — **what the loop answers**;
* `Planted.remove` — removing a closed set of surfaces keeps the rest planted.
-/

import Weld.SurfaceTree
import Mathlib.Data.List.Perm.Subperm

namespace SurfaceTree

/-! ### Nodes -/

/-- The node a visit leaves behind. -/
def Visit.node (visit : Visit) : TreeNode where
  objectId := visit.surface.objectId
  parent := visit.context.parent
  position := visit.context.position.add (surfaceOffset visit.surface)

@[simp] theorem Visit.node_objectId (visit : Visit) :
    visit.node.objectId = visit.surface.objectId := rfl

@[simp] theorem SurfaceTreeState.committedNode_node (s : SurfaceTreeState) (visit : Visit) :
    (s.committedNode visit).node = visit.node := rfl

/-- There is a way of `n` steps from a surface up to one without a parent. -/
inductive Rooted (nodes : List TreeNode) : ℕ → ObjectId → Prop
  | root {node : TreeNode} (hmem : node ∈ nodes) (hparent : node.parent = none) :
      Rooted nodes 0 node.objectId
  | child {node : TreeNode} {n : ℕ} {parent : ObjectId} (hmem : node ∈ nodes)
      (hparent : node.parent = some parent) (h : Rooted nodes n parent) :
      Rooted nodes (n + 1) node.objectId

/-- A surface has a property, and so has every surface above it. -/
inductive Lineage (nodes : List TreeNode) (P : ObjectId → Prop) : ObjectId → Prop
  | root {node : TreeNode} (hmem : node ∈ nodes) (hparent : node.parent = none)
      (hself : P node.objectId) : Lineage nodes P node.objectId
  | child {node : TreeNode} {parent : ObjectId} (hmem : node ∈ nodes)
      (hparent : node.parent = some parent) (hself : P node.objectId)
      (h : Lineage nodes P parent) : Lineage nodes P node.objectId

/-- The nodes are distinct, and every one leads to a root. -/
structure Planted (nodes : List TreeNode) : Prop where
  distinct : (nodes.map TreeNode.objectId).Nodup
  rooted : ∀ node ∈ nodes, ∃ n, Rooted nodes n node.objectId

variable {id : ObjectId}

theorem Lineage.imp {nodes : List TreeNode} {P Q : ObjectId → Prop} (h : Lineage nodes P id)
    (himp : ∀ id, P id → Q id) : Lineage nodes Q id := by
  induction h with
  | root hmem hparent hself => exact .root hmem hparent (himp _ hself)
  | child hmem hparent hself _ ih => exact .child hmem hparent (himp _ hself) ih

/-! ### Walks -/

namespace Tree

theorem root_mem_visits (context : TraversalContext) (tree : Tree) :
    (⟨tree.root, context⟩ : Visit) ∈ tree.visits context := by
  cases tree with
  | node surface below above => simp [visits, root]

section

variable {nodes : List TreeNode}

mutual

/-- Below a surface that leads to a root, every surface does. -/
theorem rooted_of_mem_visits (context : TraversalContext)
    (hcontext : ∀ parent, context.parent = some parent → ∃ n, Rooted nodes n parent) :
    ∀ tree : Tree, (∀ v ∈ tree.visits context, v.node ∈ nodes) →
      ∀ v ∈ tree.visits context, ∃ n, Rooted nodes n v.node.objectId
  | node surface below above => by
      intro hnodes
      have hself : ∃ n, Rooted nodes n surface.objectId := by
        have hmem := hnodes ⟨surface, context⟩ (root_mem_visits context (node surface below above))
        cases hparent : context.parent with
        | none => exact ⟨0, Rooted.root hmem hparent⟩
        | some parent =>
            obtain ⟨n, hn⟩ := hcontext parent hparent
            exact ⟨n + 1, Rooted.child hmem hparent hn⟩
      have hdescend : ∀ parent, (context.descend surface).parent = some parent →
          ∃ n, Rooted nodes n parent := by
        rintro _ ⟨⟩
        exact hself
      intro v hv
      simp only [visits, List.mem_append, List.mem_cons] at hv hnodes
      obtain hv | rfl | hv := hv
      · exact rooted_of_mem_visitsAll _ hdescend below (fun w hw => hnodes w (.inl hw)) v hv
      · exact hself
      · exact rooted_of_mem_visitsAll _ hdescend above (fun w hw => hnodes w (.inr (.inr hw))) v hv

theorem rooted_of_mem_visitsAll (context : TraversalContext)
    (hcontext : ∀ parent, context.parent = some parent → ∃ n, Rooted nodes n parent) :
    ∀ trees : List Tree, (∀ v ∈ visitsAll context trees, v.node ∈ nodes) →
      ∀ v ∈ visitsAll context trees, ∃ n, Rooted nodes n v.node.objectId
  | [] => by simp [visitsAll]
  | tree :: trees => by
      intro hnodes v hv
      simp only [visitsAll, List.mem_append] at hv hnodes
      obtain hv | hv := hv
      · exact rooted_of_mem_visits context hcontext tree (fun w hw => hnodes w (.inl hw)) v hv
      · exact rooted_of_mem_visitsAll context hcontext trees (fun w hw => hnodes w (.inr hw)) v hv

end

end

mutual

/-- Everything below a surface has a parent. -/
theorem parent_of_mem_visits (context : TraversalContext) (hcontext : context.parent ≠ none) :
    ∀ tree : Tree, ∀ v ∈ tree.visits context, v.context.parent ≠ none
  | node surface below above => by
      intro v hv
      have hdescend : (context.descend surface).parent ≠ none := Option.some_ne_none _
      simp only [visits, List.mem_append, List.mem_cons] at hv
      obtain hv | rfl | hv := hv
      · exact parent_of_mem_visitsAll _ hdescend below v hv
      · exact hcontext
      · exact parent_of_mem_visitsAll _ hdescend above v hv

theorem parent_of_mem_visitsAll (context : TraversalContext) (hcontext : context.parent ≠ none) :
    ∀ trees : List Tree, ∀ v ∈ visitsAll context trees, v.context.parent ≠ none
  | [] => by simp [visitsAll]
  | tree :: trees => by
      intro v hv
      obtain hv | hv := List.mem_append.mp hv
      · exact parent_of_mem_visits context hcontext tree v hv
      · exact parent_of_mem_visitsAll context hcontext trees v hv

end

/-- Only the root has no parent. -/
theorem eq_root_of_mem_visits (tree : Tree) {v : Visit} (hv : v ∈ tree.visits {})
    (hparent : v.context.parent = none) : v.surface = tree.root := by
  cases tree with
  | node surface below above =>
      have hdescend : (TraversalContext.descend {} surface).parent ≠ none := Option.some_ne_none _
      simp only [visits, List.mem_append, List.mem_cons] at hv
      obtain hv | rfl | hv := hv
      · exact absurd hparent (parent_of_mem_visitsAll _ hdescend below v hv)
      · rfl
      · exact absurd hparent (parent_of_mem_visitsAll _ hdescend above v hv)

mutual

theorem visits_drain (context : TraversalContext) :
    ∀ tree : Tree, tree.drain.visits context =
      (tree.visits context).map fun visit => ⟨visit.surface.drained, visit.context⟩
  | node surface below above => by
      have hdescend : context.descend surface.drained = context.descend surface := rfl
      simp [drain, visits, hdescend, visitsAll_drainAll]

theorem visitsAll_drainAll (context : TraversalContext) :
    ∀ trees : List Tree, visitsAll context (drainAll trees) =
      (visitsAll context trees).map fun visit => ⟨visit.surface.drained, visit.context⟩
  | [] => rfl
  | tree :: trees => by
      simp [drainAll, visitsAll, visits_drain context tree, visitsAll_drainAll context trees]

end

/-- A walk leaves nothing to take. -/
theorem surfaces_drain (tree : Tree) : tree.drain.surfaces = tree.surfaces.map Surface.drained := by
  simp [surfaces, visits_drain]

end Tree

theorem planted_visits (root : ClientTree) : Planted ((root.tree.visits {}).map Visit.node) where
  distinct := by
    have h := root.distinct
    rw [Tree.surfaces, List.map_map] at h
    rw [List.map_map]
    exact h
  rooted := by
    intro node hnode
    obtain ⟨v, hv, rfl⟩ := List.mem_map.mp hnode
    refine Tree.rooted_of_mem_visits {} ?_ root.tree (fun w hw => List.mem_map_of_mem hw) v hv
    rintro parent ⟨⟩

/-! ### The length of the way up -/

section

variable {nodes : List TreeNode} {n m : ℕ} {id : ObjectId}

/-- A node is determined by its surface. -/
theorem Planted.eq_of_objectId (h : Planted nodes) {a b : TreeNode} (ha : a ∈ nodes)
    (hb : b ∈ nodes) (heq : a.objectId = b.objectId) : a = b :=
  List.inj_on_of_nodup_map h.distinct ha hb heq

theorem Rooted.mem (h : Rooted nodes n id) : id ∈ nodes.map TreeNode.objectId := by
  cases h with
  | root hmem | child hmem => exact List.mem_map_of_mem hmem

theorem Rooted.unique (hplanted : Planted nodes) (h : Rooted nodes n id) :
    ∀ m, Rooted nodes m id → n = m := by
  induction h with
  | @root node hmem hparent =>
      intro m hm
      generalize hid : node.objectId = id at hm
      cases hm with
      | root _ _ => rfl
      | child hmem' hparent' _ =>
          obtain rfl := hplanted.eq_of_objectId hmem hmem' hid
          rw [hparent] at hparent'
          cases hparent'
  | @child node k parent hmem hparent _ ih =>
      intro m hm
      generalize hid : node.objectId = id at hm
      cases hm with
      | root hmem' hparent' =>
          obtain rfl := hplanted.eq_of_objectId hmem hmem' hid
          rw [hparent] at hparent'
          cases hparent'
      | child hmem' hparent' hrest =>
          obtain rfl := hplanted.eq_of_objectId hmem hmem' hid
          rw [hparent] at hparent'
          cases hparent'
          rw [ih _ hrest]

/-- The surfaces on the way up are as many as its steps and one more. -/
theorem Rooted.exists_path (hplanted : Planted nodes) (h : Rooted nodes n id) :
    ∃ path : List ObjectId, path.Nodup ∧ path.length = n + 1 ∧
      ∀ x ∈ path, ∃ k ≤ n, Rooted nodes k x := by
  induction h with
  | @root node hmem hparent =>
      refine ⟨[node.objectId], List.nodup_singleton _, rfl, ?_⟩
      intro x hx
      rw [List.mem_singleton.mp hx]
      exact ⟨0, Nat.le_refl 0, .root hmem hparent⟩
  | @child node n parent hmem hparent h ih =>
      obtain ⟨path, hnodup, hlength, hpath⟩ := ih
      have hself : Rooted nodes (n + 1) node.objectId := .child hmem hparent h
      refine ⟨node.objectId :: path, List.nodup_cons.mpr ⟨?_, hnodup⟩, by simp [hlength], ?_⟩
      · intro hin
        obtain ⟨k, hk, hrooted⟩ := hpath _ hin
        have := hself.unique hplanted k hrooted
        omega
      · intro x hx
        obtain rfl | hx := List.mem_cons.mp hx
        · exact ⟨n + 1, Nat.le_refl _, hself⟩
        · obtain ⟨k, hk, hrooted⟩ := hpath x hx
          exact ⟨k, by omega, hrooted⟩

theorem Rooted.lt_length (hplanted : Planted nodes) (h : Rooted nodes n id) : n < nodes.length := by
  obtain ⟨path, hnodup, hlength, hpath⟩ := h.exists_path hplanted
  have hsub : path ⊆ nodes.map TreeNode.objectId := by
    intro x hx
    obtain ⟨k, -, hrooted⟩ := hpath x hx
    exact hrooted.mem
  have hle := (hnodup.subperm hsub).length_le
  rw [List.length_map] at hle
  omega

end

/-! ### Visibility -/

namespace SurfaceTreeState

variable {s : SurfaceTreeState}

theorem parentOf_eq (hplanted : Planted s.nodes) {node : TreeNode} (hmem : node ∈ s.nodes) :
    s.parentOf node.objectId = node.parent := by
  rw [parentOf]
  cases hfind : s.nodes.find? fun candidate => candidate.objectId = node.objectId with
  | none =>
      have hnone := List.find?_eq_none.mp hfind node hmem
      simp at hnone
  | some found =>
      have hid : found.objectId = node.objectId := by simpa using List.find?_some hfind
      obtain rfl := hplanted.eq_of_objectId (List.mem_of_find?_eq_some hfind) hmem hid
      rfl

theorem visibleFrom_iff (hplanted : Planted s.nodes) {n : ℕ} (h : Rooted s.nodes n id) :
    ∀ fuel, n < fuel →
      (s.visibleFrom fuel (some id) = true ↔ Lineage s.nodes (s.clientMapped · = true) id) := by
  induction h with
  | @root node hmem hparent =>
      intro fuel hfuel
      obtain ⟨fuel, rfl⟩ : ∃ k, fuel = k + 1 := ⟨fuel - 1, by omega⟩
      rw [visibleFrom, parentOf_eq hplanted hmem, hparent]
      constructor
      · intro hvisible
        exact .root hmem hparent (by simpa [visibleFrom] using hvisible)
      · intro hlineage
        generalize hid : node.objectId = id at hlineage
        cases hlineage with
        | root _ _ hself => simp [visibleFrom, hself]
        | child hmem' hparent' _ _ =>
            obtain rfl := hplanted.eq_of_objectId hmem hmem' hid
            rw [hparent] at hparent'
            cases hparent'
  | @child node n parent hmem hparent _ ih =>
      intro fuel hfuel
      obtain ⟨fuel, rfl⟩ : ∃ k, fuel = k + 1 := ⟨fuel - 1, by omega⟩
      have hup := ih fuel (by omega)
      rw [visibleFrom, parentOf_eq hplanted hmem, hparent, Bool.and_eq_true, hup]
      constructor
      · rintro ⟨hself, hlineage⟩
        exact .child hmem hparent hself hlineage
      · intro hlineage
        generalize hid : node.objectId = id at hlineage
        cases hlineage with
        | root hmem' hparent' _ =>
            obtain rfl := hplanted.eq_of_objectId hmem hmem' hid
            rw [hparent] at hparent'
            cases hparent'
        | child hmem' hparent' hself hrest =>
            obtain rfl := hplanted.eq_of_objectId hmem hmem' hid
            rw [hparent] at hparent'
            cases hparent'
            exact ⟨hself, hrest⟩

/-- **A surface is visible if it and everything above it are mapped.** -/
theorem protocolVisible_iff (hplanted : Planted s.nodes) {node : TreeNode}
    (hmem : node ∈ s.nodes) :
    s.protocolVisible node = true ↔ Lineage s.nodes (s.clientMapped · = true) node.objectId := by
  obtain ⟨n, hn⟩ := hplanted.rooted node hmem
  exact visibleFrom_iff hplanted hn _ (hn.lt_length hplanted)

/-! ### Removing -/

variable {nodes : List TreeNode} {removed : List ObjectId}

/-- Whoever has a parent in the set is in the set. -/
def Closed (nodes : List TreeNode) (removed : List ObjectId) : Prop :=
  ∀ node ∈ nodes, ∀ parent ∈ removed, node.parent = some parent → node.objectId ∈ removed

theorem mem_descendants :
    id ∈ descendants nodes removed ↔
      (∃ node ∈ nodes, (∃ parent ∈ removed, node.parent = some parent) ∧ node.objectId = id) ∧
        id ∉ removed := by
  simp only [descendants, List.mem_filter, List.mem_map, Option.any_eq_true, decide_eq_true_eq]
  constructor
  · rintro ⟨⟨node, ⟨hmem, parent, hparent, hin⟩, rfl⟩, hout⟩
    exact ⟨⟨node, hmem, ⟨parent, hin, hparent⟩, rfl⟩, hout⟩
  · rintro ⟨⟨node, hmem, ⟨parent, hin, hparent⟩, rfl⟩, hout⟩
    exact ⟨⟨node, ⟨hmem, parent, hparent, hin⟩, rfl⟩, hout⟩

theorem closed_of_descendants (h : descendants nodes removed = []) : Closed nodes removed := by
  intro node hmem parent hin hparent
  by_contra hout
  have hfound : node.objectId ∈ descendants nodes removed :=
    mem_descendants.mpr ⟨⟨node, hmem, ⟨parent, hin, hparent⟩, rfl⟩, hout⟩
  rw [h] at hfound
  exact absurd hfound List.not_mem_nil

/-- Every round takes at least one node away from those that are left. -/
theorem length_left_lt (h : descendants nodes removed ≠ []) :
    (nodes.filter fun node => node.objectId ∉ removed ++ descendants nodes removed).length <
      (nodes.filter fun node => node.objectId ∉ removed).length := by
  obtain ⟨id, hid⟩ := List.exists_mem_of_ne_nil _ h
  obtain ⟨⟨node, hmem, -, rfl⟩, hout⟩ := mem_descendants.mp hid
  have hsub : nodes.filter (fun node => node.objectId ∉ removed ++ descendants nodes removed) =
      (nodes.filter fun node => node.objectId ∉ removed).filter
        fun node => node.objectId ∉ descendants nodes removed := by
    rw [List.filter_filter]
    refine List.filter_congr ?_
    intro node _
    simp [Bool.and_comm]
  rw [hsub]
  refine List.length_filter_lt_length_iff_exists.mpr ⟨node, ?_, ?_⟩
  · exact List.mem_filter.mpr ⟨hmem, by simpa using hout⟩
  · simpa using hid

theorem closed_closeRemoved :
    ∀ (fuel : ℕ) (removed : List ObjectId),
      (nodes.filter fun node => node.objectId ∉ removed).length ≤ fuel →
      Closed nodes (closeRemoved nodes fuel removed) := by
  intro fuel
  induction fuel with
  | zero =>
      intro removed hleft node hmem parent hin hparent
      by_contra hout
      have hnone : nodes.filter (fun node => node.objectId ∉ removed) = [] :=
        List.length_eq_zero_iff.mp (Nat.le_zero.mp hleft)
      have := List.filter_eq_nil_iff.mp hnone node hmem
      exact this (by simpa [closeRemoved] using hout)
  | succ fuel ih =>
      intro removed hleft
      rw [closeRemoved]
      cases hfound : descendants nodes removed with
      | nil => exact closed_of_descendants hfound
      | cons id rest =>
          have hsome : descendants nodes removed ≠ [] := by simp [hfound]
          have hlt := length_left_lt hsome
          rw [hfound] at hlt
          exact ih _ (by omega)

/-- The set that is removed is closed. -/
theorem closed_removed (nodes : List TreeNode) (id : ObjectId) :
    Closed nodes (closeRemoved nodes nodes.length [id]) :=
  closed_closeRemoved _ _ (List.length_filter_le _ _)

end SurfaceTreeState

open SurfaceTreeState in
/-- **What is left when a closed set is removed is planted.** -/
theorem Planted.remove {nodes : List TreeNode} {removed : List ObjectId} (h : Planted nodes)
    (hclosed : Closed nodes removed) :
    Planted (nodes.filter fun node => node.objectId ∉ removed) where
  distinct := h.distinct.sublist (List.filter_sublist.map _)
  rooted := by
    have hkeep : ∀ n id, Rooted nodes n id → id ∉ removed →
        Rooted (nodes.filter fun node => node.objectId ∉ removed) n id := by
      intro n id hrooted
      induction hrooted with
      | root hmem hparent =>
          intro hout
          exact .root (List.mem_filter.mpr ⟨hmem, by simpa using hout⟩) hparent
      | @child node n parent hmem hparent _ ih =>
          intro hout
          refine .child (List.mem_filter.mpr ⟨hmem, by simpa using hout⟩) hparent (ih ?_)
          intro hin
          exact hout (hclosed node hmem parent hin hparent)
    intro node hnode
    obtain ⟨hmem, hout⟩ := List.mem_filter.mp hnode
    obtain ⟨n, hn⟩ := h.rooted node hmem
    exact ⟨n, hkeep n _ hn (by simpa using hout)⟩

end SurfaceTree
