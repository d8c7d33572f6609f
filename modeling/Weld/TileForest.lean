/-
**Well-formed tile trees.**

The containers form a forest: a node knows its parent exactly if the parent lists it, no node is listed
twice, weights are positive, the top of every tree is a root, and no tree is deeper than `maxDepth`.  In
such a forest the checks of the edits succeed and mean what they should, and the loops over ancestors
end.

The share of a node is the product, over its ancestors, of its weight divided by the sum of the weights
of its siblings.  The leaves of a root, from left to right and with their shares, are a frontier in the
sense of `Forest`; so is the leaf at the end of the active path, where every container has its active
child only.

Main definitions: `Ranked`, `WellFormed`, `TileWorld.Ascends`, `shares`, `active`, `visible`,
`TileWorld.Shares`, `TileWorld.ActiveLeaf`.

Main results:

* `WellFormed.depth_eq`, `WellFormed.root_eq`, `WellFormed.ancestry_eq` — checks;
* `level_le_of_height`, `level_lt_of_withinDepth` — how deep a subtree is;
* `WellFormed.exists_shares` — every root has leaves with shares.
-/

import Mathlib.Algebra.BigOperators.Group.List.Basic
import Weld.Frontier
import Weld.TileEdits

namespace Tile

open Forest (Frontier weigh)

/-! ### Well-formed forests -/

/-- How deep nodes are. -/
structure Ranked (s : TileWorld) (level : Entity → ℕ) : Prop where
  bound : ∀ n, level n ≤ maxDepth
  root : ∀ r ∈ s.roots, level r = 0
  step : ∀ n p, s.parents n = some p → level n = level p + 1

/-- The containers form a forest. -/
structure WellFormed (s : TileWorld) : Prop where
  settled : s.commands = []
  root : ∀ r ∈ s.roots, s.parents r = none ∧ (s.containers r).isSome
  edges : ∀ n p, s.parents n = some p ↔ ∃ c, s.containers p = some c ∧ n ∈ c.entities
  nodup : ∀ p c, s.containers p = some c → c.entities.Nodup
  weights : ∀ p c, s.containers p = some c → ∀ child ∈ c.children, 0 < child.weight
  top : ∀ n, (s.containers n).isSome → s.parents n = none → n ∈ s.roots
  ranked : ∃ level, Ranked s level
  spawned : ∀ n, (s.containers n).isSome ∨ (s.parents n).isSome ∨ n ∈ s.history → n < s.spawned

namespace TileWorld

/-- The second node is the first one, or an ancestor of it. -/
def Ascends (s : TileWorld) : Entity → Entity → Prop :=
  Relation.ReflTransGen fun n p => s.parents n = some p

/-- The node is a root, or has a parent. -/
def InTree (s : TileWorld) (n : Entity) : Prop := n ∈ s.roots ∨ (s.parents n).isSome

end TileWorld

open TileWorld

variable {c : TileContainer}

theorem entity_mem {child : TileChild} (h : child ∈ c.children) :
    child.entity ∈ c.entities := List.mem_map_of_mem h

theorem entities_nil_iff : c.entities = [] ↔ c.children = [] := List.map_eq_nil_iff

/-- A workspace with two windows, one of which is in an explicit unary split. -/
def sample : TileWorld where
  containers n :=
    if n = 0 then
      some { id := 0, axis := .horizontal, layout := .split .horizontal, children := [⟨1, 1⟩, ⟨2, 1⟩] }
    else if n = 2 then
      some { id := 1, axis := .vertical, layout := .split .vertical, children := [⟨3, 1⟩] }
    else none
  parents n := if n = 1 ∨ n = 2 then some 0 else if n = 3 then some 2 else none
  roots := [0]
  workspaces n := if n = 0 then some { visible := true, output := some 4 } else none
  windows n := if n = 1 ∨ n = 3 then { managed := true, managedBy := some 0, member := some 0 } else {}
  history := [2, 3, 0]
  nextId := 2
  spawned := 5

theorem sample_parents {n p : Entity} : sample.parents n = some p ↔
    (p = 0 ∧ (n = 1 ∨ n = 2)) ∨ (p = 2 ∧ n = 3) := by
  dsimp only [sample]
  grind

theorem sample_containers {p : Entity} (h : sample.containers p = some c) :
    (p = 0 ∧ c.children = [⟨1, 1⟩, ⟨2, 1⟩]) ∨ (p = 2 ∧ c.children = [⟨3, 1⟩]) := by
  dsimp only [sample] at h
  grind

theorem sample_wellFormed : WellFormed sample where
  settled := rfl
  root r hr := by
    cases List.mem_singleton.mp hr
    exact ⟨rfl, rfl⟩
  edges n p := by
    rw [sample_parents]
    constructor
    · rintro (⟨rfl, hn⟩ | ⟨rfl, rfl⟩)
      · exact ⟨_, rfl, by simpa [TileContainer.entities] using hn⟩
      · exact ⟨_, rfl, List.mem_singleton_self 3⟩
    · rintro ⟨c, hc, hn⟩
      rcases sample_containers hc with ⟨rfl, hchildren⟩ | ⟨rfl, hchildren⟩
      · exact .inl ⟨rfl, by simpa [TileContainer.entities, hchildren] using hn⟩
      · exact .inr ⟨rfl, by simpa [TileContainer.entities, hchildren] using hn⟩
  nodup p c hc := by
    rw [TileContainer.entities]
    rcases sample_containers hc with ⟨-, hchildren⟩ | ⟨-, hchildren⟩
    · rw [hchildren]
      decide
    · rw [hchildren]
      decide
  weights p c hc := by
    rcases sample_containers hc with ⟨-, hchildren⟩ | ⟨-, hchildren⟩
    · rw [hchildren]
      decide
    · rw [hchildren]
      decide
  top n hn hp := by
    obtain ⟨c, hc⟩ := Option.isSome_iff_exists.mp hn
    rcases sample_containers hc with ⟨rfl, -⟩ | ⟨rfl, -⟩
    · exact List.mem_singleton_self 0
    · cases hp
  ranked := by
    refine ⟨fun n => if n = 1 ∨ n = 2 then 1 else if n = 3 then 2 else 0, fun n => ?_, ?_, ?_⟩
    · split_ifs
      all_goals decide
    · intro r hr
      cases List.mem_singleton.mp hr
      rfl
    · intro n p hp
      rcases sample_parents.mp hp with ⟨rfl, rfl | rfl⟩ | ⟨rfl, rfl⟩
      all_goals rfl
  spawned n hn := by
    rcases hn with hn | hn | hn
    · obtain ⟨c, hc⟩ := Option.isSome_iff_exists.mp hn
      rcases sample_containers hc with ⟨rfl, -⟩ | ⟨rfl, -⟩
      all_goals decide
    · obtain ⟨p, hp⟩ := Option.isSome_iff_exists.mp hn
      rcases sample_parents.mp hp with ⟨-, rfl | rfl⟩ | ⟨-, rfl⟩
      all_goals decide
    · have hall : ∀ m ∈ sample.history, m < sample.spawned := by decide
      exact hall n hn

namespace WellFormed

variable {s : TileWorld} (h : WellFormed s)

include h

variable {n p r : Entity}

/-- Every container is in a tree. -/
theorem inTree_of_container (hc : s.containers n = some c) : s.InTree n := by
  cases hparent : s.parents n with
  | none => exact .inl (h.top n (by rw [hc]; rfl) hparent)
  | some outer => exact .inr (by rw [hparent]; rfl)

theorem inTree_parent (hp : s.parents n = some p) : s.InTree p := by
  obtain ⟨c, hc, -⟩ := (h.edges n p).mp hp
  exact h.inTree_of_container hc

theorem edge_eq (hp : s.parents n = some p) : s.edge n = some p := by
  obtain ⟨c, hc, hn⟩ := (h.edges n p).mp hp
  rw [edge, hp]
  simp only [hc, if_pos hn]

theorem notMem_roots (hp : s.parents n = some p) : n ∉ s.roots :=
  fun hn => absurd ((h.root n hn).1.symm.trans hp) nofun

variable {level : Entity → ℕ}

theorem depthFrom_eq (hlevel : Ranked s level) :
    ∀ (remaining : ℕ) (n : Entity) (depth : ℕ), s.InTree n → level n ≤ remaining →
      s.depthFrom remaining n depth = some (depth + level n) := by
  intro remaining
  induction remaining with
  | zero =>
      intro n depth hn hle
      rcases hn with hn | hn
      · rw [depthFrom, if_pos hn, hlevel.root n hn, Nat.add_zero]
      · obtain ⟨p, hp⟩ := Option.isSome_iff_exists.mp hn
        have hstep := hlevel.step n p hp
        omega
  | succ remaining ih =>
      intro n depth hn hle
      rw [depthFrom]
      split_ifs with hroot
      · rw [hlevel.root n hroot, Nat.add_zero]
      · obtain ⟨p, hp⟩ := Option.isSome_iff_exists.mp (hn.resolve_left hroot)
        have hstep := hlevel.step n p hp
        rw [h.edge_eq hp]
        dsimp only
        rw [ih p (depth + 1) (h.inTree_parent hp) (by omega), hstep]
        congr 1
        omega

/-- The depth is the level. -/
theorem depth_eq (hlevel : Ranked s level) (hn : s.InTree n) : s.depth n = some (level n) := by
  rw [depth, h.depthFrom_eq hlevel maxDepth n 0 hn (hlevel.bound n), Nat.zero_add]

omit h in
theorem depth_none (hn : ¬ s.InTree n) : s.depth n = none := by
  have hroot : n ∉ s.roots := fun hroot => hn (.inl hroot)
  have hparent : s.parents n = none := by
    cases hp : s.parents n with
    | none => rfl
    | some p => exact absurd (.inr (by rw [hp]; rfl)) hn
  have hedge : s.edge n = none := by
    rw [edge, hparent]
  rw [depth, maxDepth, depthFrom, if_neg hroot, hedge]

omit h in
theorem inTree_of_depth {depth : ℕ} (hdepth : s.depth n = some depth) : s.InTree n := by
  by_contra hn
  rw [depth_none hn] at hdepth
  exact absurd hdepth nofun

/-- The loop over the ancestors ends. -/
theorem chain_eq (hlevel : Ranked s level) :
    ∀ (fuel : ℕ) (n : Entity), level n < fuel → ∃ ancestors, s.chain fuel n = some ancestors ∧
      (∀ a, a ∈ ancestors ↔ s.Ascends n a) ∧
      (s.InTree n → ancestors.length = level n + 1 ∧
        ∃ r ∈ s.roots, ancestors.getLast? = some r) := by
  intro fuel
  induction fuel with
  | zero => intro n hlt; omega
  | succ fuel ih =>
      intro n hlt
      rw [chain]
      cases hp : s.parents n with
      | none =>
          refine ⟨[n], rfl, fun a => ?_, fun hn => ?_⟩
          · rw [List.mem_singleton]
            constructor
            · rintro rfl
              exact .refl
            · intro hascends
              rcases hascends.cases_head with rfl | ⟨p, hstep, -⟩
              · rfl
              · exact absurd (hp.symm.trans hstep) nofun
          · have hroot : n ∈ s.roots := hn.resolve_right (by rw [hp]; exact Bool.false_ne_true)
            exact ⟨by rw [hlevel.root n hroot]; rfl, n, hroot, rfl⟩
      | some p =>
          have hstep := hlevel.step n p hp
          obtain ⟨ancestors, hchain, hmem, htree⟩ := ih p (by omega)
          refine ⟨n :: ancestors, by dsimp only; rw [hchain]; rfl, fun a => ?_, fun _ => ?_⟩
          · rw [List.mem_cons, hmem]
            constructor
            · rintro (rfl | hascends)
              · exact .refl
              · exact .head hp hascends
            · intro hascends
              rcases hascends.cases_head with rfl | ⟨q, hq, hrest⟩
              · exact .inl rfl
              · cases hp.symm.trans hq
                exact .inr hrest
          · obtain ⟨hlength, r, hr, hlast⟩ := htree (h.inTree_parent hp)
            refine ⟨by rw [List.length_cons, hlength, hstep], r, hr, ?_⟩
            rw [List.getLast?_cons, hlast]
            rfl

/-- The ancestors of a node. -/
theorem ancestry_eq (hlevel : Ranked s level) (n : Entity) :
    ∃ ancestors, s.ancestry n = some ancestors ∧ (∀ a, a ∈ ancestors ↔ s.Ascends n a) ∧
      (s.InTree n → ancestors.length = level n + 1 ∧ ∃ r ∈ s.roots, ancestors.getLast? = some r) :=
  h.chain_eq hlevel (maxDepth + 1) n (Nat.lt_succ_of_le (hlevel.bound n))

/-- In a tree, the root of a node is above it. -/
theorem root_eq (hn : s.InTree n) : ∃ r ∈ s.roots, s.root n = some r ∧ s.Ascends n r := by
  obtain ⟨level, hlevel⟩ := h.ranked
  obtain ⟨ancestors, hancestry, hmem, htree⟩ := h.ancestry_eq hlevel n
  obtain ⟨-, r, hr, hlast⟩ := htree hn
  refine ⟨r, hr, ?_, (hmem r).mp (List.mem_of_getLast? hlast)⟩
  rw [TileWorld.root, h.depth_eq hlevel hn]
  rw [hancestry, Option.bind_some, hlast]

theorem rootFrom_eq (hlevel : Ranked s level) (hr : r ∈ s.roots) :
    ∀ (remaining : ℕ) (n : Entity), s.Ascends n r → level n < remaining →
      s.rootFrom remaining n = some r := by
  intro remaining
  induction remaining with
  | zero => intro n _ hlt; omega
  | succ remaining ih =>
      intro n hn hlt
      rw [rootFrom]
      rcases hn.cases_head with rfl | ⟨p, hp, hrest⟩
      · rw [if_pos hr]
      · have hstep := hlevel.step n p hp
        rw [if_neg (h.notMem_roots hp), h.edge_eq hp]
        exact ih p hrest (by omega)

theorem rootOf_eq (hr : r ∈ s.roots) (hn : s.Ascends n r) : s.rootOf n = some r := by
  obtain ⟨level, hlevel⟩ := h.ranked
  exact h.rootFrom_eq hlevel hr (maxDepth + 1) n hn (Nat.lt_succ_of_le (hlevel.bound n))

/-- A node is below one root. -/
theorem root_unique {r' : Entity} (hr : r ∈ s.roots) (hr' : r' ∈ s.roots) (hn : s.Ascends n r)
    (hn' : s.Ascends n r') : r = r' :=
  Option.some.inj ((h.rootOf_eq hr hn).symm.trans (h.rootOf_eq hr' hn'))

omit h in
theorem ascends_of_rootFrom {remaining : ℕ} (hroot : s.rootFrom remaining n = some r) :
    r ∈ s.roots ∧ s.Ascends n r := by
  induction remaining generalizing n with
  | zero => cases hroot
  | succ remaining ih =>
      rw [rootFrom] at hroot
      split_ifs at hroot with hn
      · cases hroot
        exact ⟨hn, .refl⟩
      · cases hedge : s.edge n with
        | none =>
            rw [hedge] at hroot
            cases hroot
        | some p =>
            rw [hedge] at hroot
            obtain ⟨hr, hascends⟩ := ih hroot
            refine ⟨hr, .head ?_ hascends⟩
            rw [edge] at hedge
            split at hedge
            · cases hedge
            · rename_i parent hparent
              split at hedge
              · cases hedge
              · split_ifs at hedge
                cases hedge
                exact hparent

omit h in
theorem ascends_of_rootOf (hroot : s.rootOf n = some r) : r ∈ s.roots ∧ s.Ascends n r :=
  ascends_of_rootFrom hroot

end WellFormed

/-! ### How deep a subtree is -/

section Depth

variable {s : TileWorld} {level : Entity → ℕ}

theorem Ranked.le_of_ascends (hlevel : Ranked s level) {n a : Entity} (h : s.Ascends n a) :
    level a ≤ level n := by
  induction h with
  | refl => exact le_refl _
  | tail _ hstep ih =>
      have := hlevel.step _ _ hstep
      omega

/-- A node is not above itself by a step. -/
theorem Ranked.not_ascends_parent (hlevel : Ranked s level) {n p : Entity} (hp : s.parents n = some p) :
    ¬ s.Ascends p n := by
  intro h
  have hle := hlevel.le_of_ascends h
  have hstep := hlevel.step n p hp
  omega

theorem le_of_foldlM_max {α : Type*} {f : α → Option ℕ} {l : List α} {start result : ℕ}
    (h : l.foldlM (fun height x => (f x).map (max height)) start = some result) :
    start ≤ result ∧ ∀ x ∈ l, ∃ k, f x = some k ∧ k ≤ result := by
  induction l generalizing start with
  | nil =>
      cases h
      exact ⟨le_refl _, nofun⟩
  | cons x l ih =>
      obtain ⟨next, hnext, hrest⟩ := Option.bind_eq_some_iff.mp h
      obtain ⟨k, hk, rfl⟩ := Option.map_eq_some_iff.mp hnext
      obtain ⟨hle, hall⟩ := ih hrest
      refine ⟨le_trans (le_max_left _ _) hle, fun y hy => ?_⟩
      rcases List.mem_cons.mp hy with rfl | hy
      · exact ⟨k, hk, le_trans (le_max_right _ _) hle⟩
      · exact hall y hy

/-- The height of a container exceeds that of its children. -/
theorem height_child (h : WellFormed s) {remaining height : ℕ} {n child : Entity}
    (hheight : s.height remaining n = some height) (hchild : s.parents child = some n) :
    ∃ lower k, s.height lower child = some k ∧ k + 1 ≤ height := by
  obtain ⟨c, hc, hmem⟩ := (h.edges child n).mp hchild
  cases remaining with
  | zero =>
      rw [TileWorld.height, hc] at hheight
      cases hheight
  | succ remaining =>
      rw [TileWorld.height, hc] at hheight
      obtain ⟨most, hfold, rfl⟩ := Option.map_eq_some_iff.mp hheight
      have hfun : (fun (height : ℕ) (child : TileChild) =>
          if 0 < child.weight ∧ s.parents child.entity = some n then
            (s.height remaining child.entity).map (max height) else none) =
          fun height child =>
            (if 0 < child.weight ∧ s.parents child.entity = some n then
              s.height remaining child.entity else none).map (max height) := by
        funext height child
        split_ifs
        · rfl
        · rfl
      rw [hfun] at hfold
      obtain ⟨edge, hedge, rfl⟩ := List.mem_map.mp hmem
      obtain ⟨k, hk, hle⟩ := (le_of_foldlM_max hfold).2 edge hedge
      split_ifs at hk
      exact ⟨remaining, k, hk, by omega⟩

/-- What is below a node is deeper by the height of the node at most. -/
theorem level_le_of_height (h : WellFormed s) (hlevel : Ranked s level) {n m : Entity}
    (hm : s.Ascends m n) : ∀ {remaining height : ℕ}, s.height remaining n = some height →
      level m ≤ level n + height := by
  induction hm with
  | refl => intro remaining height _; omega
  | @tail child n _ hstep ih =>
      intro remaining height hheight
      obtain ⟨lower, k, hk, hle⟩ := height_child h hheight hstep
      have hbelow := ih hk
      have hlow := hlevel.step child n hstep
      omega

/-- What is below a node stays within the depth that is left. -/
theorem level_lt_of_withinDepth (h : WellFormed s) (hlevel : Ranked s level) {n m : Entity}
    (hm : s.Ascends m n) : ∀ {remaining : ℕ}, s.withinDepth remaining n = true →
      level m < level n + remaining := by
  induction hm with
  | refl =>
      intro remaining hwithin
      cases remaining with
      | zero => cases hwithin
      | succ remaining => omega
  | @tail child n _ hstep ih =>
      intro remaining hwithin
      obtain ⟨c, hc, hmem⟩ := (h.edges child n).mp hstep
      obtain ⟨edge, hedge, rfl⟩ := List.mem_map.mp hmem
      cases remaining with
      | zero => cases hwithin
      | succ remaining =>
          rw [withinDepth, hc] at hwithin
          have hbelow := ih (List.all_eq_true.mp hwithin edge hedge)
          have hlow := hlevel.step edge.entity n hstep
          omega

end Depth

/-! ### Leaves, shares and the active path -/

/-- The edges of a container: a child has its weight, divided by the sum of the weights. -/
def shares (c : TileContainer) : List (Entity × ℚ) :=
  c.children.map fun child => (child.entity, child.weight / c.total)

/-- The edge to the active child. -/
def active (history : List Entity) (c : TileContainer) : List (Entity × ℚ) :=
  (activeChild history c).toList.map fun child => (child, 1)

/-- A split shows all of its children, and another container the active one. -/
def visible (history : List Entity) (c : TileContainer) : List (Entity × ℚ) :=
  if c.layout.isSplit then c.entities.map fun child => (child, 1) else active history c

namespace TileWorld

def edgesBy (s : TileWorld) (pick : TileContainer → List (Entity × ℚ)) (n : Entity) :
    Option (List (Entity × ℚ)) :=
  (s.containers n).map pick

/-- The leaves of a root, from left to right, with their shares. -/
def Shares (s : TileWorld) (root : Entity) (leaves : List (Entity × ℚ)) : Prop :=
  Frontier (weigh (s.edgesBy shares)) [(root, 1)] leaves

/-- The leaf at the end of the active path. -/
def ActiveLeaf (s : TileWorld) (root leaf : Entity) : Prop :=
  Frontier (weigh (s.edgesBy (active s.history))) [(root, 1)] [(leaf, 1)]

end TileWorld

/-- The edges lead to children. -/
def Picks (pick : TileContainer → List (Entity × ℚ)) : Prop :=
  ∀ c, ∀ edge ∈ pick c, edge.1 ∈ c.entities

theorem picks_shares : Picks shares := by
  intro c edge hedge
  obtain ⟨child, hchild, rfl⟩ := List.mem_map.mp hedge
  exact entity_mem hchild

theorem activeChild_mem {history : List Entity} {child : Entity}
    (h : activeChild history c = some child) : child ∈ c.entities := by
  rcases Option.or_eq_some_iff.mp h with hfind | ⟨-, hhead⟩
  · have hmem := List.find?_some hfind
    exact of_decide_eq_true hmem
  · exact List.mem_of_head? hhead

theorem picks_active (history : List Entity) : Picks (active history) := by
  intro c edge hedge
  obtain ⟨child, hchild, rfl⟩ := List.mem_map.mp hedge
  exact activeChild_mem (Option.mem_toList.mp hchild)

theorem picks_visible (history : List Entity) : Picks (visible history) := by
  intro c edge hedge
  rw [visible] at hedge
  split_ifs at hedge
  · obtain ⟨child, hchild, rfl⟩ := List.mem_map.mp hedge
    exact hchild
  · exact picks_active history c edge hedge

/-- There is a frontier below every node. -/
theorem WellFormed.exists_frontier {s : TileWorld} (h : WellFormed s)
    {pick : TileContainer → List (Entity × ℚ)} (hpick : Picks pick) (ns : List (Entity × ℚ)) :
    ∃ leaves, Frontier (weigh (s.edgesBy pick)) ns leaves := by
  obtain ⟨level, hlevel⟩ := h.ranked
  refine Frontier.exists_of_rank (fun _ => True) (fun n => maxDepth - level n.1) ?_ ns
    fun _ _ => trivial
  intro n children _ hsome child hchild
  rw [weigh, edgesBy, Option.map_map] at hsome
  obtain ⟨c, hc, rfl⟩ := Option.map_eq_some_iff.mp hsome
  obtain ⟨edge, hedge, rfl⟩ := List.mem_map.mp hchild
  have hstep := hlevel.step edge.1 n.1 ((h.edges _ _).mpr ⟨c, hc, hpick c edge hedge⟩)
  have hbound := hlevel.bound edge.1
  exact ⟨trivial, by dsimp only; omega⟩

/-- Every root has leaves with shares. -/
theorem WellFormed.exists_shares {s : TileWorld} (h : WellFormed s) (root : Entity) :
    ∃ leaves, s.Shares root leaves :=
  h.exists_frontier picks_shares _

end Tile
