/-
**Dissolving a container.**

Every regrouping puts one container into a tree, or takes one out of it.  Seen from the larger tree, the
container is dissolved: its children take its place in the list of its parent.  So what a regrouping
leaves as it is can be said once.

Main definitions: `Dissolves`.

Main results:

* `Dissolves.frontier_iff` — both have the same frontiers;
* `Dissolves.wellFormed_bare`, `Dissolves.wellFormed_full` — if one is well-formed, so is the
  other one, if there is room for the container.
-/

import Weld.TileEffects

namespace Tile

open Forest (Frontier weigh dissolve bypass)

/-- In a list of nodes, a container is replaced by what it lists. -/
def unfoldNode (g : Entity) (under : List Entity) (n : Entity) : List Entity :=
  if n = g then under else [n]

/-- The world `bare` is the world `full` without the container `g` below `p`. -/
structure Dissolves (full bare : TileWorld) (g p : Entity) (cg cp cp' : TileContainer) : Prop where
  ne : p ≠ g
  group : full.containers g = some cg
  gone : bare.containers g = none
  outer : full.containers p = some cp
  outer' : bare.containers p = some cp'
  rest : ∀ m, m ≠ p → m ≠ g → bare.containers m = full.containers m
  entities : cp'.entities = cp.entities.flatMap (unfoldNode g cg.entities)
  listed : g ∈ cp.entities
  foreign : ∀ m c, m ≠ p → full.containers m = some c → g ∉ c.entities
  parent : full.parents g = some p
  orphan : bare.parents g = none
  inner : ∀ n ∈ cg.entities, full.parents n = some g ∧ bare.parents n = some p
  parents : ∀ n, n ≠ g → n ∉ cg.entities → bare.parents n = full.parents n
  roots : bare.roots = full.roots

section Dissolves

variable {full bare : TileWorld} {g p : Entity} {cg cp cp' : TileContainer} {under ns : List Entity}

theorem mem_unfoldNode {n : Entity} :
    n ∈ ns.flatMap (unfoldNode g under) ↔ (g ∈ ns ∧ n ∈ under) ∨ (n ≠ g ∧ n ∈ ns) := by
  rw [List.mem_flatMap]
  constructor
  · rintro ⟨m, hm, hn⟩
    rw [unfoldNode] at hn
    split_ifs at hn with hmg
    · exact .inl ⟨hmg ▸ hm, hn⟩
    · rw [List.mem_singleton] at hn
      subst hn
      exact .inr ⟨hmg, hm⟩
  · rintro (⟨hg, hn⟩ | ⟨hng, hn⟩)
    · exact ⟨g, hg, by rw [unfoldNode, if_pos rfl]; exact hn⟩
    · exact ⟨n, hn, by rw [unfoldNode, if_neg hng]; exact List.mem_singleton_self n⟩

theorem nodup_unfoldNode (hns : ns.Nodup) (hunder : under.Nodup) (hdisjoint : ∀ n ∈ under, n ∉ ns) :
    (ns.flatMap (unfoldNode g under)).Nodup := by
  induction ns with
  | nil => exact List.nodup_nil
  | cons m ns ih =>
      obtain ⟨hm, hrest⟩ := List.nodup_cons.mp hns
      rw [List.flatMap_cons]
      refine List.nodup_append'.mpr ⟨?_, ih hrest fun n hn hmem =>
        hdisjoint n hn (List.mem_cons_of_mem m hmem), ?_⟩
      · rw [unfoldNode]
        split_ifs
        · exact hunder
        · exact List.nodup_singleton m
      · intro n hn hother
        rw [mem_unfoldNode] at hother
        rw [unfoldNode] at hn
        split_ifs at hn with hmg
        · rcases hother with ⟨hg, -⟩ | ⟨-, hmem⟩
          · exact hm (hmg ▸ hg)
          · exact hdisjoint n hn (List.mem_cons_of_mem m hmem)
        · rw [List.mem_singleton] at hn
          subst hn
          rcases hother with ⟨-, hmem⟩ | ⟨-, hmem⟩
          · exact hdisjoint n hmem List.mem_cons_self
          · exact hm hmem

/-- What is replaced does not occur a second time. -/
theorem disjoint_of_nodup_unfoldNode (hg : g ∈ ns)
    (hnodup : (ns.flatMap (unfoldNode g under)).Nodup) {n : Entity} (hn : n ∈ under) (hng : n ≠ g) :
    n ∉ ns := by
  intro hmem
  obtain ⟨front, back, rfl⟩ := List.append_of_mem hg
  rw [List.flatMap_append, List.flatMap_cons] at hnodup
  have hin : n ∈ unfoldNode g under g := by
    rw [unfoldNode, if_pos rfl]
    exact hn
  obtain ⟨-, hrest, hfront⟩ := List.nodup_append'.mp hnodup
  obtain ⟨-, -, hback⟩ := List.nodup_append'.mp hrest
  rcases List.mem_append.mp hmem with hmem | hmem
  · exact hfront (mem_unfoldNode.mpr (.inr ⟨hng, hmem⟩)) (List.mem_append_left _ hin)
  · rcases List.mem_cons.mp hmem with heq | hmem
    · exact hng heq
    · exact hback hin (mem_unfoldNode.mpr (.inr ⟨hng, hmem⟩))

namespace Dissolves

variable (d : Dissolves full bare g p cg cp cp')

include d

/-- **Both worlds have the same frontiers**, if the edges of the parent agree. -/
theorem frontier_iff {pick pick' : TileContainer → List (Entity × ℚ)} (hpick : Picks pick)
    (hrest : ∀ m c, m ≠ p → m ≠ g → full.containers m = some c → pick' c = pick c)
    (houter : pick' cp' = (pick cp).flatMap (bypass g (pick cg))) {ns leaves : List (Entity × ℚ)}
    (hns : ∀ n ∈ ns, n.1 ≠ g) :
    Frontier (weigh (bare.edgesBy pick')) ns leaves ↔
      Frontier (weigh (full.edgesBy pick)) ns leaves := by
  have hforeign : ∀ m c, m ≠ p → full.containers m = some c → ∀ edge ∈ pick c, edge.1 ≠ g :=
    fun m c hm hc edge hedge heq => d.foreign m c hm hc (heq ▸ hpick c edge hedge)
  refine Forest.frontier_of_dissolved (n := g) (by rw [TileWorld.edgesBy, d.group, Option.map_some])
    (hforeign g cg d.ne.symm d.group) (fun m hm => ?_) hns
  rw [TileWorld.edgesBy, dissolve, TileWorld.edgesBy, Option.map_map]
  by_cases hmp : m = p
  · rw [hmp, d.outer', d.outer, Option.map_some, Option.map_some, houter]
    rfl
  · rw [d.rest m hmp hm]
    cases hc : full.containers m with
    | none => rfl
    | some c =>
        rw [Option.map_some, Option.map_some, Function.comp_apply, hrest m c hmp hm hc,
          Forest.flatMap_bypass_of_notMem (hforeign m c hmp hc)]

theorem bare_cases {q : Entity} {c : TileContainer} (hc : bare.containers q = some c) :
    q = p ∧ cp' = c ∨ q ≠ p ∧ q ≠ g ∧ full.containers q = some c := by
  by_cases hqp : q = p
  · exact .inl ⟨hqp, Option.some.inj (d.outer'.symm.trans (hqp ▸ hc))⟩
  · have hqg : q ≠ g := by
      rintro rfl
      exact absurd (d.gone.symm.trans hc) nofun
    exact .inr ⟨hqp, hqg, (d.rest q hqp hqg).symm.trans hc⟩

theorem isSome_containers {n : Entity} (hn : n ≠ g) :
    (bare.containers n).isSome = (full.containers n).isSome := by
  by_cases hnp : n = p
  · rw [hnp, d.outer, d.outer']
    rfl
  · rw [d.rest n hnp hn]

theorem isSome_parents {n : Entity} (hn : n ≠ g) : (bare.parents n).isSome = (full.parents n).isSome := by
  by_cases hnc : n ∈ cg.entities
  · rw [(d.inner n hnc).1, (d.inner n hnc).2]
    rfl
  · rw [d.parents n hn hnc]

/-- Outside the container the same entities are listed under the same ones. -/
theorem listed_iff {n q : Entity} (hng : n ≠ g) (hnc : n ∉ cg.entities) :
    (∃ c, full.containers q = some c ∧ n ∈ c.entities) ↔
      ∃ c, bare.containers q = some c ∧ n ∈ c.entities := by
  have hunfold := @mem_unfoldNode g cg.entities cp.entities n
  rw [← d.entities] at hunfold
  constructor
  · rintro ⟨c, hc, hn⟩
    by_cases hqp : q = p
    · subst hqp
      cases d.outer.symm.trans hc
      exact ⟨cp', d.outer', hunfold.mpr (.inr ⟨hng, hn⟩)⟩
    · have hqg : q ≠ g := by
        rintro rfl
        cases d.group.symm.trans hc
        exact hnc hn
      exact ⟨c, (d.rest q hqp hqg).trans hc, hn⟩
  · rintro ⟨c, hc, hn⟩
    rcases d.bare_cases hc with ⟨rfl, rfl⟩ | ⟨-, -, hc⟩
    · rcases hunfold.mp hn with ⟨-, hself⟩ | ⟨-, hmem⟩
      · exact absurd hself hnc
      · exact ⟨cp, d.outer, hmem⟩
    · exact ⟨c, hc, hn⟩

theorem root_ne (h : WellFormed full) {r : Entity} (hr : r ∈ full.roots) : r ≠ g := by
  rintro rfl
  exact absurd ((h.root r hr).1.symm.trans d.parent) nofun

/-- Without the container, the forest is well-formed. -/
theorem wellFormed_bare (h : WellFormed full) (hsettled : bare.commands = [])
    (hweights : ∀ child ∈ cp'.children, 0 < child.weight) (hspawned : bare.spawned = full.spawned)
    (hhistory : ∀ n ∈ bare.history, n < bare.spawned) : WellFormed bare where
  settled := hsettled
  root r hr := by
    rw [d.roots] at hr
    obtain ⟨htop, hcontainer⟩ := h.root r hr
    have hrg := d.root_ne h hr
    have hrc : r ∉ cg.entities := fun hmem => absurd (htop.symm.trans (d.inner r hmem).1) nofun
    exact ⟨(d.parents r hrg hrc).trans htop, (d.isSome_containers hrg).trans hcontainer⟩
  edges n q := by
    have hunfold := @mem_unfoldNode g cg.entities cp.entities n
    rw [← d.entities] at hunfold
    by_cases hng : n = g
    · subst hng
      rw [d.orphan]
      constructor
      · nofun
      · rintro ⟨c, hc, hn⟩
        rcases d.bare_cases hc with ⟨rfl, rfl⟩ | ⟨hqp, -, hc⟩
        · rcases hunfold.mp hn with ⟨-, hself⟩ | ⟨hne, -⟩
          · exact absurd hself (d.foreign n cg d.ne.symm d.group)
          · exact absurd rfl hne
        · exact absurd hn (d.foreign q c hqp hc)
    · by_cases hnc : n ∈ cg.entities
      · rw [(d.inner n hnc).2]
        constructor
        · intro hq
          cases hq
          exact ⟨cp', d.outer', hunfold.mpr (.inl ⟨d.listed, hnc⟩)⟩
        · rintro ⟨c, hc, hn⟩
          rcases d.bare_cases hc with ⟨rfl, -⟩ | ⟨-, hqg, hc⟩
          · rfl
          · have hparent := (h.edges n q).mpr ⟨c, hc, hn⟩
            exact absurd (Option.some.inj (hparent.symm.trans (d.inner n hnc).1)) hqg
      · rw [d.parents n hng hnc, h.edges, d.listed_iff hng hnc]
  nodup q c hc := by
    rcases d.bare_cases hc with ⟨rfl, rfl⟩ | ⟨-, -, hc⟩
    · rw [d.entities]
      refine nodup_unfoldNode (h.nodup q cp d.outer) (h.nodup g cg d.group) fun n hn hmem => ?_
      have hparent := (h.edges n q).mpr ⟨cp, d.outer, hmem⟩
      exact d.ne (Option.some.inj (hparent.symm.trans (d.inner n hn).1))
    · exact h.nodup q c hc
  weights q c hc := by
    rcases d.bare_cases hc with ⟨-, rfl⟩ | ⟨-, -, hc⟩
    · exact hweights
    · exact h.weights q c hc
  top n hn htop := by
    have hng : n ≠ g := by
      rintro rfl
      rw [d.gone] at hn
      cases hn
    have hnc : n ∉ cg.entities := fun hmem => absurd (htop.symm.trans (d.inner n hmem).2) nofun
    rw [d.roots]
    exact h.top n ((d.isSome_containers hng).symm.trans hn) ((d.parents n hng hnc).symm.trans htop)
  ranked := by
    classical
    obtain ⟨level, hlevel⟩ := h.ranked
    refine ⟨fun n => if full.Ascends n g ∧ n ≠ g then level n - 1 else level n, ?_, ?_, ?_⟩
    · intro n
      have := hlevel.bound n
      split_ifs
      · omega
      · omega
    · intro r hr
      rw [d.roots] at hr
      have := hlevel.root r hr
      split_ifs
      · omega
      · omega
    · intro n q hq
      have hng : n ≠ g := by
        rintro rfl
        exact absurd (d.orphan.symm.trans hq) nofun
      have hgp := hlevel.step g p d.parent
      by_cases hnc : n ∈ cg.entities
      · obtain ⟨hparent, hbare⟩ := d.inner n hnc
        cases hbare.symm.trans hq
        have hstep := hlevel.step n g hparent
        rw [if_pos ⟨.single hparent, hng⟩, if_neg fun hp => hlevel.not_ascends_parent d.parent hp.1]
        omega
      · rw [d.parents n hng hnc] at hq
        have hstep := hlevel.step n q hq
        have hqg : q ≠ g := by
          rintro rfl
          obtain ⟨c, hc, hmem⟩ := (h.edges n q).mp hq
          cases d.group.symm.trans hc
          exact hnc hmem
        by_cases hbelow : full.Ascends q g
        · rw [if_pos ⟨.head hq hbelow, hng⟩, if_pos ⟨hbelow, hqg⟩]
          rcases hbelow.cases_head with heq | ⟨r, hr, -⟩
          · exact absurd heq hqg
          · have := hlevel.step q r hr
            omega
        · have hnot : ¬ full.Ascends n g := by
            intro hascends
            rcases hascends.cases_head with heq | ⟨r, hr, hrest⟩
            · exact hng heq
            · cases hq.symm.trans hr
              exact hbelow hrest
          rw [if_neg fun hn => hnot hn.1, if_neg fun hq => hbelow hq.1]
          exact hstep
  spawned n hn := by
    rcases hn with hn | hn | hn
    · rw [hspawned]
      refine h.spawned n (.inl ?_)
      by_cases hng : n = g
      · rw [hng, d.group]
        rfl
      · rw [← d.isSome_containers hng]
        exact hn
    · rw [hspawned]
      refine h.spawned n (.inr (.inl ?_))
      by_cases hng : n = g
      · rw [hng, d.parent]
        rfl
      · rw [← d.isSome_parents hng]
        exact hn
    · exact hhistory n hn

/-- With the container, the forest is well-formed, if there is room for one more level. -/
theorem wellFormed_full (h : WellFormed bare) (hsettled : full.commands = [])
    (hnodup : cp.entities.Nodup)
    (hweights : ∀ c, c = cg ∨ c = cp → ∀ child ∈ c.children, 0 < child.weight)
    (hroom : ∃ level, Ranked bare level ∧ level p < maxDepth ∧
      ∀ n k, k ∈ cg.entities → bare.Ascends n k → level n < maxDepth)
    (hg : g < full.spawned) (hspawned : bare.spawned ≤ full.spawned)
    (hhistory : ∀ n ∈ full.history, n < full.spawned) : WellFormed full where
  settled := hsettled
  root r hr := by
    rw [← d.roots] at hr
    obtain ⟨htop, hcontainer⟩ := h.root r hr
    have hrg : r ≠ g := by
      rintro rfl
      rw [d.gone] at hcontainer
      cases hcontainer
    have hrc : r ∉ cg.entities := fun hmem => absurd (htop.symm.trans (d.inner r hmem).2) nofun
    exact ⟨(d.parents r hrg hrc).symm.trans htop, (d.isSome_containers hrg).symm.trans hcontainer⟩
  edges n q := by
    by_cases hng : n = g
    · subst hng
      rw [d.parent]
      constructor
      · intro hq
        cases hq
        exact ⟨cp, d.outer, d.listed⟩
      · rintro ⟨c, hc, hn⟩
        by_contra hqp
        exact d.foreign q c (fun heq => hqp (congrArg some heq.symm)) hc hn
    · by_cases hnc : n ∈ cg.entities
      · rw [(d.inner n hnc).1]
        constructor
        · intro hq
          cases hq
          exact ⟨cg, d.group, hnc⟩
        · rintro ⟨c, hc, hn⟩
          by_cases hqg : q = g
          · rw [hqg]
          · exfalso
            by_cases hqp : q = p
            · subst hqp
              cases d.outer.symm.trans hc
              have hcp' := h.nodup q cp' d.outer'
              rw [d.entities] at hcp'
              exact disjoint_of_nodup_unfoldNode d.listed hcp' hnc hng hn
            · rw [← d.rest q hqp hqg] at hc
              have hparent := (h.edges n q).mpr ⟨c, hc, hn⟩
              exact hqp (Option.some.inj (hparent.symm.trans (d.inner n hnc).2))
      · rw [← d.parents n hng hnc, h.edges, d.listed_iff hng hnc]
  nodup q c hc := by
    by_cases hqp : q = p
    · subst hqp
      cases d.outer.symm.trans hc
      exact hnodup
    · by_cases hqg : q = g
      · subst hqg
        cases d.group.symm.trans hc
        have hcp' := h.nodup p cp' d.outer'
        rw [d.entities] at hcp'
        obtain ⟨front, back, hcp⟩ := List.append_of_mem d.listed
        rw [hcp, List.flatMap_append, List.flatMap_cons, unfoldNode, if_pos rfl] at hcp'
        exact ((List.nodup_append'.mp (List.nodup_append'.mp hcp').2.1)).1
      · exact h.nodup q c ((d.rest q hqp hqg).trans hc)
  weights q c hc := by
    by_cases hqp : q = p
    · subst hqp
      cases d.outer.symm.trans hc
      exact hweights cp (.inr rfl)
    · by_cases hqg : q = g
      · subst hqg
        cases d.group.symm.trans hc
        exact hweights cg (.inl rfl)
      · exact h.weights q c ((d.rest q hqp hqg).trans hc)
  top n hn htop := by
    have hng : n ≠ g := by
      rintro rfl
      exact absurd (htop.symm.trans d.parent) nofun
    have hnc : n ∉ cg.entities := fun hmem => absurd (htop.symm.trans (d.inner n hmem).1) nofun
    rw [← d.roots]
    exact h.top n ((d.isSome_containers hng).trans hn) ((d.parents n hng hnc).trans htop)
  ranked := by
    classical
    obtain ⟨level, hlevel, hp, hbelow⟩ := hroom
    refine ⟨fun n => if n = g then level p + 1
      else if ∃ k ∈ cg.entities, bare.Ascends n k then level n + 1 else level n, ?_, ?_, ?_⟩
    · intro n
      split_ifs with hng hunder
      · omega
      · obtain ⟨k, hk, hascends⟩ := hunder
        exact hbelow n k hk hascends
      · exact hlevel.bound n
    · intro r hr
      rw [← d.roots] at hr
      obtain ⟨htop, hcontainer⟩ := h.root r hr
      rw [if_neg, if_neg]
      · exact hlevel.root r hr
      · rintro ⟨k, hk, hascends⟩
        rcases hascends.cases_head with rfl | ⟨q, hq, -⟩
        · exact absurd (htop.symm.trans (d.inner r hk).2) nofun
        · exact absurd (htop.symm.trans hq) nofun
      · rintro rfl
        rw [d.gone] at hcontainer
        cases hcontainer
    · intro n q hq
      have hpunder : ¬ ∃ k ∈ cg.entities, bare.Ascends p k := by
        rintro ⟨k, hk, hascends⟩
        exact hlevel.not_ascends_parent (d.inner k hk).2 hascends
      by_cases hng : n = g
      · subst hng
        cases d.parent.symm.trans hq
        rw [if_pos rfl, if_neg d.ne, if_neg hpunder]
      · rw [if_neg hng]
        by_cases hnc : n ∈ cg.entities
        · obtain ⟨hparent, hbare⟩ := d.inner n hnc
          cases hparent.symm.trans hq
          have hstep := hlevel.step n p hbare
          rw [if_pos rfl, if_pos ⟨n, hnc, .refl⟩, hstep]
        · rw [← d.parents n hng hnc] at hq
          have hstep := hlevel.step n q hq
          have hqg : q ≠ g := by
            rintro rfl
            obtain ⟨c, hc, -⟩ := (h.edges n q).mp hq
            exact absurd (d.gone.symm.trans hc) nofun
          have hiff : (∃ k ∈ cg.entities, bare.Ascends n k) ↔ ∃ k ∈ cg.entities, bare.Ascends q k := by
            constructor
            · rintro ⟨k, hk, hascends⟩
              rcases hascends.cases_head with rfl | ⟨r, hr, hrest⟩
              · exact absurd hk hnc
              · cases hq.symm.trans hr
                exact ⟨k, hk, hrest⟩
            · rintro ⟨k, hk, hascends⟩
              exact ⟨k, hk, .head hq hascends⟩
          rw [if_neg hqg]
          by_cases hunder : ∃ k ∈ cg.entities, bare.Ascends q k
          · rw [if_pos hunder, if_pos (hiff.mpr hunder), hstep]
          · rw [if_neg hunder, if_neg fun hn => hunder (hiff.mp hn), hstep]
  spawned n hn := by
    by_cases hng : n = g
    · rw [hng]
      exact hg
    · rcases hn with hn | hn | hn
      · exact lt_of_lt_of_le (h.spawned n (.inl ((d.isSome_containers hng).trans hn))) hspawned
      · exact lt_of_lt_of_le (h.spawned n (.inr (.inl ((d.isSome_parents hng).trans hn)))) hspawned
      · exact hhistory n hn

end Dissolves

end Dissolves

end Tile
