/-
**What pruning leaves.**

A region of the forest has been swept when each container in it that is left has its new list, and each
one that collapsed is about to be despawned.  Regions that were swept one after another are swept
together.  The parents are what the commands make of them in the end: below a branch that was pruned,
every node that is left has its new parent, but for what is left of the branch itself, to which the list
above gives a parent.

Main definitions: `TileWorld.parentsAfter`, `Swept`, `Pruned`.

Main results:

* `TileWorld.flush_restructures` — what the commands of a pass do;
* `prune_children` — the branches of a list are pruned;
* `prune_spec` — the recursion ends, and prunes the branch.
-/

import Weld.TilePruning

namespace Tile

open Function (update)

/-! ### What the commands do -/

/-- What a command does to the parents. -/
def Deferred.parentsAfter (parents : Entity → Option Entity) : Deferred → Entity → Option Entity
  | .insertParent node parent => update parents node (some parent)
  | .removeTiled node => update parents node none
  | .despawn node => update parents node none
  | _ => parents

/-- A pass gives no other commands. -/
def Deferred.Restructures : Deferred → Prop
  | .insertParent _ _ => True
  | .removeTiled _ => True
  | .despawn _ => True
  | _ => False

def Deferred.despawns : Deferred → Option Entity
  | .despawn node => some node
  | _ => none

variable {n : Entity}

namespace TileWorld

/-- The parents when all commands are carried out. -/
def parentsAfter (s : TileWorld) : Entity → Option Entity :=
  s.commands.foldl Deferred.parentsAfter s.parents

/-- The nodes that are despawned by the commands. -/
def despawned (s : TileWorld) : List Entity := s.commands.filterMap Deferred.despawns

theorem parentsAfter_defer (s : TileWorld) (command : Deferred) :
    (s.defer command).parentsAfter = command.parentsAfter s.parentsAfter := by
  rw [parentsAfter, defer, List.foldl_append]
  rfl

theorem mem_despawned_defer {s : TileWorld} {command : Deferred} :
    n ∈ (s.defer command).despawned ↔ n ∈ s.despawned ∨ command.despawns = some n := by
  rw [despawned, defer, List.filterMap_append, List.mem_append, despawned, List.mem_filterMap,
    List.mem_filterMap]
  simp only [List.mem_singleton, exists_eq_left]

/-- What the commands of a pass do. -/
theorem foldl_restructures (commands : List Deferred) (hall : ∀ c ∈ commands, c.Restructures)
    (s : TileWorld) : ∃ rects, commands.foldl Deferred.apply s =
      { s with
        containers := fun n => if n ∈ commands.filterMap Deferred.despawns then none else s.containers n
        parents := commands.foldl Deferred.parentsAfter s.parents
        rects
        windows := fun n => if n ∈ commands.filterMap Deferred.despawns then {} else s.windows n
        workspaces := fun n => if n ∈ commands.filterMap Deferred.despawns then none else s.workspaces n
        roots := s.roots.filter (· ∉ commands.filterMap Deferred.despawns) } := by
  induction commands generalizing s with
  | nil =>
      refine ⟨s.rects, ?_⟩
      simp only [List.filterMap_nil, List.foldl_nil, List.not_mem_nil, if_false, not_false_eq_true,
        decide_true, List.filter_true]
  | cons command commands ih =>
      obtain ⟨rects, heq⟩ := ih (fun c hc => hall c (List.mem_cons_of_mem command hc)) (command.apply s)
      refine ⟨rects, ?_⟩
      rw [List.foldl_cons, heq]
      have hcommand := hall command List.mem_cons_self
      cases command with
      | insertParent | removeTiled => rfl
      | despawn node =>
          have hdespawns : (Deferred.despawn node).despawns = some node := rfl
          rw [List.filterMap_cons_some hdespawns, Deferred.apply]
          simp only [forget_update, filter_forget]
          rfl
      | _ => exact hcommand.elim

theorem flush_restructures {s : TileWorld} (hall : ∀ c ∈ s.commands, c.Restructures) :
    ∃ rects, s.flush =
      { s with
        containers := fun n => if n ∈ s.despawned then none else s.containers n
        parents := s.parentsAfter
        rects
        windows := fun n => if n ∈ s.despawned then {} else s.windows n
        workspaces := fun n => if n ∈ s.despawned then none else s.workspaces n
        roots := s.roots.filter (· ∉ s.despawned)
        commands := [] } :=
  foldl_restructures s.commands hall { s with commands := [] }

end TileWorld

open TileWorld

/-! ### Regions that were swept -/

/-- The containers of a region have their new lists, or are about to be despawned. -/
structure Swept (w s s' : TileWorld) (live : Entity → Bool) (region : Entity → Prop) : Prop where
  kept : ∀ m c, region m → w.containers m = some c → w.survivor live m = some m →
    s'.containers m = some { c with children := c.heirs (w.survivor live) }
  others : ∀ m, ¬ (region m ∧ (w.containers m).isSome ∧ w.survivor live m = some m) →
    s'.containers m = s.containers m
  despawned : ∀ m, m ∈ s'.despawned ↔
    m ∈ s.despawned ∨ region m ∧ (w.containers m).isSome ∧ w.survivor live m ≠ some m
  restructures : (∀ c ∈ s.commands, c.Restructures) → ∀ c ∈ s'.commands, c.Restructures
  parents : ∀ m, ¬ region m → s'.parentsAfter m = s.parentsAfter m
  windows : s'.windows = s.windows
  roots : s'.roots = s.roots
  spawned : s'.spawned = s.spawned
  history : ∀ n ∈ s'.history, n ∈ s.history ∨ n < w.spawned

variable {c : TileContainer}

namespace Swept

variable {w s s₁ s' : TileWorld} {live : Entity → Bool} {region region' : Entity → Prop}

theorem refl (w s : TileWorld) (live : Entity → Bool) : Swept w s s live fun _ => False where
  kept _ _ hm := hm.elim
  others _ _ := rfl
  despawned _ := by simp only [false_and, or_false]
  restructures hall := hall
  parents _ _ := rfl
  windows := rfl
  roots := rfl
  spawned := rfl
  history _ hn := .inl hn

/-- Two regions, one after another. -/
theorem trans (x : Swept w s s₁ live region) (y : Swept w s₁ s' live region') :
    Swept w s s' live fun m => region m ∨ region' m where
  kept m c hm hc hself := by
    by_cases hm' : region' m
    · exact y.kept m c hm' hc hself
    · rw [y.others m fun hnot => hm' hnot.1]
      exact x.kept m c (hm.resolve_right hm') hc hself
  others m hm := by
    rw [y.others m fun hnot => hm ⟨.inr hnot.1, hnot.2⟩, x.others m fun hnot => hm ⟨.inl hnot.1, hnot.2⟩]
  despawned m := by
    rw [y.despawned, x.despawned, or_assoc, or_and_right]
  restructures hall := y.restructures (x.restructures hall)
  parents m hm := by
    rw [not_or] at hm
    rw [y.parents m hm.2, x.parents m hm.1]
  windows := y.windows.trans x.windows
  roots := y.roots.trans x.roots
  spawned := y.spawned.trans x.spawned
  history n hn := by
    rcases y.history n hn with hn | hn
    · exact x.history n hn
    · exact .inr hn

theorem congr (x : Swept w s s' live region) (hregion : ∀ m, region m ↔ region' m) :
    Swept w s s' live region' := by
  have heq : region = region' := funext fun m => propext (hregion m)
  exact heq ▸ x

/-- What is left of a branch gets a new parent. -/
theorem insertParent (x : Swept w s s' live region) (hn : region n) (p : Entity) :
    Swept w s (s'.defer (.insertParent n p)) live region where
  kept := x.kept
  others := x.others
  despawned m := by
    rw [mem_despawned_defer, x.despawned]
    exact or_iff_left nofun
  restructures hall c hc := by
    rcases List.mem_append.mp hc with hc | hc
    · exact x.restructures hall c hc
    · rw [List.mem_singleton.mp hc]
      trivial
  parents m hm := by
    rw [parentsAfter_defer, Deferred.parentsAfter, Function.update_of_ne, x.parents m hm]
    rintro rfl
    exact hm hn
  windows := x.windows
  roots := x.roots
  spawned := x.spawned
  history := x.history

/-! One node at a time. -/

/-- A node that loses no leaf. -/
theorem keep (h : WellFormed w) (hn : s.containers n = w.containers n) (hkept : ¬ w.Loses live n) :
    Swept w s s live (· = n) where
  kept m c hm hc _ := by
    subst hm
    rw [hn, hc, h.heirs_of_kept hc hkept]
  others _ _ := rfl
  despawned m := by
    refine (or_iff_left ?_).symm
    rintro ⟨rfl, -, hgone⟩
    exact hgone (h.survivor_of_kept hkept)
  restructures hall := hall
  parents _ _ := rfl
  windows := rfl
  roots := rfl
  spawned := rfl
  history _ hn := .inl hn

/-- A leaf that is not live. -/
theorem loseLeaf (hn : w.containers n = none) :
    Swept w s ({ s with history := replaceHistory s.history n none }.defer (.removeTiled n)) live
      (· = n) where
  kept m c hm hc _ := by
    subst hm
    cases hn.symm.trans hc
  others _ _ := rfl
  despawned m := by
    rw [mem_despawned_defer]
    refine or_congr Iff.rfl ⟨nofun, ?_⟩
    rintro ⟨rfl, hsome, -⟩
    rw [hn] at hsome
    cases hsome
  restructures hall c hc := by
    rcases List.mem_append.mp hc with hc | hc
    · exact hall c hc
    · rw [List.mem_singleton.mp hc]
      trivial
  parents m hm := by
    rw [parentsAfter_defer, Deferred.parentsAfter, Function.update_of_ne hm]
    rfl
  windows := rfl
  roots := rfl
  spawned := rfl
  history m hm := by
    have hm : m ∈ replaceHistory s.history n none := hm
    exact (mem_of_mem_replaceHistory hm).imp id nofun

/-- A container that keeps what is left of its children. -/
theorem shrink (hc : w.containers n = some c) (hn : s.containers n = some c)
    (hself : w.survivor live n = some n) :
    Swept w s (s.markDirty.modifyContainer n fun container =>
      { container with children := c.heirs (w.survivor live) }) live (· = n) where
  kept m c' hm hc' _ := by
    subst hm
    cases hc.symm.trans hc'
    rw [modifyContainer, markDirty]
    dsimp only
    rw [Function.update_self, hn]
    rfl
  others m hm := by
    refine Function.update_of_ne ?_ ..
    rintro rfl
    exact hm ⟨rfl, by rw [hc]; rfl, hself⟩
  despawned m := by
    refine (or_iff_left ?_).symm
    rintro ⟨rfl, -, hgone⟩
    exact hgone hself
  restructures hall := hall
  parents _ _ := rfl
  windows := rfl
  roots := rfl
  spawned := rfl
  history _ hn := .inl hn

/-- A container that collapses. -/
theorem collapse (h : WellFormed w) (hc : w.containers n = some c) (hgone : w.survivor live n ≠ some n) :
    Swept w s ({ s.markDirty with
      history := replaceHistory s.history n (w.survivor live n) }.defer (.despawn n)) live (· = n) where
  kept m c' hm _ hself := by
    subst hm
    exact absurd hself hgone
  others _ _ := rfl
  despawned m := by
    rw [mem_despawned_defer]
    refine or_congr Iff.rfl ⟨fun heq => ?_, ?_⟩
    · cases heq
      exact ⟨rfl, by rw [hc]; rfl, hgone⟩
    · rintro ⟨rfl, -, -⟩
      rfl
  restructures hall c hc := by
    rcases List.mem_append.mp hc with hc | hc
    · exact hall c hc
    · rw [List.mem_singleton.mp hc]
      trivial
  parents m hm := by
    rw [parentsAfter_defer, Deferred.parentsAfter, Function.update_of_ne hm]
    rfl
  windows := rfl
  roots := rfl
  spawned := rfl
  history m hm := by
    rcases mem_of_mem_replaceHistory hm with hm | hm
    · exact .inl hm
    · rcases (h.survivor_ascends n m hm).cases_head with rfl | ⟨p, hp, -⟩
      · exact absurd hm hgone
      · exact .inr (h.spawned m (.inr (.inl (by rw [hp]; rfl))))

end Swept

/-! ### Branches that are pruned -/

/-- The branch is as it was, and what will be left of it still has its parents. -/
structure Ready (w s : TileWorld) (live : Entity → Bool) (n : Entity) : Prop where
  windows : s.windows = w.windows
  containers : ∀ m, w.Ascends m n → s.containers m = w.containers m
  parents : ∀ m, w.Ascends m n → m ≠ n → w.survivor live m = some m → s.parentsAfter m = w.parents m

/-- The branch of a node was pruned: what is left of it is still to get a parent. -/
structure Pruned (w s s' : TileWorld) (live : Entity → Bool) (n : Entity) : Prop where
  swept : Swept w s s' live fun m => w.Ascends m n
  inner : ∀ m, w.Ascends m n → w.survivor live n ≠ some m → ∀ p,
    s'.parentsAfter m = some p ↔ w.Heir live m p
  top : w.survivor live n = some n → s'.parentsAfter n = s.parentsAfter n

/-- The branches of some children were pruned, and the node is the parent of what is left of them. -/
structure PrunedList (w s s' : TileWorld) (live : Entity → Bool) (n : Entity) (nodes : List Entity) :
    Prop where
  swept : Swept w s s' live fun m => ∃ e ∈ nodes, w.Ascends m e
  inner : ∀ e ∈ nodes, ∀ m, w.Ascends m e → w.survivor live e ≠ some m → ∀ p,
    s'.parentsAfter m = some p ↔ w.Heir live m p
  outer : ∀ e ∈ nodes, ∀ m, w.survivor live e = some m → s'.parentsAfter m = some n

section Branch

variable {w : TileWorld} (h : WellFormed w) {live : Entity → Bool} {s s' : TileWorld} {n : Entity}

include h

omit h in
/-- Other branches do not touch this one. -/
theorem Ready.after {region : Entity → Prop} (hready : Ready w s live n) (x : Swept w s s' live region)
    (hapart : ∀ m, w.Ascends m n → ¬ region m) : Ready w s' live n where
  windows := x.windows.trans hready.windows
  containers m hm := by
    rw [x.others m fun hnot => hapart m hm hnot.1]
    exact hready.containers m hm
  parents m hm hne hself := by
    rw [x.parents m (hapart m hm)]
    exact hready.parents m hm hne hself

theorem Ready.child (hready : Ready w s live n) {child : Entity} (hchild : w.parents child = some n) :
    Ready w s live child where
  windows := hready.windows
  containers m hm := hready.containers m (hm.tail hchild)
  parents m hm _ hself := by
    refine hready.parents m (hm.tail hchild) ?_ hself
    rintro rfl
    obtain ⟨level, hlevel⟩ := h.ranked
    exact hlevel.not_ascends_parent hchild hm

omit h in
/-- What is left of a child takes its place. -/
theorem Pruned.adopt {child : TileChild} (x : Pruned w s s' live child.entity)
    (hparent : w.survivor live child.entity = some child.entity →
      s.parentsAfter child.entity = some n) (hup : ∀ t, w.survivor live child.entity = some t →
      w.Ascends t child.entity) (kept : List TileChild) (removed changed : Bool) :
    ∃ s₁, TileWorld.adopt n child kept removed (s', w.survivor live child.entity, changed) =
      (s₁, kept ++ ((w.survivor live child.entity).map fun m => { child with entity := m }).toList,
        removed || changed) ∧ PrunedList w s s₁ live n [child.entity] := by
  have hregion : ∀ m, w.Ascends m child.entity ↔ ∃ e ∈ [child.entity], w.Ascends m e := fun m => by
    simp only [List.mem_singleton, exists_eq_left]
  cases hleft : w.survivor live child.entity with
  | none =>
      refine ⟨s', by rw [TileWorld.adopt, Option.map_none, Option.toList_none, List.append_nil],
        x.swept.congr hregion, fun e he => ?_, fun e he m hm => ?_⟩
      · rw [List.mem_singleton.mp he]
        exact x.inner
      · rw [List.mem_singleton.mp he, hleft] at hm
        cases hm
  | some t =>
      by_cases ht : t ≠ child.entity
      · refine ⟨s'.defer (.insertParent t n), by rw [TileWorld.adopt, if_pos ht]; rfl,
          (x.swept.insertParent (hup t hleft) n).congr hregion, fun e he m hm hne => ?_,
          fun e he m hm => ?_⟩
        · rw [List.mem_singleton.mp he] at hm hne
          rw [parentsAfter_defer, Deferred.parentsAfter, Function.update_of_ne]
          · exact x.inner m hm hne
          · rintro rfl
            exact hne hleft
        · rw [List.mem_singleton.mp he, hleft] at hm
          cases hm
          rw [parentsAfter_defer, Deferred.parentsAfter, Function.update_self]
      · rw [not_not] at ht
        subst ht
        refine ⟨s', by rw [TileWorld.adopt, if_neg (not_not.mpr rfl)]; rfl, x.swept.congr hregion,
          fun e he => ?_, fun e he m hm => ?_⟩
        · rw [List.mem_singleton.mp he]
          exact x.inner
        · rw [List.mem_singleton.mp he, hleft] at hm
          cases hm
          rw [x.top hleft, hparent hleft]

/-- The branches of more children. -/
theorem PrunedList.cons {s₁ : TileWorld} {e : Entity} {nodes : List Entity}
    (x : PrunedList w s s₁ live n [e]) (y : PrunedList w s₁ s' live n nodes)
    (hapart : ∀ m, w.Ascends m e → ¬ ∃ e' ∈ nodes, w.Ascends m e') :
    PrunedList w s s' live n (e :: nodes) where
  swept := (x.swept.trans y.swept).congr fun m => by
    simp only [List.mem_cons, exists_eq_or_imp, List.not_mem_nil, or_false, exists_eq_left]
  inner e' he' m hm hne p := by
    rcases List.mem_cons.mp he' with rfl | he'
    · rw [y.swept.parents m (hapart m hm)]
      exact x.inner _ (List.mem_singleton_self _) m hm hne p
    · exact y.inner e' he' m hm hne p
  outer e' he' m hm := by
    rcases List.mem_cons.mp he' with rfl | he'
    · rw [y.swept.parents m (hapart m (h.survivor_ascends _ m hm))]
      exact x.outer _ (List.mem_singleton_self _) m hm
    · exact y.outer e' he' m hm

variable {root : Entity}

/-- **The branches of the children are pruned**, one after another. -/
theorem prune_children {fuel : ℕ}
    (ih : ∀ (child : Entity) (s : TileWorld), w.parents child = some n → Ready w s live child →
      ∃ s' changed, s.prune root fuel child = some (s', w.survivor live child, changed) ∧
        (changed = true ↔ w.Loses live child) ∧ Pruned w s s' live child) :
    ∀ (children : List TileChild), (∀ child ∈ children, w.parents child.entity = some n) →
      (children.map TileChild.entity).Nodup →
      ∀ (s : TileWorld) (kept : List TileChild) (removed : Bool),
      (∀ child ∈ children, Ready w s live child.entity) →
      (∀ child ∈ children, w.survivor live child.entity = some child.entity →
        s.parentsAfter child.entity = some n) →
      ∃ s' changed, children.foldlM (fun (found : TileWorld × List TileChild × Bool) child =>
          (found.1.prune root fuel child.entity).map (TileWorld.adopt n child found.2.1 found.2.2))
          (s, kept, removed) =
        some (s', kept ++ (children.filterMap fun child =>
          (w.survivor live child.entity).map fun m => { child with entity := m }), changed) ∧
        (changed = true ↔ removed = true ∨ ∃ child ∈ children, w.Loses live child.entity) ∧
        PrunedList w s s' live n (children.map TileChild.entity) := by
  intro children
  induction children with
  | nil =>
      intro _ _ s kept removed _ _
      refine ⟨s, removed, by rw [List.filterMap_nil, List.append_nil]; rfl, ?_, ?_⟩
      · simp only [List.not_mem_nil, false_and, exists_false, or_false]
      · exact ⟨(Swept.refl w s live).congr fun m => by
          simp only [List.map_nil, List.not_mem_nil, false_and, exists_false], nofun, nofun⟩
  | cons child children ihc =>
      intro hparents hnodup s kept removed hready htop
      rw [List.map_cons, List.nodup_cons] at hnodup
      have hchild := hparents child List.mem_cons_self
      have hothers : ∀ other ∈ children, w.parents other.entity = some n := fun other hother =>
        hparents other (List.mem_cons_of_mem child hother)
      have hapart : ∀ m, w.Ascends m child.entity →
          ¬ ∃ e ∈ children.map TileChild.entity, w.Ascends m e := by
        rintro m hm ⟨e, he, hme⟩
        obtain ⟨other, hother, rfl⟩ := List.mem_map.mp he
        exact hnodup.1 (h.sibling_unique hchild (hothers other hother) hm hme ▸ he)
      obtain ⟨s₁, changed, hprune, hchanged, x⟩ := ih child.entity s hchild (hready child List.mem_cons_self)
      obtain ⟨s₂, hadopt, y⟩ := x.adopt (htop child List.mem_cons_self)
        (fun t ht => h.survivor_ascends _ t ht) kept removed changed
      have hregion : ∀ m, (∃ e ∈ [child.entity], w.Ascends m e) → ∀ other ∈ children,
          ¬ w.Ascends m other.entity := by
        rintro m ⟨e, he, hm⟩ other hother hmo
        rw [List.mem_singleton.mp he] at hm
        exact hapart m hm ⟨other.entity, List.mem_map_of_mem hother, hmo⟩
      obtain ⟨s', changed', hfold, hchanged', z⟩ := ihc hothers hnodup.2 s₂ _ (removed || changed)
        (fun other hother => (hready other (List.mem_cons_of_mem child hother)).after y.swept
          fun m hm hin => hregion m hin other hother hm)
        (fun other hother hself => by
          rw [y.swept.parents _ fun hin => hregion _ hin other hother .refl]
          exact htop other (List.mem_cons_of_mem child hother) hself)
      refine ⟨s', changed', ?_, ?_, y.cons h z hapart⟩
      · rw [List.foldlM_cons]
        rw [hprune, Option.map_some, hadopt]
        refine hfold.trans ?_
        congr 2
        rw [List.append_assoc, List.filterMap_cons]
        cases w.survivor live child.entity with
        | none | some => rfl
      · rw [hchanged', Bool.or_eq_true, hchanged, or_assoc]
        simp only [List.mem_cons, exists_eq_or_imp]

/-- A container, when its children were pruned. -/
theorem PrunedList.node {s₁ : TileWorld} (hc : w.containers n = some c)
    (x : PrunedList w s s₁ live n c.entities) (y : Swept w s₁ s' live (· = n))
    (hself : w.survivor live n = some n → s'.parentsAfter n = s₁.parentsAfter n)
    (hgone : w.survivor live n ≠ some n → s'.parentsAfter n = none) : Pruned w s s' live n where
  swept := (x.swept.trans y).congr fun m => by
    constructor
    · rintro (⟨e, he, hm⟩ | rfl)
      · exact hm.tail ((h.edges e n).mpr ⟨c, hc, he⟩)
      · exact .refl
    · intro hm
      rcases hm.cases_tail with rfl | ⟨e, hup, he⟩
      · exact .inr rfl
      · obtain ⟨c', hc', hlisted⟩ := (h.edges e n).mp he
        cases hc.symm.trans hc'
        exact .inl ⟨e, hlisted, hup⟩
  inner m hm hne p := by
    rcases hm.cases_tail with rfl | ⟨e, hup, he⟩
    · rw [hgone hne]
      exact ⟨nofun, fun hp => absurd (h.survivor_of_heir hp) hne⟩
    · obtain ⟨c', hc', hlisted⟩ := (h.edges e n).mp he
      cases hc.symm.trans hc'
      have hmn : m ≠ n := by
        rintro rfl
        obtain ⟨level, hlevel⟩ := h.ranked
        exact hlevel.not_ascends_parent he hup
      rw [y.parents m hmn]
      by_cases hleft : w.survivor live e = some m
      · have hstays : ¬ w.Collapses live n c (w.survivor live) := by
          intro hcollapses
          have hmem : m ∈ c.entities.filterMap (w.survivor live) :=
            List.mem_filterMap.mpr ⟨e, hlisted, hleft⟩
          rw [h.survivor_collapsed hc hcollapses, Option.mem_toList] at hmem
          exact hne hmem
        have hheir : w.Heir live m n := ⟨h.survivor_self hc hstays, e, he, hleft⟩
        rw [x.outer e hlisted m hleft]
        constructor
        · intro heq
          cases heq
          exact hheir
        · exact fun hp => congrArg some (h.heir_unique hheir hp)
      · exact x.inner e hlisted m hup hleft p
  top hleft := by
    rw [hself hleft, x.swept.parents n]
    rintro ⟨e, he, hup⟩
    obtain ⟨level, hlevel⟩ := h.ranked
    exact hlevel.not_ascends_parent ((h.edges e n).mpr ⟨c, hc, he⟩) hup

theorem ascends_leaf {m : Entity} (hn : w.containers n = none) : m = n ↔ w.Ascends m n := by
  constructor
  · rintro rfl
    exact .refl
  · intro hm
    rcases hm.cases_tail with rfl | ⟨child, -, hchild⟩
    · rfl
    · obtain ⟨c, hc, -⟩ := (h.edges child n).mp hchild
      exact absurd (hn.symm.trans hc) nofun

/-- A leaf is left if it is live. -/
theorem prune_leaf {fuel : ℕ} (hn : w.containers n = none)
    (hlive : w.liveIn root n = live n) (hready : Ready w s live n) :
    ∃ s' changed, s.prune root (fuel + 1) n = some (s', w.survivor live n, changed) ∧
      (changed = true ↔ w.Loses live n) ∧ Pruned w s s' live n := by
  have hsame : s.liveIn root n = live n := by
    rw [← hlive, liveIn, liveIn, hready.windows]
  rw [prune, hready.containers n .refl, hn]
  rw [hsame, WellFormed.survivor_leaf hn, h.loses_leaf hn]
  by_cases hleaf : live n = true
  · have hleft : w.survivor live n = some n := by rw [WellFormed.survivor_leaf hn, if_pos hleaf]
    rw [if_pos hleaf, if_pos hleaf]
    refine ⟨s, false, rfl, by rw [hleaf]; exact ⟨nofun, nofun⟩, ?_, fun m hm hne => ?_, fun _ => rfl⟩
    · refine (Swept.keep h (hready.containers n .refl) fun hloses => ?_).congr fun m => ascends_leaf h hn
      rw [h.loses_leaf hn, hleaf] at hloses
      cases hloses
    · cases (ascends_leaf h hn).mpr hm
      exact absurd hleft hne
  · have hleft : w.survivor live n = none := by rw [WellFormed.survivor_leaf hn, if_neg hleaf]
    rw [if_neg hleaf, if_neg hleaf]
    refine ⟨_, true, rfl, ⟨fun _ => Bool.not_eq_true _ ▸ hleaf, fun _ => rfl⟩,
      (Swept.loseLeaf hn).congr fun m => ascends_leaf h hn, fun m hm hne p => ?_, fun heq => ?_⟩
    · cases (ascends_leaf h hn).mpr hm
      rw [parentsAfter_defer, Deferred.parentsAfter, Function.update_self]
      exact ⟨nofun, fun hp => absurd (h.survivor_of_heir hp) hne⟩
    · cases hleft.symm.trans heq

/-- A root is never below the root that is pruned. -/
theorem collapses_iff (hroot : root ∈ w.roots) (hup : w.Ascends n root)
    (hlost : w.Loses live n) (c : TileContainer) :
    (n ≠ root ∧ (c.heirs (w.survivor live) = [] ∨
      (c.heirs (w.survivor live)).length = 1 ∧ c.layout.isSplit = true)) ↔
      w.Collapses live n c (w.survivor live) := by
  have hne : n ≠ root ↔ n ∉ w.roots := by
    constructor
    · intro hne hn
      rcases hup.cases_head with heq | ⟨p, hp, -⟩
      · exact hne heq
      · exact h.notMem_roots hp hn
    · rintro hn rfl
      exact hn hroot
  rw [hne, Collapses, and_iff_right hlost]

/-- **The recursion ends, and prunes the branch.** -/
theorem prune_spec (hroot : root ∈ w.roots)
    (hlive : ∀ m, w.Ascends m root → w.containers m = none → w.liveIn root m = live m)
    {level : Entity → ℕ} (hlevel : Ranked w level) :
    ∀ (fuel : ℕ) (n : Entity) (s : TileWorld), maxDepth < level n + fuel → w.Ascends n root →
      Ready w s live n →
      ∃ s' changed, s.prune root fuel n = some (s', w.survivor live n, changed) ∧
        (changed = true ↔ w.Loses live n) ∧ Pruned w s s' live n := by
  intro fuel
  induction fuel with
  | zero =>
      intro n s hlt
      have hbound := hlevel.bound n
      omega
  | succ fuel ih =>
      intro n s hlt hup hready
      cases hc : w.containers n with
      | none => exact prune_leaf h hc (hlive n hup hc) hready
      | some c =>
          have hparents : ∀ child ∈ c.children, w.parents child.entity = some n := fun child hchild =>
            (h.edges child.entity n).mpr ⟨c, hc, entity_mem hchild⟩
          obtain ⟨s₁, changed, hfold, hchanged, x⟩ := prune_children h
            (fun child t hchild hready' => ih child t (by
              have hstep := hlevel.step child n hchild
              omega) (.head hchild hup) hready')
            c.children hparents (h.nodup n c hc) s [] false
            (fun child hchild => hready.child h (hparents child hchild))
            (fun child hchild hself => by
              have hparent := hparents child hchild
              rw [hready.parents child.entity (.single hparent) ?_ hself, hparent]
              intro heq
              exact hlevel.not_ascends_parent hparent (heq ▸ .refl))
          have hloses : changed = true ↔ w.Loses live n := by
            rw [hchanged, WellFormed.loses_iff hc, or_iff_right Bool.false_ne_true]
            constructor
            · rintro ⟨child, hchild, hlost⟩
              exact ⟨child.entity, hparents child hchild, hlost⟩
            · rintro ⟨e, he, hlost⟩
              obtain ⟨c', hc', hlisted⟩ := (h.edges e n).mp he
              cases hc.symm.trans hc'
              obtain ⟨child, hchild, rfl⟩ := List.mem_map.mp hlisted
              exact ⟨child, hchild, hlost⟩
          have hcontainer : s₁.containers n = w.containers n := by
            rw [x.swept.others n, hready.containers n .refl]
            rintro ⟨⟨e, he, hne⟩, -⟩
            exact hlevel.not_ascends_parent ((h.edges e n).mpr ⟨c, hc, he⟩) hne
          rw [prune, hready.containers n .refl, hc]
          dsimp only
          rw [hfold, Option.map_some, List.nil_append]
          cases changed with
          | false =>
              have hkept : ¬ w.Loses live n := fun hlost => Bool.false_ne_true (hloses.mpr hlost)
              have hself := h.survivor_of_kept hkept
              exact ⟨s₁, false, by rw [compact, hself], hloses,
                x.node h hc (.keep h hcontainer hkept) (fun _ => rfl) fun hne => absurd hself hne⟩
          | true =>
              have hcollapses := collapses_iff h hroot hup (hloses.mp rfl) c
              by_cases hgone : w.Collapses live n c (w.survivor live)
              · have hne := h.survivor_ne hc hgone
                have hleft : (c.heirs (w.survivor live)).head?.map TileChild.entity = w.survivor live n := by
                  rw [h.survivor_node hc, if_pos hgone]
                refine ⟨_, true, ?_, hloses, x.node h hc (.collapse h hc hne) (fun hself => absurd hself hne)
                  fun _ => ?_⟩
                · rw [← hleft, compact]
                  exact congrArg some (if_pos (hcollapses.mpr hgone))
                · rw [parentsAfter_defer, Deferred.parentsAfter, Function.update_self]
              · have hself := h.survivor_self hc hgone
                refine ⟨_, true, ?_, hloses, x.node h hc (.shrink hc (hcontainer.trans hc) hself)
                  (fun _ => rfl) fun hne => absurd hself hne⟩
                rw [hself, compact]
                exact congrArg some (if_neg fun hcondition => hgone (hcollapses.mp hcondition))

end Branch

end Tile
