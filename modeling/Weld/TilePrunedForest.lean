/-
**A pruned forest.**

When a pass is done, the containers that are left have what is left of their lists, all others are gone,
and a node has a parent exactly if it is an heir.  This is a well-formed forest again.  The leaves of
every branch are the live ones of the branch that it came from, and in such a forest there is nothing to
prune.

Windows change before the pass, and one that is despawned has no parent any more, although it is still
listed.

Main definitions: `Ceased`, `Outcome`, `PrunedForest`.

Main results:

* `Outcome.wellFormed`, `Outcome.branch` — the forest, and the leaves of its branches;
* `prune_unchanged` — in a tree whose leaves are live, nothing is pruned;
* `prune_keeps_exactly_the_live_leaves`.
-/

import Weld.TilePruned

namespace Tile

open TileWorld

open Forest (Frontier)
open Function (update)

/-! ### The pass -/

/-- Windows have changed, and windows that are gone have lost their parents. -/
structure Ceased (w s : TileWorld) : Prop where
  containers : s.containers = w.containers
  roots : s.roots = w.roots
  history : s.history = w.history
  spawned : s.spawned = w.spawned
  settled : s.commands = []
  parents : ∀ n, s.parents n = w.parents n ∨
    s.parents n = none ∧ w.containers n = none ∧ ∀ root, s.liveIn root n = false

/-- The world when the commands of a pass are carried out. -/
structure Outcome (w s s' : TileWorld) (live : Entity → Bool) : Prop where
  kept : ∀ m c, w.containers m = some c → w.survivor live m = some m →
    s'.containers m = some { c with children := c.heirs (w.survivor live) }
  gone : ∀ m, ¬ ((w.containers m).isSome ∧ w.survivor live m = some m) → s'.containers m = none
  parents : ∀ m p, s'.parents m = some p ↔ w.Heir live m p
  roots : s'.roots = w.roots
  windows : ∀ m, w.containers m = none → s'.windows m = s.windows m
  history : ∀ n ∈ s'.history, n < w.spawned
  spawned : s'.spawned = w.spawned
  settled : s'.commands = []

section Pass

variable {w : TileWorld} (h : WellFormed w) {live : Entity → Bool}

include h

/-- **The trees are pruned**, one after another. -/
theorem prune_roots
    (hlive : ∀ r ∈ w.roots, ∀ m, w.Ascends m r → w.containers m = none → w.liveIn r m = live m) :
    ∀ (roots : List Entity), roots.Nodup → (∀ r ∈ roots, r ∈ w.roots) → ∀ (s : TileWorld),
      (∀ r ∈ roots, Ready w s live r) →
      ∃ s', roots.foldlM (fun (t : TileWorld) root =>
          (t.prune root (maxDepth + 1) root).map Prod.fst) s = some s' ∧
        Swept w s s' live (fun m => ∃ r ∈ roots, w.Ascends m r) ∧
        ∀ r ∈ roots, s'.parentsAfter r = s.parentsAfter r ∧
          ∀ m, w.Ascends m r → m ≠ r → ∀ p, s'.parentsAfter m = some p ↔ w.Heir live m p := by
  obtain ⟨level, hlevel⟩ := h.ranked
  intro roots
  induction roots with
  | nil =>
      intro _ _ s _
      exact ⟨s, rfl, (Swept.refl w s live).congr fun m => by
        simp only [List.not_mem_nil, false_and, exists_false], fun _ hr => absurd hr List.not_mem_nil⟩
  | cons r roots ih =>
      intro hnodup hroots s hready
      rw [List.nodup_cons] at hnodup
      have hr := hroots r List.mem_cons_self
      have hothers : ∀ q ∈ roots, q ∈ w.roots := fun q hq => hroots q (List.mem_cons_of_mem r hq)
      have hapart : ∀ m, w.Ascends m r → ∀ q ∈ roots, ¬ w.Ascends m q := fun m hm q hq hmq =>
        hnodup.1 (h.root_unique hr (hothers q hq) hm hmq ▸ hq)
      obtain ⟨s₁, changed, hprune, -, x⟩ := prune_spec h hr (hlive r hr) hlevel (maxDepth + 1) r s
        (by omega) .refl (hready r List.mem_cons_self)
      obtain ⟨s', hfold, y, hparents⟩ := ih hnodup.2 hothers s₁ fun q hq =>
        (hready q (List.mem_cons_of_mem r hq)).after x.swept fun m hm hin => hapart m hin q hq hm
      have hself : w.survivor live r = some r := h.survivor_root hr
      refine ⟨s', ?_, (x.swept.trans y).congr fun m => by simp only [List.mem_cons, exists_eq_or_imp],
        fun q hq => ?_⟩
      · rw [List.foldlM_cons, hprune]
        exact hfold
      · rcases List.mem_cons.mp hq with rfl | hq
        · have hfar : ∀ m, w.Ascends m q → s'.parentsAfter m = s₁.parentsAfter m := by
            refine fun m hm => y.parents m ?_
            rintro ⟨q', hq', hm'⟩
            exact hapart m hm q' hq' hm'
          refine ⟨(hfar q .refl).trans (x.top hself), fun m hm hne p => ?_⟩
          rw [hfar m hm]
          refine x.inner m hm ?_ p
          rw [hself]
          exact fun heq => hne (Option.some.inj heq).symm
        · obtain ⟨htop, hinner⟩ := hparents q hq
          refine ⟨htop.trans (x.swept.parents q fun hup => hapart q hup q hq .refl), hinner⟩

/-- **A pass is done.** -/
theorem prunePass_outcome {s : TileWorld} (hwindows : s.windows = w.windows) (hs : Ceased w s)
    (hlive : ∀ r ∈ w.roots, ∀ m, w.Ascends m r → w.containers m = none → w.liveIn r m = live m) :
    ∃ s', s.prunePass = some s' ∧ Outcome w s s' live := by
  have hafter : s.parentsAfter = s.parents := by
    rw [parentsAfter, hs.settled]
    rfl
  have hready : ∀ r ∈ w.roots.dedup, Ready w s live r := by
    intro r hr
    have hr := List.mem_dedup.mp hr
    refine ⟨hwindows, fun m _ => by rw [hs.containers], fun m hm _ hself => ?_⟩
    rw [hafter]
    refine (hs.parents m).resolve_right ?_
    rintro ⟨-, hleaf, hdead⟩
    have hlost := hlive r hr m hm hleaf
    rw [liveIn, ← hwindows, ← liveIn, hdead] at hlost
    rw [WellFormed.survivor_leaf hleaf, ← hlost] at hself
    cases hself
  obtain ⟨t, hfold, x, hparents⟩ := prune_roots h hlive w.roots.dedup (List.nodup_dedup _)
    (fun r hr => List.mem_dedup.mp hr) s hready
  obtain ⟨rects, hflush⟩ := flush_restructures (x.restructures (by simp [hs.settled]))
  have hregion : ∀ {m c}, w.containers m = some c → ∃ r ∈ w.roots.dedup, w.Ascends m r := by
    intro m c hc
    obtain ⟨r, hr, -, hup⟩ := h.root_eq (h.inTree_of_container hc)
    exact ⟨r, List.mem_dedup.mpr hr, hup⟩
  have hdespawned : ∀ m, m ∈ t.despawned ↔
      (∃ r ∈ w.roots.dedup, w.Ascends m r) ∧ (w.containers m).isSome ∧ w.survivor live m ≠ some m := by
    intro m
    rw [x.despawned, despawned, hs.settled]
    exact or_iff_right List.not_mem_nil
  refine ⟨t.flush, by rw [prunePass, hs.roots, hfold]; rfl, ?_⟩
  rw [hflush]
  refine ⟨fun m c hc hself => ?_, fun m hm => ?_, fun m p => ?_, ?_, fun m hm => ?_, fun n hn => ?_,
    x.spawned.trans hs.spawned, rfl⟩
  · dsimp only
    rw [if_neg fun hgone => ((hdespawned m).mp hgone).2.2 hself, x.kept m c (hregion hc) hc hself]
  · dsimp only
    cases hc : w.containers m with
    | none => rw [x.others m fun hnot => hm hnot.2, hs.containers, hc, ite_self]
    | some c =>
        rw [if_pos]
        refine (hdespawned m).mpr ⟨hregion hc, by rw [hc]; rfl, fun hself => hm ⟨?_, hself⟩⟩
        rw [hc]
        rfl
  · dsimp only
    by_cases hin : ∃ r ∈ w.roots.dedup, w.Ascends m r
    · obtain ⟨r, hr, hup⟩ := hin
      have hroot := List.mem_dedup.mp hr
      obtain ⟨htop, hinner⟩ := hparents r hr
      by_cases hm : m = r
      · subst hm
        rw [htop, hafter]
        refine ⟨fun hp => ?_, fun hp => absurd hp (h.not_heir_root hroot)⟩
        rcases hs.parents m with heq | ⟨hnone, -⟩
        · rw [heq, (h.root m hroot).1] at hp
          cases hp
        · rw [hnone] at hp
          cases hp
      · exact hinner m hup hm p
    · have hnone : w.parents m = none := by
        cases hp : w.parents m with
        | none => rfl
        | some q =>
            obtain ⟨r, hr, -, hup⟩ := h.root_eq (.inr (by rw [hp]; rfl))
            exact absurd ⟨r, List.mem_dedup.mpr hr, hup⟩ hin
      rw [x.parents m hin, hafter]
      constructor
      · intro hp
        rcases hs.parents m with heq | ⟨heq, -⟩
        · rw [heq, hnone] at hp
          cases hp
        · rw [heq] at hp
          cases hp
      · rintro ⟨-, child, hchild, hleft⟩
        obtain ⟨r, hr, -, hup⟩ := h.root_eq (.inr (by rw [hchild]; rfl))
        exact absurd ⟨r, List.mem_dedup.mpr hr, (h.survivor_ascends child m hleft).trans hup⟩ hin
  · rw [x.roots, hs.roots]
    refine List.filter_eq_self.mpr fun r hr => decide_eq_true fun hgone => ?_
    exact ((hdespawned r).mp hgone).2.2 (h.survivor_root hr)
  · dsimp only
    rw [if_neg, x.windows]
    intro hgone
    obtain ⟨-, hsome, -⟩ := (hdespawned m).mp hgone
    rw [hm] at hsome
    cases hsome
  · rcases x.history n hn with hn | hn
    · exact h.spawned n (.inr (.inr (hs.history ▸ hn)))
    · exact hn

/-! ### The forest afterwards -/

open Classical in
/-- The containers above a node that are left. -/
noncomputable def TileWorld.depthLeft (w : TileWorld) (live : Entity → Bool) : ℕ → Entity → ℕ
  | 0, _ => 0
  | fuel + 1, n =>
      match w.parents n with
      | none => 0
      | some p => w.depthLeft live fuel p + if w.survivor live p = some p then 1 else 0

omit h in
theorem depthLeft_le (fuel : ℕ) (n : Entity) : w.depthLeft live fuel n ≤ fuel := by
  induction fuel generalizing n with
  | zero => exact le_refl 0
  | succ fuel ih =>
      rw [depthLeft]
      split
      · exact Nat.zero_le _
      · rename_i p _
        have hp := ih p
        split_ifs
        · omega
        · omega

omit h in
theorem depthLeft_step {level : Entity → ℕ} (hlevel : Ranked w level) {n p : Entity}
    (hp : w.parents n = some p) :
    (w.survivor live p = some p → w.depthLeft live (level n) n = w.depthLeft live (level p) p + 1) ∧
      (w.survivor live p ≠ some p → w.depthLeft live (level n) n = w.depthLeft live (level p) p) := by
  rw [hlevel.step n p hp, depthLeft, hp]
  dsimp only
  exact ⟨fun hself => by rw [if_pos hself], fun hgone => by rw [if_neg hgone, Nat.add_zero]⟩

variable {s s' : TileWorld}

namespace Outcome

variable (x : Outcome w s s' live)

include x

omit h in
/-- A container that is left. -/
theorem container {p : Entity} {c' : TileContainer} (hc' : s'.containers p = some c') :
    w.survivor live p = some p ∧ ∃ c, w.containers p = some c ∧
      c' = { c with children := c.heirs (w.survivor live) } := by
  by_cases hp : (w.containers p).isSome ∧ w.survivor live p = some p
  · obtain ⟨hsome, hself⟩ := hp
    obtain ⟨c, hc⟩ := Option.isSome_iff_exists.mp hsome
    exact ⟨hself, c, hc, Option.some.inj (hc'.symm.trans (x.kept p c hc hself))⟩
  · cases (x.gone p hp).symm.trans hc'

/-- **A pruned forest is well formed.** -/
theorem wellFormed : WellFormed s' where
  settled := x.settled
  root r hr := by
    rw [x.roots] at hr
    obtain ⟨c, hc⟩ := Option.isSome_iff_exists.mp (h.root r hr).2
    refine ⟨Option.eq_none_iff_forall_ne_some.mpr fun p hp =>
      h.not_heir_root hr ((x.parents r p).mp hp), ?_⟩
    rw [x.kept r c hc (h.survivor_root hr)]
    rfl
  edges n p := by
    rw [x.parents]
    constructor
    · rintro ⟨hself, child, hchild, hleft⟩
      obtain ⟨c, hc, hlisted⟩ := (h.edges child p).mp hchild
      exact ⟨_, x.kept p c hc hself, TileContainer.mem_heirs.mpr ⟨child, hlisted, hleft⟩⟩
    · rintro ⟨c', hc', hn⟩
      obtain ⟨hself, c, hc, rfl⟩ := x.container hc'
      obtain ⟨child, hlisted, hleft⟩ := TileContainer.mem_heirs.mp hn
      exact ⟨hself, child, (h.edges child p).mpr ⟨c, hc, hlisted⟩, hleft⟩
  nodup p c' hc' := by
    obtain ⟨-, c, hc, rfl⟩ := x.container hc'
    rw [TileContainer.entities, TileContainer.heirs_entities]
    exact h.heirs_nodup hc
  weights p c' hc' child hchild := by
    obtain ⟨-, c, hc, rfl⟩ := x.container hc'
    obtain ⟨old, hold, hleft⟩ := List.mem_filterMap.mp hchild
    obtain ⟨n, -, rfl⟩ := Option.map_eq_some_iff.mp hleft
    exact h.weights p c hc old hold
  top n hn hparent := by
    obtain ⟨c', hc'⟩ := Option.isSome_iff_exists.mp hn
    obtain ⟨hself, c, hc, -⟩ := x.container hc'
    obtain ⟨r, hr, -, hup⟩ := h.root_eq (h.inTree_of_container hc)
    rw [x.roots]
    by_cases hne : n = r
    · exact hne ▸ hr
    · obtain ⟨p, -, hp⟩ := h.exists_heir hr hup hself hne
      cases hparent.symm.trans ((x.parents n p).mpr hp)
  ranked := by
    obtain ⟨level, hlevel⟩ := h.ranked
    -- between a node and its survivor nothing is left
    have hsurvivor : ∀ n t, w.survivor live n = some t →
        w.depthLeft live (level t) t = w.depthLeft live (level n) n := by
      intro n
      induction n using h.induction_below with
      | step n ih =>
          intro t ht
          by_cases hne : t = n
          · rw [hne]
          · obtain ⟨child, hchild, hleft⟩ := h.survivor_child ht hne
            rw [ih child hchild t hleft]
            refine (depthLeft_step hlevel hchild).2 fun hself => hne ?_
            exact Option.some.inj (ht.symm.trans hself)
    refine ⟨fun n => w.depthLeft live (level n) n, fun n => (depthLeft_le _ n).trans (hlevel.bound n),
      fun r hr => ?_, fun n p hp => ?_⟩
    · rw [x.roots] at hr
      exact Nat.le_zero.mp ((depthLeft_le _ r).trans_eq (hlevel.root r hr))
    · obtain ⟨hself, child, hchild, hleft⟩ := (x.parents n p).mp hp
      rw [hsurvivor child n hleft]
      exact (depthLeft_step hlevel hchild).1 hself
  spawned n hn := by
    rw [x.spawned]
    rcases hn with hn | hn | hn
    · obtain ⟨c', hc'⟩ := Option.isSome_iff_exists.mp hn
      obtain ⟨-, c, hc, -⟩ := x.container hc'
      exact h.spawned n (.inl (by rw [hc]; rfl))
    · obtain ⟨p, hp⟩ := Option.isSome_iff_exists.mp hn
      obtain ⟨-, child, hchild, hleft⟩ := (x.parents n p).mp hp
      rcases (h.survivor_ascends child n hleft).cases_head with rfl | ⟨q, hq, -⟩
      · exact h.spawned _ (.inr (.inl (by rw [hchild]; rfl)))
      · exact h.spawned n (.inr (.inl (by rw [hq]; rfl)))
    · exact x.history n hn

/-- **What is left of a branch** has its live leaves, in their order. -/
theorem branch {n : Entity} {row : List Entity} (hrow : w.LeafRow n row) :
    Frontier s'.kids (w.survivor live n).toList (row.filter live) := by
  have hkids : ∀ m c, w.containers m = some c → w.survivor live m = some m →
      s'.kids m = some (c.entities.filterMap (w.survivor live)) := by
    intro m c hc hself
    rw [kids, x.kept m c hc hself, Option.map_some, TileContainer.entities,
      TileContainer.heirs_entities]
  have hall := Frontier.substitute s'.kids (fun m => (w.survivor live m).toList)
    (fun m => if live m then [m] else []) (fun _ => True) (fun m _ hleaf => ?_)
    (fun m children _ hsome => ⟨fun _ _ => trivial, ?_⟩) hrow fun _ _ => trivial
  · rw [List.flatMap_singleton, Forest.flatMap_keep] at hall
    exact hall
  · rw [kids, Option.map_eq_none_iff] at hleaf
    rw [WellFormed.survivor_leaf hleaf]
    split_ifs
    · refine .leaf ?_ .nil
      rw [kids, x.gone m fun hnot => by rw [hleaf] at hnot; cases hnot.1]
      rfl
    · exact .nil
  · obtain ⟨c, hc, rfl⟩ := Option.map_eq_some_iff.mp hsome
    rw [← List.filterMap_eq_flatMap_toList]
    by_cases hgone : w.Collapses live m c (w.survivor live)
    · rw [h.survivor_collapsed hc hgone]
      exact .refl _
    · have hself := h.survivor_self hc hgone
      rw [hself]
      exact .single (hkids m c hc hself)

end Outcome

/-! ### A second pass -/

omit h in
theorem prune_children_unchanged {root n : Entity} {fuel : ℕ} (children : List TileChild)
    (hall : ∀ child ∈ children, w.prune root fuel child.entity = some (w, some child.entity, false))
    (kept : List TileChild) :
    children.foldlM (fun (found : TileWorld × List TileChild × Bool) child =>
        (found.1.prune root fuel child.entity).map (adopt n child found.2.1 found.2.2))
      (w, kept, false) = some (w, kept ++ children, false) := by
  induction children generalizing kept with
  | nil =>
      rw [List.append_nil]
      rfl
  | cons child children ih =>
      have hrest := ih (fun other hother => hall other (List.mem_cons_of_mem child hother)) (kept ++ [child])
      rw [List.append_assoc] at hrest
      rw [List.foldlM_cons, hall child List.mem_cons_self, Option.map_some, adopt,
        if_neg (not_not.mpr rfl)]
      exact hrest

/-- **In a tree whose leaves are live, nothing is pruned.** -/
theorem prune_unchanged {root : Entity} {level : Entity → ℕ} (hlevel : Ranked w level) :
    ∀ (fuel : ℕ) (n : Entity), maxDepth < level n + fuel → ¬ w.Loses (w.liveIn root) n →
      w.prune root fuel n = some (w, some n, false) := by
  intro fuel
  induction fuel with
  | zero =>
      intro n hlt
      have hbound := hlevel.bound n
      omega
  | succ fuel ih =>
      intro n hlt hkept
      rw [prune]
      cases hc : w.containers n with
      | none =>
          rw [if_pos]
          by_contra hlive
          exact hkept ((h.loses_leaf hc).mpr (Bool.not_eq_true _ ▸ hlive))
      | some c =>
          have hfold := prune_children_unchanged (n := n) c.children (fun child hchild => by
            have hparent := (h.edges child.entity n).mpr ⟨c, hc, entity_mem hchild⟩
            have hstep := hlevel.step child.entity n hparent
            exact ih child.entity (by omega) fun hlost =>
              hkept ((WellFormed.loses_iff hc).mpr ⟨child.entity, hparent, hlost⟩)) []
          dsimp only
          rw [hfold]
          rfl

theorem prunePass_unchanged (hkept : ∀ r ∈ w.roots, ¬ w.Loses (w.liveIn r) r) : w.prunePass = some w := by
  obtain ⟨level, hlevel⟩ := h.ranked
  have hfold : ∀ roots : List Entity, (∀ r ∈ roots, r ∈ w.roots) →
      roots.foldlM (fun (t : TileWorld) root =>
        (t.prune root (maxDepth + 1) root).map Prod.fst) w = some w := by
    intro roots
    induction roots with
    | nil => exact fun _ => rfl
    | cons r roots ih =>
        intro hroots
        rw [List.foldlM_cons, prune_unchanged h hlevel (maxDepth + 1) r (by omega)
          (hkept r (hroots r List.mem_cons_self))]
        exact ih fun q hq => hroots q (List.mem_cons_of_mem r hq)
  rw [prunePass, hfold _ fun r hr => List.mem_dedup.mp hr, Option.map_some, flush_settled h.settled]

end Pass

/-! ### What a pass does to a forest -/

/-- A forest that was pruned: `left` is what is left of a branch. -/
structure PrunedForest (w s s' : TileWorld) (left : Entity → Option Entity) : Prop where
  wellFormed : WellFormed s'
  roots : s'.roots = w.roots
  /-- The live leaves of a tree are left, in their order. -/
  rows : ∀ r ∈ w.roots, ∀ row, w.LeafRow r row → s'.LeafRow r (row.filter (s.liveIn r))
  /-- What is left of a branch is below it, and has its live leaves. -/
  branches : ∀ r ∈ w.roots, ∀ n, w.Ascends n r → ∀ row, w.LeafRow n row →
    left n = none ∧ row.filter (s.liveIn r) = [] ∨
    ∃ t, left n = some t ∧ w.Ascends t n ∧ s'.LeafRow t (row.filter (s.liveIn r))
  /-- What is left of a child takes its place, with the weight of the place. -/
  places : ∀ n c', s'.containers n = some c' → left n = some n ∧
    ∃ c, w.containers n = some c ∧ c' = { c with children := c.heirs left }
  /-- Other containers hand on their only survivor, if there is one; then they are splits. -/
  collapsed : ∀ n c, w.containers n = some c → left n ≠ some n → s'.containers n = none ∧
    c.entities.filterMap left = (left n).toList ∧ ((left n).isSome → c.layout.isSplit = true)
  sizes : ∀ r ∈ w.roots, ∀ n c', s'.containers n = some c' → w.Ascends n r → n ≠ r →
    w.Loses (s.liveIn r) n → (if c'.layout.isSplit then 2 else 1) ≤ c'.children.length
  untouched : ∀ r ∈ w.roots, ∀ n, w.Ascends n r → ¬ w.Loses (s.liveIn r) n → left n = some n ∧
    ∀ m, w.Ascends m n → s'.containers m = w.containers m ∧ (m ≠ n → s'.parents m = w.parents m)
  /-- A second pass changes nothing. -/
  again : ∀ removed changed, s'.pruneRemoved removed changed = some s'

section Forest

variable {w : TileWorld} (h : WellFormed w) {live : Entity → Bool} {s s' : TileWorld}
  (hlive : ∀ r ∈ w.roots, ∀ m, w.Ascends m r → live m = s.liveIn r m)

include h hlive

omit h in
theorem loses_liveIn {r n : Entity} (hr : r ∈ w.roots) (hup : w.Ascends n r) :
    w.Loses live n ↔ w.Loses (s.liveIn r) n := by
  constructor
  · rintro ⟨leaf, hleaf, hbelow, hdead⟩
    exact ⟨leaf, hleaf, hbelow, (hlive r hr leaf (hbelow.trans hup)).symm.trans hdead⟩
  · rintro ⟨leaf, hleaf, hbelow, hdead⟩
    exact ⟨leaf, hleaf, hbelow, (hlive r hr leaf (hbelow.trans hup)).trans hdead⟩

theorem filter_liveIn {r n : Entity} {row : List Entity} (hr : r ∈ w.roots) (hup : w.Ascends n r)
    (hrow : w.LeafRow n row) : row.filter live = row.filter (s.liveIn r) :=
  List.filter_congr fun m hm => hlive r hr m (((h.mem_leafRow hrow).mp hm).2.trans hup)

/-- The leaves of a pruned tree are live. -/
theorem Outcome.kept_live (x : Outcome w s s' live) : ∀ r ∈ s'.roots, ¬ s'.Loses (s'.liveIn r) r := by
  rintro r hr ⟨leaf, hleaf, hup, hdead⟩
  rw [x.roots] at hr
  have h' := x.wellFormed h
  obtain ⟨row, hrow⟩ := h.exists_leafRow r
  have hrow' := x.branch h hrow
  rw [h.survivor_root hr] at hrow'
  obtain ⟨hmem, hlives⟩ := List.mem_filter.mp ((h'.mem_leafRow hrow').mpr ⟨hleaf, hup⟩)
  obtain ⟨hnone, hbelow⟩ := (h.mem_leafRow hrow).mp hmem
  rw [hlive r hr leaf hbelow, liveIn, ← x.windows leaf hnone, ← liveIn, hdead] at hlives
  cases hlives

/-- **What an outcome means for the forest.** -/
theorem Outcome.prunedForest (x : Outcome w s s' live) : PrunedForest w s s' (w.survivor live) where
  wellFormed := x.wellFormed h
  roots := x.roots
  rows r hr row hrow := by
    have hbranch := x.branch h hrow
    rw [h.survivor_root hr, filter_liveIn h hlive hr .refl hrow] at hbranch
    exact hbranch
  branches r hr n hup row hrow := by
    have hbranch := x.branch h hrow
    rw [filter_liveIn h hlive hr hup hrow] at hbranch
    cases hleft : w.survivor live n with
    | none =>
        rw [hleft] at hbranch
        exact .inl ⟨rfl, hbranch.unique .nil⟩
    | some t =>
        rw [hleft] at hbranch
        exact .inr ⟨t, rfl, h.survivor_ascends n t hleft, hbranch⟩
  places n c' hc' := x.container hc'
  collapsed n c hc hne := by
    have hgone : w.Collapses live n c (w.survivor live) := by
      by_contra hstays
      exact hne (h.survivor_self hc hstays)
    refine ⟨x.gone n fun hnot => hne hnot.2, h.survivor_collapsed hc hgone, fun hsome => ?_⟩
    refine (hgone.2.2.resolve_left fun hnil => ?_).2
    rw [h.survivor_node hc, if_pos hgone, hnil] at hsome
    cases hsome
  sizes r hr n c' hc' hup hne hlost := by
    obtain ⟨hself, c, hc, rfl⟩ := x.container hc'
    have hroot : n ∉ w.roots := by
      intro hn
      rcases hup.cases_head with heq | ⟨p, hp, -⟩
      · exact hne heq
      · exact h.notMem_roots hp hn
    have hstays : ¬ (c.heirs (w.survivor live) = [] ∨
        (c.heirs (w.survivor live)).length = 1 ∧ c.layout.isSplit = true) := fun hcollapses =>
      h.survivor_ne hc ⟨(loses_liveIn hlive hr hup).mpr hlost, hroot, hcollapses⟩ hself
    rw [not_or, not_and_or] at hstays
    have hpos := List.length_pos_iff_ne_nil.mpr hstays.1
    dsimp only
    split_ifs with hsplit
    · have hone := hstays.2.resolve_right (not_not.mpr hsplit)
      omega
    · exact hpos
  untouched r hr n hup hkept := by
    rw [← loses_liveIn hlive hr hup] at hkept
    refine ⟨h.survivor_of_kept hkept, fun m hm => ?_⟩
    have hbelow : ∀ {a}, w.Ascends a n → ¬ w.Loses live a := fun ha ⟨leaf, hleaf, hla, hdead⟩ =>
      hkept ⟨leaf, hleaf, hla.trans ha, hdead⟩
    refine ⟨?_, fun hne => ?_⟩
    · cases hc : w.containers m with
      | none => exact x.gone m fun hnot => by rw [hc] at hnot; cases hnot.1
      | some c =>
          rw [x.kept m c hc (h.survivor_of_kept (hbelow hm)), h.heirs_of_kept hc (hbelow hm)]
    · rcases hm.cases_head with heq | ⟨p, hp, hpn⟩
      · exact absurd heq hne
      · rw [hp]
        exact (x.parents m p).mpr ⟨h.survivor_of_kept (hbelow hpn), m, hp, h.survivor_of_kept (hbelow hm)⟩
  again removed changed := by
    rw [pruneRemoved]
    split_ifs
    · rfl
    · exact prunePass_unchanged (x.wellFormed h) (x.kept_live h hlive)

end Forest

/-- A window that is live in the root above it. -/
def TileWorld.live (w s : TileWorld) (n : Entity) : Bool :=
  match w.rootOf n with
  | some r => s.liveIn r n
  | none => false

/-- **Prune keeps exactly the live leaves** of a well-formed forest, whatever windows have ceased to be
managed by their roots. -/
theorem prune_keeps_exactly_the_live_leaves (w s : TileWorld) (h : WellFormed w) (hs : Ceased w s) :
    ∃ s' left, s.prunePass = some s' ∧ PrunedForest w s s' left := by
  -- the windows do not matter for the forest
  let v : TileWorld := { w with windows := s.windows }
  have hv : WellFormed v :=
    ⟨h.settled, h.root, h.edges, h.nodup, h.weights, h.top,
      h.ranked.imp fun _ hlevel => ⟨hlevel.bound, hlevel.root, hlevel.step⟩, h.spawned⟩
  have hsv : Ceased v s := ⟨hs.containers, hs.roots, hs.history, hs.spawned, hs.settled, hs.parents⟩
  have hlive : ∀ r ∈ v.roots, ∀ m, v.Ascends m r → v.live s m = s.liveIn r m := fun r hr m hm => by
    rw [live, hv.rootOf_eq hr hm]
  have hwindows : s.windows = v.windows := rfl
  obtain ⟨s', hpass, x⟩ := prunePass_outcome hv hwindows hsv fun r hr m hm _ => (hlive r hr m hm).symm
  exact ⟨s', v.survivor (v.live s), hpass,
    { x.prunedForest hv hlive with }⟩

/-- The sample, when its first window is gone. -/
def sampleCeased : TileWorld :=
  { sample with
    windows := update sample.windows 1 {}
    parents := update sample.parents 1 none }

theorem sample_prune_keeps_the_second_window : ∃ s' left,
    sampleCeased.prunePass = some s' ∧ PrunedForest sample sampleCeased s' left := by
  refine prune_keeps_exactly_the_live_leaves sample sampleCeased sample_wellFormed
    ⟨rfl, rfl, rfl, rfl, rfl, fun n => ?_⟩
  by_cases hn : n = 1
  · subst hn
    exact .inr ⟨rfl, rfl, fun _ => rfl⟩
  · exact .inl (Function.update_of_ne hn ..)

end Tile
