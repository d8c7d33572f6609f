/-
**Regrouping keeps leaves and proportions.**

A split, a group around the children of a container, a collapse and a flatten put a container into a
tree or take one out.  For each of them this module says which container is dissolved, seen from the
larger tree; a flatten takes out two, the inner one first.  So the leaves of every root stay, in order,
with their shares.

Main definitions: `TileWorld.midway`, `Keeps`.

Main results:

* `dissolves_nest`, `dissolves_enclose`, `dissolves_collapse`, `dissolves_midway`,
  `dissolves_promote` — the containers that are dissolved;
* `regrouping_preserves_leaves_and_proportions`.
-/

import Mathlib.Algebra.BigOperators.Ring.List
import Mathlib.Algebra.Order.BigOperators.Group.List
import Mathlib.Tactic.FieldSimp
import Mathlib.Tactic.Ring
import Weld.TileDissolving
import Weld.TileHistory

namespace Tile

open TileWorld TileChild TileContainer

open Forest (Frontier weigh bypass scale)
open Function (update)

/-! ### Lists of children -/

variable {n g p window : Entity} {front back : List TileChild} {w : ℚ} {c cg cp cp' : TileContainer}
  {request : TileTreeEdit} {children : List TileChild} {under : List (Entity × ℚ)} {total : ℚ}
  {f : TileContainer → TileContainer} {child : TileChild} {full bare : TileWorld}
  {addressed turned : Option Entity}

/-- A node that is listed once, with what is before and behind it. -/
theorem exists_split
    (hn : n ∈ children.map entity) (hnodup : (children.map entity).Nodup) :
    ∃ front w back, children = front ++ ⟨n, w⟩ :: back ∧ n ∉ front.map entity ∧
      n ∉ back.map entity := by
  obtain ⟨child, hchild, rfl⟩ := List.mem_map.mp hn
  obtain ⟨front, back, rfl⟩ := List.append_of_mem hchild
  rw [List.map_append, List.map_cons] at hnodup
  obtain ⟨-, hrest, hdisjoint⟩ := List.nodup_append'.mp hnodup
  exact ⟨front, child.weight, back, rfl, fun hmem => hdisjoint hmem List.mem_cons_self,
    (List.nodup_cons.mp hrest).1⟩

theorem redirect_append {other : Entity} (hfront : n ∉ front.map entity) :
    redirect (front ++ ⟨n, w⟩ :: back) n other = front ++ ⟨other, w⟩ :: back := by
  induction front with
  | nil => rw [List.nil_append, redirect, if_pos rfl, List.nil_append]
  | cons child front ih =>
      rw [List.map_cons, List.mem_cons, not_or] at hfront
      rw [List.cons_append, redirect, if_neg (Ne.symm hfront.1), ih hfront.2, List.cons_append]

theorem position_append (hfront : n ∉ front.map entity) :
    position (front ++ ⟨n, w⟩ :: back) n = some (front.length, ⟨n, w⟩) := by
  have hindex : (front ++ ⟨n, w⟩ :: back).findIdx? (fun child => child.entity = n) =
      some front.length :=
    findIdx?_split (decide_eq_true rfl) fun child hchild => decide_eq_false fun heq : child.entity = n =>
      hfront (heq ▸ List.mem_map_of_mem hchild)
  rw [position, hindex]
  dsimp only
  rw [List.getElem?_append_right (le_refl _), Nat.sub_self, List.getElem?_cons_zero, Option.map_some]

theorem flatMap_unfoldNode_of_notMem {under ns : List Entity} (h : g ∉ ns) :
    ns.flatMap (unfoldNode g under) = ns := by
  induction ns with
  | nil => rfl
  | cons n ns ih =>
      rw [List.mem_cons, not_or] at h
      rw [List.flatMap_cons, ih h.2, unfoldNode, if_neg (Ne.symm h.1)]
      rfl

/-- The edges of some children, in a container with this total. -/
def weighed (total : ℚ) (children : List TileChild) : List (Entity × ℚ) :=
  children.map fun child => (child.entity, child.weight / total)

theorem shares_eq (c : TileContainer) : shares c = weighed c.total c.children := rfl

theorem flatMap_weighed_of_notMem (h : g ∉ children.map entity) :
    (weighed total children).flatMap (bypass g under) = weighed total children := by
  refine Forest.flatMap_bypass_of_notMem fun edge hedge heq => h ?_
  obtain ⟨child, hchild, rfl⟩ := List.mem_map.mp hedge
  exact heq ▸ List.mem_map_of_mem hchild

theorem weighed_append (total : ℚ) (front back : List TileChild) :
    weighed total (front ++ back) = weighed total front ++ weighed total back := List.map_append

/-- A list of children in which one edge is bypassed. -/
theorem flatMap_weighed_append (hfront : g ∉ front.map entity)
    (hback : g ∉ back.map entity) :
    (weighed total (front ++ ⟨g, w⟩ :: back)).flatMap (bypass g under) =
      weighed total front ++ scale (w / total) under ++ weighed total back := by
  have hcons : weighed total (⟨g, w⟩ :: back) = (g, w / total) :: weighed total back := rfl
  rw [weighed_append, List.flatMap_append, flatMap_weighed_of_notMem hfront, hcons, List.flatMap_cons,
    flatMap_weighed_of_notMem hback, bypass, if_pos rfl, List.append_assoc]

theorem total_pos (hc : ∀ child ∈ c.children, 0 < child.weight)
    (hne : c.children ≠ []) : 0 < c.total := by
  rw [total]
  refine List.sum_pos _ (fun w hw => ?_) fun hempty => hne (List.map_eq_nil_iff.mp hempty)
  obtain ⟨child, hchild, rfl⟩ := List.mem_map.mp hw
  exact hc child hchild

/-! ### The containers that are dissolved -/

variable {container : TileContainer} {node parent : Entity}

section Fresh

variable {s : TileWorld} (h : WellFormed s)

include h

/-- The entity that is spawned next is nowhere. -/
theorem WellFormed.fresh : s.containers s.spawned = none ∧ s.parents s.spawned = none ∧
    s.spawned ∉ s.history ∧ ∀ m c, s.containers m = some c → s.spawned ∉ c.entities := by
  have hparent : s.parents s.spawned = none := by
    cases hp : s.parents s.spawned with
    | none => rfl
    | some p => exact absurd (h.spawned _ (.inr (.inl (by rw [hp]; rfl)))) (lt_irrefl _)
  refine ⟨?_, hparent, fun hmem => absurd (h.spawned _ (.inr (.inr hmem))) (lt_irrefl _), ?_⟩
  · cases hc : s.containers s.spawned with
    | none => rfl
    | some c => exact absurd (h.spawned _ (.inl (by rw [hc]; rfl))) (lt_irrefl _)
  · intro m c hc hmem
    exact absurd (hparent.symm.trans ((h.edges _ m).mpr ⟨c, hc, hmem⟩)) nofun

variable {n : Entity}

theorem WellFormed.ne_spawned_of_container (hc : s.containers n = some c) : n ≠ s.spawned := by
  rintro rfl
  exact absurd (h.fresh.1.symm.trans hc) nofun

theorem WellFormed.root_ne_spawned {r : Entity} (hr : r ∈ s.roots) : r ≠ s.spawned := by
  obtain ⟨c, hc⟩ := Option.isSome_iff_exists.mp (h.root r hr).2
  exact h.ne_spawned_of_container hc

theorem WellFormed.ne_spawned_of_parent (hp : s.parents n = some p) : n ≠ s.spawned := by
  rintro rfl
  exact absurd (h.fresh.2.1.symm.trans hp) nofun

/-- A split puts a container above the window. -/
theorem dissolves_nest (axis : SplitAxis) (hparent : s.parents window = some parent)
    (hcontainer : s.containers parent = some container) (hid : s.nextId < u64Max) :
    Dissolves (s.nest parent window axis).flush s s.spawned parent (s.nested window axis)
      { container with children := redirect container.children window s.spawned } container := by
  have hparentg := h.ne_spawned_of_container hcontainer
  have hwindowg := h.ne_spawned_of_parent hparent
  obtain ⟨hgone, horphan, -, hforeign⟩ := h.fresh
  obtain ⟨c, hc, hlisted⟩ := (h.edges window parent).mp hparent
  cases hcontainer.symm.trans hc
  obtain ⟨front, w, back, hchildren, hfront, -⟩ := exists_split hlisted
    (h.nodup parent container hc)
  have hg := hforeign parent container hc
  rw [entities, hchildren, List.map_append, List.map_cons, List.mem_append,
    List.mem_cons, not_or, not_or] at hg
  rw [nest_flush h.settled hid]
  have hentities : ({ container with children := redirect container.children window s.spawned } :
      TileContainer).entities = front.map entity ++ s.spawned ::
        back.map entity := by
    rw [entities, hchildren, redirect_append hfront, List.map_append, List.map_cons]
  refine ⟨hparentg, Function.update_self .., hgone, ?_, hcontainer, ?_, ?_, ?_, ?_,
    Function.update_self .., horphan, ?_, ?_, rfl⟩
  · dsimp only
    rw [Function.update_of_ne hparentg, Function.update_self, hcontainer, Option.map_some]
  · intro m hmp hmg
    dsimp only
    rw [Function.update_of_ne hmg, Function.update_of_ne hmp]
  · rw [hentities, List.flatMap_append, List.flatMap_cons, flatMap_unfoldNode_of_notMem hg.1,
      flatMap_unfoldNode_of_notMem hg.2.2, unfoldNode, if_pos rfl, entities, hchildren,
      List.map_append]
    rfl
  · rw [hentities]
    exact List.mem_append_right _ List.mem_cons_self
  · intro m other hm hother
    dsimp only at hother
    by_cases hmg : m = s.spawned
    · rw [hmg, Function.update_self] at hother
      cases hother
      exact fun hmem => hwindowg (List.mem_singleton.mp hmem).symm
    · rw [Function.update_of_ne hmg, Function.update_of_ne hm] at hother
      exact hforeign m other hother
  · intro n hn
    obtain rfl := List.mem_singleton.mp hn
    refine ⟨?_, hparent⟩
    dsimp only [nested]
    rw [Function.update_of_ne hwindowg, Function.update_self, hparent, Option.map_some]
  · intro n hng hn
    have hnw : n ≠ window := fun heq => hn (List.mem_singleton.mpr heq)
    dsimp only
    rw [Function.update_of_ne hng, Function.update_of_ne hnw]

/-- A group is put around the children of a container. -/
theorem dissolves_enclose {axis : SplitAxis} (hf : ∀ c : TileContainer, (f c).children = c.children)
    (hcontainer : s.containers node = some container)
    (hdone : (s.enclose node container f axis).2 = true) :
    Dissolves (s.enclose node container f axis).1.flush s s.spawned node (f (s.newGroup container))
      { container.setLayout (.split axis) with children := [⟨s.spawned, 1⟩] } container := by
  have hnodeg := h.ne_spawned_of_container hcontainer
  obtain ⟨hgone, horphan, -, hforeign⟩ := h.fresh
  have hentities : (f (s.newGroup container)).entities = container.entities := by
    rw [entities, hf, newGroup, entities]
  rw [enclose_flush h.settled hdone]
  refine ⟨hnodeg, Function.update_self .., hgone, ?_, hcontainer, ?_, ?_, List.mem_singleton_self _, ?_,
    ?_, horphan, ?_, ?_, rfl⟩
  · dsimp only
    rw [Function.update_of_ne hnodeg, Function.update_self, hcontainer, Option.map_some]
  · intro m hmn hmg
    dsimp only
    rw [Function.update_of_ne hmg, Function.update_of_ne hmn]
  · change container.entities = [s.spawned].flatMap _
    rw [List.flatMap_singleton, unfoldNode, if_pos rfl, hentities]
  · intro m other hm hother
    dsimp only at hother
    by_cases hmg : m = s.spawned
    · rw [hmg, Function.update_self] at hother
      cases hother
      rw [hentities]
      exact hforeign node container hcontainer
    · rw [Function.update_of_ne hmg, Function.update_of_ne hm] at hother
      exact hforeign m other hother
  · dsimp only
    rw [Function.update_self]
  · intro n hn
    rw [hentities] at hn
    have hparent := (h.edges n node).mpr ⟨container, hcontainer, hn⟩
    refine ⟨?_, hparent⟩
    dsimp only
    rw [Function.update_of_ne (h.ne_spawned_of_parent hparent), if_pos hn, hparent, Option.map_some]
  · intro n hng hn
    rw [hentities] at hn
    dsimp only
    rw [Function.update_of_ne hng, if_neg hn]

theorem filter_roots (hp : s.parents n = some p) : s.roots.filter (· ≠ n) = s.roots :=
  List.filter_eq_self.mpr fun _ hr => decide_eq_true fun heq => h.notMem_roots hp (heq ▸ hr)

/-- A unary container is dissolved by a collapse. -/
theorem dissolves_collapse {outer : TileContainer} (hparent : s.parents node = some parent)
    (hcontainer : s.containers node = some container) (hchildren : container.children = [child])
    (houter : s.containers parent = some outer) :
    Dissolves s (s.collapseInto node child.entity parent).flush node parent container outer
      { outer with children := redirect outer.children node child.entity } := by
  obtain ⟨level, hlevel⟩ := h.ranked
  obtain ⟨c, hc, hlisted⟩ := (h.edges node parent).mp hparent
  cases houter.symm.trans hc
  have hne : parent ≠ node := by
    rintro rfl
    have := hlevel.step parent parent hparent
    omega
  have hentities : container.entities = [child.entity] := by
    rw [entities, hchildren, List.map_singleton]
  have hchild : s.parents child.entity = some node :=
    (h.edges _ node).mpr ⟨container, hcontainer, by rw [hentities]; exact List.mem_singleton_self _⟩
  have hchildne : child.entity ≠ node := by
    intro heq
    rw [heq] at hchild
    have := hlevel.step node node hchild
    omega
  obtain ⟨front, w, back, hsplit, hfront, hback⟩ := exists_split hlisted (h.nodup parent outer hc)
  rw [collapseInto_flush h.settled]
  refine ⟨hne, hcontainer, Function.update_self .., houter, ?_, ?_, ?_, hlisted, ?_, hparent,
    Function.update_self .., ?_, ?_, filter_roots h hparent⟩
  · dsimp only
    rw [Function.update_of_ne hne, Function.update_self, houter, Option.map_some]
  · intro m hmp hmn
    dsimp only
    rw [Function.update_of_ne hmn, Function.update_of_ne hmp]
  · rw [hentities]
    dsimp only [entities]
    rw [hsplit, redirect_append hfront, List.map_append, List.map_append, List.map_cons, List.map_cons,
      List.flatMap_append, List.flatMap_cons, flatMap_unfoldNode_of_notMem hfront,
      flatMap_unfoldNode_of_notMem hback, unfoldNode, if_pos rfl]
    rfl
  · intro m other hm hother hmem
    exact hm (Option.some.inj (((h.edges node m).mpr ⟨other, hother, hmem⟩).symm.trans hparent))
  · intro n hn
    rw [hentities] at hn
    obtain rfl := List.mem_singleton.mp hn
    refine ⟨hchild, ?_⟩
    dsimp only
    rw [Function.update_of_ne hchildne, Function.update_self, hchild, Option.map_some]
  · intro n hnn hn
    rw [hentities, List.mem_singleton] at hn
    dsimp only
    rw [Function.update_of_ne hnn, Function.update_of_ne hn]

end Fresh

/-! ### A flatten takes out two containers -/

/-- The inner container is taken out, and its children are below the node. -/
def TileWorld.midway (s : TileWorld) (node inner : Entity) (container lower : TileContainer) :
    TileWorld :=
  { s with
    containers := update (update s.containers node
      (some { container with children := lower.children })) inner none
    parents := fun n =>
      if n ∈ lower.entities then some node else if n = inner then none else s.parents n
    history := replaceHistory s.history inner none }

/-- What a flatten finds: `node` holds `inner` alone, which has the children `lower`. -/
structure Nesting (s : TileWorld) (node inner parent : Entity)
    (container lower destination : TileContainer) : Prop where
  edge : s.parents node = some parent
  group : s.containers node = some container
  unary : container.entities = [inner]
  nested : s.containers inner = some lower
  outer : s.containers parent = some destination

namespace Nesting

variable {s : TileWorld} {node inner parent : Entity} {container lower destination : TileContainer}
  (x : Nesting s node inner parent container lower destination) (h : WellFormed s)

include x h

theorem inner_parent : s.parents inner = some node :=
  (h.edges inner node).mpr ⟨container, x.group, by rw [x.unary]; exact List.mem_singleton_self inner⟩

theorem lower_parent (hn : n ∈ lower.entities) : s.parents n = some inner :=
  (h.edges n inner).mpr ⟨lower, x.nested, hn⟩

theorem ne : inner ≠ node ∧ parent ≠ node ∧ parent ≠ inner ∧ node ∉ lower.entities ∧
    inner ∉ lower.entities := by
  obtain ⟨level, hlevel⟩ := h.ranked
  have hnode := hlevel.step node parent x.edge
  have hinner := hlevel.step inner node (x.inner_parent h)
  refine ⟨?_, ?_, ?_, ?_, ?_⟩
  · rintro rfl
    omega
  · rintro rfl
    omega
  · rintro rfl
    omega
  · intro hmem
    have := hlevel.step node inner (x.lower_parent h hmem)
    omega
  · intro hmem
    have := hlevel.step inner inner (x.lower_parent h hmem)
    omega

/-- First, the inner container is dissolved. -/
theorem dissolves_midway :
    Dissolves s (s.midway node inner container lower) inner node lower container
      { container with children := lower.children } := by
  obtain ⟨hin, -, -, -, hself⟩ := x.ne h
  refine ⟨hin.symm, x.nested, Function.update_self .., x.group, ?_, ?_, ?_, ?_, ?_, x.inner_parent h, ?_,
    ?_, ?_, rfl⟩
  · dsimp only [midway]
    rw [Function.update_of_ne hin.symm, Function.update_self]
  · intro m hmn hmi
    dsimp only [midway]
    rw [Function.update_of_ne hmi, Function.update_of_ne hmn]
  · rw [x.unary, List.flatMap_singleton, unfoldNode, if_pos rfl]
    rfl
  · rw [x.unary]
    exact List.mem_singleton_self inner
  · intro m c hm hc hmem
    exact hm (Option.some.inj (((h.edges inner m).mpr ⟨c, hc, hmem⟩).symm.trans (x.inner_parent h)))
  · dsimp only [midway]
    rw [if_neg hself, if_pos rfl]
  · intro n hn
    exact ⟨x.lower_parent h hn, by dsimp only [midway]; rw [if_pos hn]⟩
  · intro n hni hn
    dsimp only [midway]
    rw [if_neg hn, if_neg hni]

theorem wellFormed_midway : WellFormed (s.midway node inner container lower) := by
  refine (x.dissolves_midway h).wellFormed_bare h h.settled (h.weights inner lower x.nested) rfl ?_
  intro n hn
  rcases mem_of_mem_replaceHistory (show n ∈ replaceHistory s.history inner none from hn) with hmem | hnone
  · exact h.spawned n (.inr (.inr hmem))
  · cases hnone

/-- Then the node is dissolved. -/
theorem dissolves_promote (hsplit : destination.children = front ++ ⟨node, w⟩ :: back)
    (hfront : node ∉ front.map entity) (hback : node ∉ back.map entity) :
    Dissolves (s.midway node inner container lower)
      (s.promote node inner parent front.length (rescale lower w)).flush node parent
      { container with children := lower.children } destination
      { destination with children := front ++ rescale lower w ++ back } := by
  obtain ⟨hin, hpn, hpi, hnode, hself⟩ := x.ne h
  have hidentities : (rescale lower w).map entity = lower.entities := by
    rw [rescale, List.map_map, entities]
    exact List.map_congr_left fun _ _ => rfl
  have htake : destination.children.take front.length = front := by
    rw [hsplit, List.take_left]
  have hdrop : destination.children.drop (front.length + 1) = back := by
    rw [hsplit, List.drop_length_add_append, List.drop_one, List.tail_cons]
  have hroots : (s.roots.filter (· ≠ inner)).filter (· ≠ node) = s.roots := by
    rw [filter_roots h (x.inner_parent h), filter_roots h x.edge]
  rw [promote_flush h.settled, hidentities]
  refine ⟨hpn, ?_, Function.update_self .., ?_, ?_, ?_, ?_, ?_, ?_, ?_, Function.update_self .., ?_, ?_,
    hroots⟩
  · dsimp only [midway]
    rw [Function.update_of_ne hin.symm, Function.update_self]
  · dsimp only [midway]
    rw [Function.update_of_ne hpi, Function.update_of_ne hpn, x.outer]
  · dsimp only
    rw [Function.update_of_ne hpn, Function.update_of_ne hpi, Function.update_self, x.outer,
      Option.map_some, htake, hdrop]
  · intro m hmp hmn
    dsimp only [midway]
    rw [Function.update_of_ne hmn]
    by_cases hmi : m = inner
    · rw [hmi, Function.update_self, Function.update_self]
    · rw [Function.update_of_ne hmi, Function.update_of_ne hmp, Function.update_of_ne hmi,
        Function.update_of_ne hmn]
  · dsimp only [entities]
    rw [hsplit, List.map_append, List.map_append, List.map_append, List.map_cons, List.flatMap_append,
      List.flatMap_cons, flatMap_unfoldNode_of_notMem hfront, flatMap_unfoldNode_of_notMem hback,
      unfoldNode, if_pos rfl, hidentities, List.append_assoc]
    rfl
  · rw [entities, hsplit, List.map_append, List.map_cons]
    exact List.mem_append_right _ List.mem_cons_self
  · intro m c hm hc hmem
    dsimp only [midway] at hc
    by_cases hmi : m = inner
    · rw [hmi, Function.update_self] at hc
      cases hc
    · rw [Function.update_of_ne hmi] at hc
      by_cases hmn : m = node
      · rw [hmn, Function.update_self] at hc
        cases hc
        exact hnode hmem
      · rw [Function.update_of_ne hmn] at hc
        exact hm (Option.some.inj (((h.edges node m).mpr ⟨c, hc, hmem⟩).symm.trans x.edge))
  · dsimp only [midway]
    rw [if_neg hnode, if_neg hin.symm, x.edge]
  · intro n hn
    have hni : n ≠ inner := fun heq => hself (heq ▸ hn)
    have hnn : n ≠ node := fun heq => hnode (heq ▸ hn)
    dsimp only [midway]
    rw [if_pos (show n ∈ lower.entities from hn), Function.update_of_ne hnn, Function.update_of_ne hni,
      if_pos (show n ∈ lower.entities from hn), x.lower_parent h hn, Option.map_some]
    exact ⟨rfl, rfl⟩
  · intro n hnn hn
    dsimp only [midway]
    rw [Function.update_of_ne hnn]
    by_cases hni : n = inner
    · rw [hni, Function.update_self, if_neg hself, if_pos rfl]
    · rw [Function.update_of_ne hni, if_neg (show n ∉ lower.entities from hn),
        if_neg (show n ∉ lower.entities from hn), if_neg hni]

end Nesting

/-! ### Shares -/

theorem sum_weights_append (front back : List TileChild) (child : TileChild) :
    ((front ++ child :: back).map weight).sum =
      (front.map weight).sum + (child.weight + (back.map weight).sum) := by
  rw [List.map_append, List.map_cons, List.sum_append, List.sum_cons]

/-- A unary container hands all of its share to its child. -/
theorem shares_unary (hc : c.children = [⟨n, w⟩]) (hw : 0 < w) : shares c = [(n, 1)] := by
  rw [shares_eq, total, hc, weighed, List.map_singleton, List.map_singleton,
    List.sum_singleton, div_self hw.ne']

/-- One edge of a container leads to a node, and is bypassed. -/
theorem shares_bypass {c' : TileContainer} {under : List TileChild} {edges : List (Entity × ℚ)}
    (hc : c.children = front ++ ⟨g, w⟩ :: back) (hc' : c'.children = front ++ under ++ back)
    (hfront : g ∉ front.map entity) (hback : g ∉ back.map entity)
    (hsum : (under.map weight).sum = w)
    (hunder : weighed c.total under = scale (w / c.total) edges) :
    shares c' = (shares c).flatMap (bypass g edges) := by
  have htotal : c'.total = c.total := by
    rw [total, total, hc, hc', sum_weights_append, List.map_append,
      List.map_append, List.sum_append, List.sum_append, hsum, add_assoc]
  rw [shares_eq, shares_eq, htotal, hc, hc', flatMap_weighed_append hfront hback, weighed_append,
    weighed_append, hunder]

/-- Rescaled children have their shares of the weight. -/
theorem weighed_rescale (c : TileContainer) (w total : ℚ) :
    weighed total (rescale c w) = scale (w / total) (shares c) := by
  rw [weighed, rescale, scale, shares, List.map_map, List.map_map]
  refine List.map_congr_left fun child _ => ?_
  rw [Function.comp_apply, Function.comp_apply]
  congr 1
  ring

theorem sum_rescale (w : ℚ) (hc : c.total ≠ 0) : ((rescale c w).map weight).sum = w := by
  have hmap : (rescale c w).map weight = (c.children.map weight).map (· * (w / c.total)) := by
    rw [rescale, List.map_map, List.map_map]
    exact List.map_congr_left fun _ _ => rfl
  rw [hmap, List.sum_map_mul_right, List.map_id', ← total]
  field_simp

variable {s : TileWorld}

theorem shares_nest (h : WellFormed s) (axis : SplitAxis) (hparent : s.parents window = some parent)
    (hcontainer : s.containers parent = some container) :
    shares container =
      (shares { container with children := redirect container.children window s.spawned }).flatMap
        (bypass s.spawned (shares (s.nested window axis))) := by
  obtain ⟨c, hc, hlisted⟩ := (h.edges window parent).mp hparent
  cases hcontainer.symm.trans hc
  obtain ⟨front, w, back, hchildren, hfront, -⟩ := exists_split hlisted (h.nodup parent container hc)
  have hg := h.fresh.2.2.2 parent container hc
  rw [entities, hchildren, List.map_append, List.map_cons, List.mem_append,
    List.mem_cons, not_or, not_or] at hg
  have hunary : shares (s.nested window axis) = [(window, 1)] := shares_unary rfl one_pos
  rw [hunary]
  refine shares_bypass (by rw [hchildren, redirect_append hfront])
    (hchildren.trans (List.append_cons front ⟨window, w⟩ back)) hg.1 hg.2.2 (List.sum_singleton) ?_
  rw [scale, List.map_singleton, mul_one]
  rfl

theorem shares_enclose (hf : ∀ c : TileContainer, (f c).children = c.children) (axis : SplitAxis) :
    shares container =
      (shares { container.setLayout (.split axis) with children := [⟨s.spawned, 1⟩] }).flatMap
        (bypass s.spawned (shares (f (s.newGroup container)))) := by
  have hchildren : (f (s.newGroup container)).children = container.children := hf _
  have hunary : shares { container.setLayout (.split axis) with children := [⟨s.spawned, 1⟩] } =
      [(s.spawned, 1)] := shares_unary rfl one_pos
  rw [hunary, List.flatMap_singleton, bypass, if_pos rfl, Forest.scale_one, shares_eq, shares_eq,
    total, total, hchildren]

theorem shares_collapse (h : WellFormed s) {outer : TileContainer} (hparent : s.parents node = some parent)
    (hcontainer : s.containers node = some container) (hchildren : container.children = [child])
    (houter : s.containers parent = some outer) :
    shares { outer with children := redirect outer.children node child.entity } =
      (shares outer).flatMap (bypass node (shares container)) := by
  obtain ⟨c, hc, hlisted⟩ := (h.edges node parent).mp hparent
  cases houter.symm.trans hc
  obtain ⟨front, w, back, hsplit, hfront, hback⟩ := exists_split hlisted (h.nodup parent outer hc)
  have hpositive := h.weights node container hcontainer child
    (by rw [hchildren]; exact List.mem_singleton_self child)
  rw [shares_unary hchildren hpositive]
  have hredirected : redirect outer.children node child.entity =
      front ++ [⟨child.entity, w⟩] ++ back := by
    rw [hsplit, redirect_append hfront]
    exact List.append_cons front ⟨child.entity, w⟩ back
  refine shares_bypass hsplit hredirected hfront hback List.sum_singleton ?_
  rw [scale, List.map_singleton, mul_one]
  rfl

theorem shares_midway {lower : TileContainer} (hchildren : container.children = [child])
    (hpositive : 0 < child.weight) : shares { container with children := lower.children } =
      (shares container).flatMap (bypass child.entity (shares lower)) := by
  rw [shares_unary hchildren hpositive, List.flatMap_singleton, bypass, if_pos rfl, Forest.scale_one]
  rfl

theorem shares_promote {lower destination : TileContainer}
    (hsplit : destination.children = front ++ ⟨node, w⟩ :: back)
    (hfront : node ∉ front.map entity) (hback : node ∉ back.map entity)
    (htotal : lower.total ≠ 0) :
    shares { destination with children := front ++ rescale lower w ++ back } =
      (shares destination).flatMap
        (bypass node (shares { container with children := lower.children })) :=
  shares_bypass hsplit rfl hfront hback (sum_rescale w htotal) (weighed_rescale lower w destination.total)

/-- Dissolving a container keeps the leaves and their shares. -/
theorem Dissolves.shares_iff
    (d : Dissolves full bare g p cg cp cp')
    (hshares : shares cp' = (shares cp).flatMap (bypass g (shares cg))) {root : Entity} (hroot : root ≠ g)
    {leaves : List (Entity × ℚ)} : bare.Shares root leaves ↔ full.Shares root leaves :=
  d.frontier_iff picks_shares (fun _ _ _ _ _ => rfl) hshares
    fun n hn => by rw [List.mem_singleton.mp hn]; exact hroot

/-- A container of both worlds is the same one, but for the parent. -/
theorem Dissolves.same (d : Dissolves full bare g p cg cp cp') {c' : TileContainer}
    (hc : full.containers n = some c) (hc' : bare.containers n = some c') :
    c' = c ∨ n = p ∧ c = cp ∧ c' = cp' := by
  by_cases hnp : n = p
  · subst hnp
    exact .inr ⟨rfl, Option.some.inj (hc.symm.trans d.outer), Option.some.inj (hc'.symm.trans d.outer')⟩
  · have hng : n ≠ g := by
      rintro rfl
      exact absurd (d.gone.symm.trans hc') nofun
    exact .inl (Option.some.inj (hc'.symm.trans ((d.rest n hnp hng).trans hc)))

/-! ### What regrouping keeps -/

inductive LayoutKind
  | split
  | tabbed
  | stacked
  deriving DecidableEq, Repr

def TileLayout.kind : TileLayout → LayoutKind
  | split _ => .split
  | tabbed => .tabbed
  | stacked => .stacked

theorem TileLayout.kind_of_isSplit {layout : TileLayout} (h : layout.isSplit = true) :
    layout.kind = .split := by
  cases layout with
  | split axis => rfl
  | tabbed | stacked => cases h

/-- Roots, leaves with their shares, and the kinds and layouts of the containers that survive, but for
what the regrouping addresses or turns. -/
structure Keeps (s s' : TileWorld) (addressed turned : Option Entity) : Prop where
  roots : s'.roots = s.roots
  shares : ∀ root ∈ s.roots, ∃ leaves, s.Shares root leaves ∧ s'.Shares root leaves
  kinds : ∀ n c c', s.containers n = some c → s'.containers n = some c' → addressed ≠ some n →
    c'.layout.kind = c.layout.kind
  layouts : ∀ n c c', s.containers n = some c → s'.containers n = some c' → turned ≠ some n →
    c'.layout = c.layout

variable {s' : TileWorld}

theorem Keeps.congr {s'' : TileWorld} (hk : Keeps s s' addressed turned) (hroots : s''.roots = s'.roots)
    (hcontainers : s''.containers = s'.containers) : Keeps s s'' addressed turned where
  roots := hroots.trans hk.roots
  shares root hroot := by
    obtain ⟨leaves, hs, hs'⟩ := hk.shares root hroot
    have hedges : s''.edgesBy Tile.shares = s'.edgesBy Tile.shares := by
      funext n
      rw [edgesBy, edgesBy, hcontainers]
    refine ⟨leaves, hs, ?_⟩
    rw [Shares, hedges]
    exact hs'
  kinds n c c' hc hc' := hk.kinds n c c' hc (hcontainers ▸ hc')
  layouts n c c' hc hc' := hk.layouts n c c' hc (hcontainers ▸ hc')

theorem Keeps.refl (h : WellFormed s) (addressed turned : Option Entity) :
    Keeps s s addressed turned where
  roots := rfl
  shares root _ := by
    obtain ⟨leaves, hleaves⟩ := h.exists_shares root
    exact ⟨leaves, hleaves, hleaves⟩
  kinds n c c' hc hc' _ := by rw [Option.some.inj (hc'.symm.trans hc)]
  layouts n c c' hc hc' _ := by rw [Option.some.inj (hc'.symm.trans hc)]

/-- A container is put into the forest. -/
theorem Dissolves.keeps_full (d : Dissolves s' s g p cg cp cp') (h : WellFormed s)
    (hshares : Tile.shares cp' = (Tile.shares cp).flatMap (bypass g (Tile.shares cg)))
    (addressed : Option Entity) (hlayout : addressed ≠ some p → cp'.layout = cp.layout) :
    Keeps s s' addressed addressed where
  roots := d.roots.symm
  shares root hroot := by
    obtain ⟨leaves, hleaves⟩ := h.exists_shares root
    have hne : root ≠ g := by
      rintro rfl
      have hcontainer := (h.root root hroot).2
      rw [d.gone] at hcontainer
      cases hcontainer
    exact ⟨leaves, hleaves, (d.shares_iff hshares hne).mp hleaves⟩
  kinds n c c' hc hc' hn := by
    rcases d.same hc' hc with rfl | ⟨rfl, rfl, rfl⟩
    · rfl
    · rw [hlayout hn]
  layouts n c c' hc hc' hn := by
    rcases d.same hc' hc with rfl | ⟨rfl, rfl, rfl⟩
    · rfl
    · rw [hlayout hn]

/-- A container is taken out of the forest. -/
theorem Dissolves.keeps_bare (d : Dissolves s s' g p cg cp cp') (h : WellFormed s)
    (hshares : Tile.shares cp' = (Tile.shares cp).flatMap (bypass g (Tile.shares cg)))
    (addressed : Option Entity) (hlayout : cp'.layout = cp.layout) :
    Keeps s s' addressed addressed where
  roots := d.roots
  shares root hroot := by
    obtain ⟨leaves, hleaves⟩ := h.exists_shares root
    exact ⟨leaves, hleaves, (d.shares_iff hshares (d.root_ne h hroot)).mpr hleaves⟩
  kinds n c c' hc hc' _ := by
    rcases d.same hc hc' with rfl | ⟨rfl, rfl, rfl⟩
    · rfl
    · rw [hlayout]
  layouts n c c' hc hc' _ := by
    rcases d.same hc hc' with rfl | ⟨rfl, rfl, rfl⟩
    · rfl
    · exact hlayout

theorem Keeps.trans {s'' : TileWorld} (hk : Keeps s s' addressed turned)
    (hk' : Keeps s' s'' addressed turned)
    (hsurvive : ∀ n, (s.containers n).isSome → (s''.containers n).isSome → (s'.containers n).isSome) :
    Keeps s s'' addressed turned where
  roots := hk'.roots.trans hk.roots
  shares root hroot := by
    obtain ⟨leaves, hs, hs'⟩ := hk.shares root hroot
    obtain ⟨others, ht, ht'⟩ := hk'.shares root (by rw [hk.roots]; exact hroot)
    cases Frontier.unique hs' ht
    exact ⟨leaves, hs, ht'⟩
  kinds n c c'' hc hc'' hn := by
    obtain ⟨c', hc'⟩ := Option.isSome_iff_exists.mp
      (hsurvive n (by rw [hc]; rfl) (by rw [hc'']; rfl))
    exact (hk'.kinds n c' c'' hc' hc'' hn).trans (hk.kinds n c c' hc hc' hn)
  layouts n c c'' hc hc'' hn := by
    obtain ⟨c', hc'⟩ := Option.isSome_iff_exists.mp
      (hsurvive n (by rw [hc]; rfl) (by rw [hc'']; rfl))
    exact (hk'.layouts n c' c'' hc' hc'' hn).trans (hk.layouts n c c' hc hc' hn)

theorem setLayout_children (container : TileContainer) (layout : TileLayout) :
    (container.setLayout layout).children = container.children := by
  cases layout with
  | split | tabbed | stacked => rfl

/-! ### The edits -/

/-- The last command is carried out last. -/
theorem TileWorld.flush_defer (s : TileWorld) (command : Deferred) :
    (s.defer command).flush = command.apply s.flush := by
  rw [flush, defer, List.foldl_append, List.foldl_cons, List.foldl_nil]
  rfl

theorem TileWorld.flush_settled (h : s.commands = []) : s.flush = s := by
  rw [flush, h, List.foldl_nil, ← h]

/-- Events are published after the edit. -/
theorem TileWorld.applyEdit_of_done (h : (s.edit request).2 = true) :
    s.applyEdit request = { (s.edit request).1.flush with
      events := (s.edit request).1.flush.events ++ [.treeChanged] ++ [.layoutRequested] } := by
  rw [applyEdit]
  dsimp only
  rw [if_pos h, flush_defer, flush_defer]
  rfl

theorem TileWorld.applySplit_eq (s : TileWorld) (window : Entity) (axis : SplitAxis) :
    ∃ events, s.applySplit window axis = { (s.split window axis).flush with events } := by
  rw [applySplit]
  rw [flush_defer]
  split_ifs
  · rw [flush_defer]
    exact ⟨_, rfl⟩
  · exact ⟨_, rfl⟩

section

variable (h : WellFormed s)
include h

/-- A unary split that is turned keeps its children. -/
theorem keeps_prepare (axis : SplitAxis) (hcontainer : s.containers parent = some container)
    (hsplit : container.layout.isSplit = true) :
    Keeps s (s.prepare parent window axis) none (some parent) := by
  have hnew : (s.prepare parent window axis).containers = update s.containers parent
      (some { container.setLayout (.split axis) with preparedSplit := some window }) := by
    simp only [prepare, markDirty, modifyContainer, hcontainer, Option.map_some]
  have hshares : (s.prepare parent window axis).edgesBy shares = s.edgesBy shares := by
    funext n
    rw [edgesBy, edgesBy, hnew]
    by_cases hn : n = parent
    · rw [hn, Function.update_self, hcontainer]
      rfl
    · rw [Function.update_of_ne hn]
  refine ⟨rfl, fun root _ => ?_, fun n c c' hc hc' _ => ?_, fun n c c' hc hc' hn => ?_⟩
  · obtain ⟨leaves, hleaves⟩ := h.exists_shares root
    refine ⟨leaves, hleaves, ?_⟩
    rw [Shares, hshares]
    exact hleaves
  · rw [hnew] at hc'
    by_cases hn : n = parent
    · subst hn
      rw [Function.update_self] at hc'
      cases hc'
      cases hcontainer.symm.trans hc
      exact (TileLayout.kind_of_isSplit hsplit).symm
    · rw [Function.update_of_ne hn, hc] at hc'
      rw [Option.some.inj hc']
  · rw [hnew, Function.update_of_ne fun heq => hn (congrArg some heq.symm), hc] at hc'
    rw [Option.some.inj hc']

theorem keeps_split (axis : SplitAxis) (hroot : window ∉ s.roots) :
    Keeps s (s.applySplit window axis) none (s.parents window) := by
  obtain ⟨events, hevents⟩ := s.applySplit_eq window axis
  suffices hk : Keeps s (s.split window axis).flush none (s.parents window) by
    rw [hevents]
    exact hk.congr rfl rfl
  rcases split_cases axis hroot with hsame | ⟨parent, container, hparent, hcontainer, hsplit,
    hprepare⟩ | ⟨parent, container, ancestors, hparent, hcontainer, -, -, hid, hnest⟩
  · rw [hsame, flush_settled h.settled]
    exact .refl h none _
  · rw [hprepare, hparent, flush_settled
      (show (s.prepare parent window axis).commands = [] from h.settled)]
    exact keeps_prepare h axis hcontainer hsplit
  · rw [hnest]
    have hk := (dissolves_nest h axis hparent hcontainer hid).keeps_full h
      (shares_nest h axis hparent hcontainer) none fun _ => rfl
    exact ⟨hk.roots, hk.shares, hk.kinds, fun n c c' hc hc' _ => hk.layouts n c c' hc hc' nofun⟩

theorem keeps_enclose {axis : SplitAxis} (hf : ∀ c : TileContainer, (f c).children = c.children)
    (hcontainer : s.containers node = some container)
    (hdone : (s.enclose node container f axis).2 = true) :
    Keeps s (s.enclose node container f axis).1.flush (some node) (some node) :=
  (dissolves_enclose h hf hcontainer hdone).keeps_full h (shares_enclose hf axis) (some node)
    fun hne => absurd rfl hne

theorem keeps_collapse (hdone : (s.collapse node).2 = true) :
    Keeps s (s.collapse node).1.flush (some node) (some node) := by
  obtain ⟨parent, container, child, outer, hparent, hcontainer, hchildren, houter, -, heq⟩ :=
    collapse_cases hdone
  rw [heq]
  exact (dissolves_collapse h hparent hcontainer hchildren houter).keeps_bare h
    (shares_collapse h hparent hcontainer hchildren houter) (some node) rfl

/-- A flatten that is carried out finds a container in a container. -/
theorem flatten_nesting (hdone : (s.flatten node).2 = true) :
    ∃ parent container child lower destination front w back,
      Nesting s node child.entity parent container lower destination ∧
      container.children = [child] ∧ lower.children ≠ [] ∧
      (container.layout.isSplit = true ∧ lower.layout.isSplit = true ∧
        lower.layout = destination.layout) ∧
      destination.children = front ++ ⟨node, w⟩ :: back ∧ node ∉ front.map entity ∧
      node ∉ back.map entity ∧
      (s.flatten node).1 = s.promote node child.entity parent front.length (rescale lower w) := by
  obtain ⟨parent, container, child, lower, destination, index, edge, hparent, hcontainer, hchildren,
    hlower, hdestination, hne, hsplit, hsplit', hlayout, hposition, -, heq⟩ :=
    flatten_cases hdone
  obtain ⟨c, hc, hlisted⟩ := (h.edges node parent).mp hparent
  cases hdestination.symm.trans hc
  obtain ⟨front, w, back, hfound, hfront, hback⟩ := exists_split hlisted
    (h.nodup parent destination hc)
  rw [hfound, position_append hfront] at hposition
  cases hposition
  exact ⟨parent, container, child, lower, destination, front, w, back,
    ⟨hparent, hcontainer, by rw [entities, hchildren, List.map_singleton], hlower, hc⟩,
    hchildren, hne, ⟨hsplit, hsplit', hlayout⟩, hfound, hfront, hback, heq⟩

theorem keeps_flatten (hdone : (s.flatten node).2 = true) :
    Keeps s (s.flatten node).1.flush (some node) (some node) := by
  obtain ⟨parent, container, child, lower, destination, front, w, back, x, hchildren, hne, -, hsplit,
    hfront, hback, heq⟩ := flatten_nesting h hdone
  have hpositive := h.weights node container x.group child
    (by rw [hchildren]; exact List.mem_singleton_self child)
  have htotal := total_pos (h.weights _ lower x.nested) hne
  have hmidway := (x.dissolves_midway h).keeps_bare h (shares_midway hchildren hpositive) (some node) rfl
  have hpromote := (x.dissolves_promote h hsplit hfront hback).keeps_bare (x.wellFormed_midway h)
    (shares_promote hsplit hfront hback htotal.ne') (some node) rfl
  rw [heq]
  refine hmidway.trans hpromote fun n _ hn => ?_
  -- what is left in the end is neither the inner container nor the node
  have d := x.dissolves_promote h hsplit hfront hback
  by_cases hnode : n = node
  · rw [hnode, d.gone] at hn
    cases hn
  · by_cases hnp : n = parent
    · rw [hnp, d.outer]
      rfl
    · rw [← d.rest n hnp hnode]
      exact hn

end

/-! ### Edits that are refused -/

theorem moveEdge_refused (s : TileWorld) (node source destination : Entity) (index insertion : ℕ)
    (edge : TileChild) :
    (s.moveEdge node source destination index insertion edge).2 = false →
      (s.moveEdge node source destination index insertion edge).1 = s := by
  rw [moveEdge]
  split
  · exact fun _ => rfl
  · nofun

theorem placeEdge_refused (s : TileWorld) (node anchor source destination : Entity) (side : TileSide) :
    (s.placeEdge node anchor source destination side).2 = false →
      (s.placeEdge node anchor source destination side).1 = s := by
  rw [placeEdge]
  split
  · split
    · exact fun _ => rfl
    · split
      · exact moveEdge_refused _ _ _ _ _ _ _
      · exact fun _ => rfl
  · exact fun _ => rfl

theorem place_refused (s : TileWorld) (node anchor : Entity) (side : TileSide) :
    (s.place node anchor side).2 = false → (s.place node anchor side).1 = s := by
  rw [place]
  split
  · exact fun _ => rfl
  · split
    · split
      · split
        · exact fun _ => rfl
        · exact placeEdge_refused _ _ _ _ _ _
      · exact fun _ => rfl
    · exact fun _ => rfl

theorem enclose_refused (s : TileWorld) (node : Entity) (container : TileContainer)
    (f : TileContainer → TileContainer) (axis : SplitAxis) :
    (s.enclose node container f axis).2 = false → (s.enclose node container f axis).1 = s := by
  rw [enclose]
  split
  · exact fun _ => rfl
  · exact fun h => by cases h

theorem wrapChildren_refused (s : TileWorld) (node : Entity) (axis : SplitAxis) :
    (s.wrapChildren node axis).2 = false → (s.wrapChildren node axis).1 = s := by
  rw [wrapChildren]
  split
  · split
    · exact fun _ => rfl
    · exact enclose_refused _ _ _ _ _
  · exact fun _ => rfl

theorem groupChildren_refused (s : TileWorld) (node : Entity) (layout : TileLayout) :
    (s.groupChildren node layout).2 = false → (s.groupChildren node layout).1 = s := by
  rw [groupChildren]
  split
  · split
    · exact fun _ => rfl
    · exact enclose_refused _ _ _ _ _
  · exact fun _ => rfl

theorem collapse_refused (s : TileWorld) (node : Entity) :
    (s.collapse node).2 = false → (s.collapse node).1 = s := by
  rw [collapse]
  split
  · split
    · split
      · exact fun _ => rfl
      · split
        · nofun
        · exact fun _ => rfl
    · exact fun _ => rfl
  · exact fun _ => rfl

theorem flatten_refused (s : TileWorld) (node : Entity) :
    (s.flatten node).2 = false → (s.flatten node).1 = s := by
  rw [flatten]
  split
  · split
    · split
      · split
        · exact fun _ => rfl
        · split
          · exact fun _ => rfl
          · dsimp only
            split
            · exact fun _ => rfl
            · nofun
      · exact fun _ => rfl
    · exact fun _ => rfl
  · exact fun _ => rfl

/-- An edit that is refused changes nothing. -/
theorem edit_refused (h : (s.edit request).2 = false) : (s.edit request).1 = s := by
  cases request with
  | place node anchor side => exact place_refused s node anchor side h
  | wrapChildren container axis => exact wrapChildren_refused s container axis h
  | groupChildren container layout => exact groupChildren_refused s container layout h
  | collapse container => exact collapse_refused s container h
  | flatten container => exact flatten_refused s container h

theorem TileWorld.applyEdit_of_refused (hsettled : s.commands = []) (h : (s.edit request).2 = false) :
    s.applyEdit request = s := by
  rw [applyEdit]
  dsimp only
  rw [if_neg (by rw [h]; exact Bool.false_ne_true), edit_refused h, flush_settled hsettled]

/-- The container that a regrouping addresses. -/
def TileTreeEdit.regroups : TileTreeEdit → Option Entity
  | .place _ _ _ => none
  | .wrapChildren container _ => some container
  | .groupChildren container _ => some container
  | .collapse container => some container
  | .flatten container => some container

/-- What an edit leaves, before its events. -/
theorem keeps_edit (h : WellFormed s) {container : Entity} (hregroups : request.regroups = some container)
    (hdone : (s.edit request).2 = true) :
    Keeps s (s.edit request).1.flush (some container) (some container) := by
  cases request with
  | place node anchor side => cases hregroups
  | wrapChildren node axis =>
      cases hregroups
      obtain ⟨-, -, found, -, -, hfound, -, -, heq⟩ := wrapChildren_cases hdone
      rw [edit, heq] at hdone ⊢
      exact keeps_enclose h (fun _ => rfl) hfound hdone
  | groupChildren node layout =>
      cases hregroups
      obtain ⟨-, -, found, -, -, hfound, -, -, heq⟩ := groupChildren_cases hdone
      rw [edit, heq] at hdone ⊢
      exact keeps_enclose h (fun group => setLayout_children group layout) hfound hdone
  | collapse node =>
      cases hregroups
      exact keeps_collapse h hdone
  | flatten node =>
      cases hregroups
      exact keeps_flatten h hdone

/-- **Regrouping keeps leaves and proportions**, and an edit that is refused changes nothing. -/
theorem regrouping_preserves_leaves_and_proportions :
    (∀ s : TileWorld, WellFormed s →
      (∀ window axis, window ∉ s.roots →
        Keeps s (s.applySplit window axis) none (s.parents window)) ∧
      ∀ request container, request.regroups = some container → (s.edit request).2 = true →
        Keeps s (s.applyEdit request) (some container) (some container)) ∧
    ∀ (s : TileWorld) (request : TileTreeEdit), (s.edit request).2 = false →
      (s.edit request).1 = s := by
  refine ⟨fun s h => ⟨fun window axis hroot => keeps_split h axis hroot,
    fun request container hregroups hdone => ?_⟩, fun s request => edit_refused⟩
  rw [applyEdit_of_done hdone]
  exact (keeps_edit h hregroups hdone).congr rfl rfl

end Tile
