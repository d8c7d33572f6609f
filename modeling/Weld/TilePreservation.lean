/-
**Regrouping keeps the forest well-formed.**

A split and a group add a level, which the checks of the edits leave room for; a collapse and a flatten
take levels away.

Main results:

* `wellFormed_nest`, `wellFormed_enclose`, `wellFormed_collapse`, `wellFormed_promote` — one
  container more, or fewer;
* `WellFormed.applySplit`, `wellFormed_edit` — every split and every regrouping.
-/

import Weld.TileRegrouping

namespace Tile

open TileWorld TileContainer

open Function (update)

/-! ### Weights and listed nodes -/

theorem redirect_weights {children : List TileChild} {n other : Entity}
    (hchildren : ∀ child ∈ children, 0 < child.weight) :
    ∀ child ∈ redirect children n other, 0 < child.weight := by
  induction children with
  | nil => nofun
  | cons first rest ih =>
      intro child hchild
      rw [redirect] at hchild
      have hfirst := hchildren first List.mem_cons_self
      split_ifs at hchild
      · rcases List.mem_cons.mp hchild with rfl | hmem
        · exact hfirst
        · exact hchildren child (List.mem_cons_of_mem first hmem)
      · rcases List.mem_cons.mp hchild with rfl | hmem
        · exact hfirst
        · exact ih (fun c hc => hchildren c (List.mem_cons_of_mem first hc)) child hmem

theorem rescale_weights {c : TileContainer} {w : ℚ} (hc : ∀ child ∈ c.children, 0 < child.weight)
    (hw : 0 < w) : ∀ child ∈ rescale c w, 0 < child.weight := by
  intro child hchild
  obtain ⟨old, hold, rfl⟩ := List.mem_map.mp hchild
  have htotal := total_pos hc (List.ne_nil_of_mem hold)
  exact mul_pos (hc old hold) (div_pos hw htotal)

/-! ### One container more -/

section More

variable {s : TileWorld} (h : WellFormed s)

include h

variable {container : TileContainer}

theorem wellFormed_nest {parent window : Entity} {ancestors : List Entity} (axis : SplitAxis)
    (hparent : s.parents window = some parent) (hcontainer : s.containers parent = some container)
    (hid : s.nextId < u64Max) (hancestry : s.ancestry parent = some ancestors)
    (hwithin : s.withinDepth (maxDepth - ancestors.length) window = true) :
    WellFormed (s.nest parent window axis).flush := by
  have d := dissolves_nest h axis hparent hcontainer hid
  obtain ⟨level, hlevel⟩ := h.ranked
  obtain ⟨found, hfound, -, htree⟩ := h.ancestry_eq hlevel parent
  cases hancestry.symm.trans hfound
  obtain ⟨hlength, -⟩ := htree (h.inTree_parent hparent)
  have hstep := hlevel.step window parent hparent
  have hbound := hlevel.bound window
  -- below the window, there is room for one level
  have hroom : ∀ n, s.Ascends n window → level n < maxDepth := by
    intro n hn
    have hlt := level_lt_of_withinDepth h hlevel hn hwithin
    omega
  have hnodup : ({ container with children := redirect container.children window s.spawned } :
      TileContainer).entities.Nodup := by
    obtain ⟨c, hc, hlisted⟩ := (h.edges window parent).mp hparent
    cases hcontainer.symm.trans hc
    have hold := h.nodup parent container hc
    obtain ⟨front, w, back, hchildren, hfront, -⟩ := exists_split hlisted hold
    have hg := h.fresh.2.2.2 parent container hc
    rw [entities, hchildren, List.map_append, List.map_cons] at hold hg
    rw [entities, hchildren, redirect_append hfront, List.map_append, List.map_cons]
    obtain ⟨hf, hb, hdisjoint⟩ := List.nodup_append'.mp hold
    rw [List.mem_append, List.mem_cons, not_or, not_or] at hg
    refine List.nodup_append'.mpr ⟨hf, List.nodup_cons.mpr ⟨hg.2.2, (List.nodup_cons.mp hb).2⟩, ?_⟩
    intro n hn hmem
    rcases List.mem_cons.mp hmem with rfl | hmem
    · exact hg.1 hn
    · exact hdisjoint hn (List.mem_cons_of_mem window hmem)
  have hflush := nest_flush h.settled hid parent window axis
  refine d.wellFormed_full h ?_ hnodup ?_ ⟨level, hlevel, by omega, ?_⟩ ?_ ?_ ?_
  · rw [hflush]
    exact h.settled
  · rintro c (rfl | rfl) child hchild
    · rw [List.mem_singleton.mp hchild]
      exact one_pos
    · exact redirect_weights (h.weights parent container hcontainer) child hchild
  · intro n k hk hn
    rw [List.mem_singleton.mp hk] at hn
    exact hroom n hn
  · rw [hflush]
    exact Nat.lt_succ_self _
  · rw [hflush]
    exact Nat.le_succ _
  · intro n hn
    rw [hflush] at hn ⊢
    rcases mem_of_mem_wrapHistory hn with hmem | rfl
    · exact Nat.lt_succ_of_lt (h.spawned n (.inr (.inr hmem)))
    · exact Nat.lt_succ_self _

theorem wellFormed_enclose {node : Entity} {f : TileContainer → TileContainer} {axis : SplitAxis}
    {depth height : ℕ} (hf : ∀ c : TileContainer, (f c).children = c.children)
    (hdepth : s.depth node = some depth) (hheight : s.height (maxDepth + 1) node = some height)
    (hcontainer : s.containers node = some container) (hroom : depth + height < maxDepth)
    (hdone : (s.enclose node container f axis).2 = true) :
    WellFormed (s.enclose node container f axis).1.flush := by
  have d := dissolves_enclose h hf hcontainer hdone
  obtain ⟨level, hlevel⟩ := h.ranked
  have hlevelnode := h.depth_eq hlevel (WellFormed.inTree_of_depth hdepth)
  cases hdepth.symm.trans hlevelnode
  have hflush := enclose_flush h.settled hdone
  have hentities : (f (s.newGroup container)).entities = container.entities := by
    rw [entities, hf, newGroup, entities]
  refine d.wellFormed_full h ?_ (List.nodup_singleton _) ?_ ⟨level, hlevel, by omega, ?_⟩ ?_ ?_ ?_
  · rw [hflush]
    exact h.settled
  · rintro c (rfl | rfl) child hchild
    · rw [hf] at hchild
      exact h.weights node container hcontainer child hchild
    · rw [List.mem_singleton.mp hchild]
      exact one_pos
  · intro n k hk hn
    rw [hentities] at hk
    have hstep := (h.edges k node).mpr ⟨container, hcontainer, hk⟩
    have hle := level_le_of_height h hlevel (hn.tail hstep) hheight
    omega
  · rw [hflush]
    exact Nat.lt_succ_self _
  · rw [hflush]
    exact Nat.le_succ _
  · intro n hn
    rw [hflush] at hn ⊢
    have hmem : n ∈ s.history ∨ n = s.spawned := by
      change n ∈ s.groupHistory container at hn
      rw [groupHistory] at hn
      split at hn
      · exact mem_of_mem_wrapHistory hn
      · exact .inl hn
    rcases hmem with hmem | rfl
    · exact Nat.lt_succ_of_lt (h.spawned n (.inr (.inr hmem)))
    · exact Nat.lt_succ_self _

end More

/-! ### One container fewer -/

section Fewer

variable {s : TileWorld} (h : WellFormed s)

include h

variable {node parent : Entity} {container : TileContainer}

theorem wellFormed_collapse {outer : TileContainer} {child : TileChild}
    (hparent : s.parents node = some parent) (hcontainer : s.containers node = some container)
    (hchildren : container.children = [child]) (houter : s.containers parent = some outer) :
    WellFormed (s.collapseInto node child.entity parent).flush := by
  have d := dissolves_collapse h hparent hcontainer hchildren houter
  have hedge : s.parents child.entity = some node := (h.edges _ node).mpr
    ⟨container, hcontainer, entity_mem (by rw [hchildren]; exact List.mem_singleton_self child)⟩
  have hflush := collapseInto_flush h.settled node child.entity parent
  refine d.wellFormed_bare h ?_ (redirect_weights (h.weights parent outer houter)) ?_ ?_
  · rw [hflush]
    exact h.settled
  · rw [hflush]
  · intro n hn
    rw [hflush] at hn ⊢
    change n ∈ replaceHistory s.history node (some child.entity) at hn
    rcases mem_of_mem_replaceHistory hn with hmem | heq
    · exact h.spawned n (.inr (.inr hmem))
    · cases heq
      exact h.spawned _ (.inr (.inl (by rw [hedge]; rfl)))

theorem Nesting.wellFormed_promote {inner : Entity} {lower destination : TileContainer}
    (x : Nesting s node inner parent container lower destination) {front back : List TileChild} {w : ℚ}
    (hsplit : destination.children = front ++ ⟨node, w⟩ :: back)
    (hfront : node ∉ front.map TileChild.entity) (hback : node ∉ back.map TileChild.entity) :
    WellFormed (s.promote node inner parent front.length (rescale lower w)).flush := by
  have d := x.dissolves_promote h hsplit hfront hback
  have h' := x.wellFormed_midway h
  have hweights := h.weights parent destination x.outer
  have hw : 0 < w := hweights ⟨node, w⟩ (by
    rw [hsplit]
    exact List.mem_append_right front List.mem_cons_self)
  have hidentities : (rescale lower w).map TileChild.entity = lower.entities := by
    rw [rescale, List.map_map, entities]
    exact List.map_congr_left fun _ _ => rfl
  have hflush := promote_flush h.settled node inner parent front.length (rescale lower w)
  refine d.wellFormed_bare h' ?_ ?_ ?_ ?_
  · rw [hflush]
    exact h.settled
  · intro child hchild
    rcases List.mem_append.mp hchild with hchild | hchild
    · rcases List.mem_append.mp hchild with hchild | hchild
      · exact hweights child (by rw [hsplit]; exact List.mem_append_left _ hchild)
      · exact rescale_weights (h.weights inner lower x.nested) hw child hchild
    · exact hweights child (by
        rw [hsplit]
        exact List.mem_append_right front (List.mem_cons_of_mem _ hchild))
  · rw [hflush]
    rfl
  · intro n hn
    rw [hflush] at hn ⊢
    change n ∈ expandHistory (replaceHistory s.history inner none) node
      ((rescale lower w).map TileChild.entity) at hn
    rcases mem_of_mem_expandHistory hn with hmem | hmem
    · rcases mem_of_mem_replaceHistory hmem with hmem | heq
      · exact h.spawned n (.inr (.inr hmem))
      · cases heq
    · rw [hidentities] at hmem
      exact h.spawned n (.inr (.inl (by rw [x.lower_parent h hmem]; rfl)))

end Fewer

/-! ### Every regrouping -/

/-- What else a world holds does not matter. -/
theorem WellFormed.congr {s s' : TileWorld} (h : WellFormed s)
    (hchildren : ∀ n, (s'.containers n).map children = (s.containers n).map children)
    (hparents : s'.parents = s.parents) (hroots : s'.roots = s.roots)
    (hhistory : s'.history = s.history) (hspawned : s'.spawned = s.spawned)
    (hsettled : s'.commands = []) : WellFormed s' := by
  have hsome : ∀ n, (s'.containers n).isSome = (s.containers n).isSome := by
    intro n
    rw [← Option.isSome_map, hchildren n, Option.isSome_map]
  have hback : ∀ n c', s'.containers n = some c' →
      ∃ c, s.containers n = some c ∧ c.children = c'.children := by
    intro n c' hc'
    have hmap := hchildren n
    rw [hc', Option.map_some] at hmap
    exact Option.map_eq_some_iff.mp hmap.symm
  have hforth : ∀ n c, s.containers n = some c →
      ∃ c', s'.containers n = some c' ∧ c'.children = c.children := by
    intro n c hc
    have hmap := hchildren n
    rw [hc, Option.map_some] at hmap
    exact Option.map_eq_some_iff.mp hmap
  refine ⟨hsettled, ?_, ?_, ?_, ?_, ?_, ?_, ?_⟩
  · intro r hr
    rw [hparents, hsome]
    exact h.root r (hroots ▸ hr)
  · intro n p
    rw [hparents, h.edges]
    constructor
    · rintro ⟨c, hc, hn⟩
      obtain ⟨c', hc', heq⟩ := hforth p c hc
      exact ⟨c', hc', by rw [entities, heq]; exact hn⟩
    · rintro ⟨c', hc', hn⟩
      obtain ⟨c, hc, heq⟩ := hback p c' hc'
      exact ⟨c, hc, by rw [entities, heq]; exact hn⟩
  · intro p c' hc'
    obtain ⟨c, hc, heq⟩ := hback p c' hc'
    rw [entities, ← heq]
    exact h.nodup p c hc
  · intro p c' hc'
    obtain ⟨c, hc, heq⟩ := hback p c' hc'
    rw [← heq]
    exact h.weights p c hc
  · intro n hn htop
    rw [hsome] at hn
    rw [hparents] at htop
    rw [hroots]
    exact h.top n hn htop
  · obtain ⟨level, hlevel⟩ := h.ranked
    exact ⟨level, hlevel.bound, fun r hr => hlevel.root r (hroots ▸ hr),
      fun n p hp => hlevel.step n p (hparents ▸ hp)⟩
  · intro n hn
    rw [hsome, hparents, hhistory] at hn
    rw [hspawned]
    exact h.spawned n hn

section Every

variable {s : TileWorld} (h : WellFormed s)

include h

theorem wellFormed_prepare (parent window : Entity) (axis : SplitAxis) :
    WellFormed (s.prepare parent window axis) := by
  refine h.congr (fun n => ?_) rfl rfl rfl rfl h.settled
  dsimp only [prepare, markDirty, modifyContainer]
  by_cases hn : n = parent
  · rw [hn, Function.update_self, Option.map_map]
    rfl
  · rw [Function.update_of_ne hn]

variable {window container : Entity} {request : TileTreeEdit}

theorem wellFormed_split (axis : SplitAxis) (hroot : window ∉ s.roots) :
    WellFormed (s.split window axis).flush := by
  rcases split_cases axis hroot with hsame | ⟨parent, container, -, -, -, hprepare⟩ |
    ⟨parent, container, ancestors, hparent, hcontainer, hancestry, hwithin, hid, hnest⟩
  · rw [hsame, flush_settled h.settled]
    exact h
  · have hprepared := wellFormed_prepare h parent window axis
    rw [hprepare, flush_settled hprepared.settled]
    exact hprepared
  · rw [hnest]
    exact wellFormed_nest h axis hparent hcontainer hid hancestry hwithin

theorem wellFormed_edit (hregroups : request.regroups = some container)
    (hdone : (s.edit request).2 = true) : WellFormed (s.edit request).1.flush := by
  cases request with
  | place node anchor side => cases hregroups
  | wrapChildren node axis =>
      obtain ⟨depth, height, found, hdepth, hheight, hfound, hroom, -, heq⟩ :=
        wrapChildren_cases hdone
      rw [edit, heq] at hdone ⊢
      exact wellFormed_enclose h (fun _ => rfl) hdepth hheight hfound hroom hdone
  | groupChildren node layout =>
      obtain ⟨depth, height, found, hdepth, hheight, hfound, hroom, -, heq⟩ :=
        groupChildren_cases hdone
      rw [edit, heq] at hdone ⊢
      exact wellFormed_enclose h (fun group => setLayout_children group layout) hdepth hheight hfound
        hroom hdone
  | collapse node =>
      obtain ⟨parent, found, child, outer, hparent, hfound, hchildren, houter, -, heq⟩ :=
        collapse_cases hdone
      rw [edit, heq]
      exact wellFormed_collapse h hparent hfound hchildren houter
  | flatten node =>
      obtain ⟨parent, found, child, lower, destination, front, w, back, x, -, -, -, hsplit, hfront,
        hback, heq⟩ := flatten_nesting h hdone
      rw [edit, heq]
      exact x.wellFormed_promote h hsplit hfront hback

/-- **A split keeps the forest well-formed.** -/
theorem WellFormed.applySplit (axis : SplitAxis) (hroot : window ∉ s.roots) :
    WellFormed (s.applySplit window axis) := by
  obtain ⟨events, hevents⟩ := s.applySplit_eq window axis
  have hsplit := wellFormed_split h axis hroot
  rw [hevents]
  exact hsplit.congr (fun _ => rfl) rfl rfl rfl rfl hsplit.settled

end Every

end Tile
