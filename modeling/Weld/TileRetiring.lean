/-
**Containers that are retired.**

When a child leaves a container that holds nothing else, the container is retired; then the one that held
it may be empty as well, and so on up to a container that stays.  `Vacated` says which containers
these are, in terms of the tree before the edit.  The loop of the source runs in the middle of an edit,
so its result is described for every world that agrees with the tree before, above the place where the
child left.

Main definitions: `TileContainer.without`, `Vacated`, `Leaves`.

Main results:

* `WellFormed.exists_vacated` — the loop ends;
* `Leaves.retireEmpty_eq` — what the loop does;
* `TileWorld.foldl_despawn` — what becomes of the nodes that are retired.
-/

import Weld.TileRegrouping

namespace Tile

open Function (update)

/-! ### A container that lost some children -/

namespace TileContainer

/-- The container without some of its children. -/
def without (c : TileContainer) (nodes : List Entity) : TileContainer :=
  { c with children := c.children.filter (·.entity ∉ nodes) }

variable {c : TileContainer} {nodes : List Entity} {n : Entity}

theorem without_of_notMem (h : ∀ n ∈ nodes, n ∉ c.entities) : c.without nodes = c := by
  rw [without]
  congr 1
  exact List.filter_eq_self.mpr fun child hchild =>
    decide_eq_true fun hn => h child.entity hn (entity_mem hchild)

theorem without_nil (c : TileContainer) : c.without [] = c := without_of_notMem nofun

theorem without_without (c : TileContainer) (nodes others : List Entity) :
    (c.without nodes).without others = c.without (nodes ++ others) := by
  rw [without, without, without]
  congr 1
  rw [List.filter_filter]
  refine List.filter_congr fun child _ => ?_
  simp only [List.mem_append, not_or, Bool.decide_and]
  exact Bool.and_comm ..

theorem entities_without (c : TileContainer) (nodes : List Entity) :
    (c.without nodes).entities = c.entities.filter (· ∉ nodes) := by
  rw [entities, without, entities, List.filter_map]
  rfl

theorem mem_entities_without : n ∈ (c.without nodes).entities ↔ n ∈ c.entities ∧ n ∉ nodes := by
  rw [entities_without, List.mem_filter, decide_eq_true_eq]

theorem without_children_nil (hnodup : c.entities.Nodup)
    (hn : n ∈ c.entities) : (c.without [n]).children = [] ↔ c.entities = [n] := by
  rw [← entities_nil_iff, List.eq_nil_iff_forall_not_mem]
  simp only [mem_entities_without, List.mem_singleton, not_and, not_not]
  constructor
  · intro hall
    obtain ⟨front, back, hsplit⟩ := List.append_of_mem hn
    rw [hsplit] at hnodup hall ⊢
    rw [List.nodup_middle, List.nodup_cons, List.mem_append, not_or] at hnodup
    have hfront : front = [] := List.eq_nil_iff_forall_not_mem.mpr fun m hm =>
      hnodup.1.1 (hall m (List.mem_append_left _ hm) ▸ hm)
    have hback : back = [] := List.eq_nil_iff_forall_not_mem.mpr fun m hm =>
      hnodup.1.2 (hall m (List.mem_append_right _ (List.mem_cons_of_mem _ hm)) ▸ hm)
    rw [hfront, hback, List.nil_append]
  · intro heq m hm
    rw [heq] at hm
    exact List.mem_singleton.mp hm

end TileContainer

open TileContainer

/-! ### Edges that leave their list -/

variable {children : List TileChild} {n : Entity} {index : ℕ} {edge : TileChild}

/-- The first edge to a node, in its list. -/
theorem position_split
    (hnodup : (children.map TileChild.entity).Nodup) (h : position children n = some (index, edge)) :
    ∃ front back, children = front ++ edge :: back ∧ index = front.length ∧ edge.entity = n ∧
      n ∉ front.map TileChild.entity ∧ n ∉ back.map TileChild.entity := by
  have hmem : n ∈ children.map TileChild.entity := by
    rw [position] at h
    cases hfind : children.findIdx? (·.entity = n) with
    | none =>
        rw [hfind] at h
        cases h
    | some i =>
        obtain ⟨hlt, hentity, -⟩ := List.findIdx?_eq_some_iff_getElem.mp hfind
        exact List.mem_map.mpr ⟨children[i], List.getElem_mem hlt, of_decide_eq_true hentity⟩
  obtain ⟨front, w, back, rfl, hfront, hback⟩ := exists_split hmem hnodup
  rw [position_append hfront] at h
  cases h
  exact ⟨front, back, rfl, rfl, rfl, hfront, hback⟩

theorem filter_entity_of_notMem
    (h : n ∉ children.map TileChild.entity) : children.filter (·.entity ≠ n) = children :=
  List.filter_eq_self.mpr fun _ hchild =>
    decide_eq_true fun heq => h (heq ▸ List.mem_map_of_mem hchild)

/-- An edge is removed by its index. -/
theorem eraseIdx_split {front back : List TileChild} (edge : TileChild)
    (hfront : edge.entity ∉ front.map TileChild.entity)
    (hback : edge.entity ∉ back.map TileChild.entity) :
    (front ++ edge :: back).eraseIdx front.length = front ++ back ∧
      (front ++ edge :: back).filter (·.entity ≠ edge.entity) = front ++ back := by
  constructor
  · rw [List.eraseIdx_append_of_length_le (le_refl _), Nat.sub_self, List.eraseIdx_cons_zero]
  · rw [List.filter_append, filter_entity_of_notMem hfront, List.filter_cons_of_neg (by simp),
      filter_entity_of_notMem hback]

variable {node : Entity}

/-- A world in which the edge to a node has left its list. -/
theorem WellFormed.eraseIdx_containers {s : TileWorld} (h : WellFormed s) {source : Entity}
    {container : TileContainer} (hparent : s.parents node = some source)
    (hcontainer : s.containers source = some container)
    (hedge : position container.children node = some (index, edge)) :
    (s.modifyContainer source fun container =>
      { container with children := container.children.eraseIdx index }).containers =
      fun n => (s.containers n).map (·.without [node]) := by
  obtain ⟨front, back, hsplit, rfl, rfl, hfront, hback⟩ :=
    position_split (h.nodup source container hcontainer) hedge
  obtain ⟨herase, hfilter⟩ := eraseIdx_split edge hfront hback
  funext n
  rw [TileWorld.modifyContainer]
  dsimp only
  by_cases hn : n = source
  · subst hn
    rw [Function.update_self, hcontainer, Option.map_some, Option.map_some, without]
    congr 2
    rw [hsplit, herase, ← hfilter]
    exact List.filter_congr fun child _ => by simp only [List.mem_singleton]
  · rw [Function.update_of_ne hn]
    cases hc : s.containers n with
    | none => rfl
    | some c =>
        refine congrArg some (without_of_notMem fun m hm hlisted => hn ?_).symm
        cases List.mem_singleton.mp hm
        exact Option.some.inj (((h.edges _ n).mpr ⟨c, hc, hlisted⟩).symm.trans hparent)

/-! ### The containers that are empty -/

/-- The containers that are empty, one after the other, once `child` has left `node`. -/
inductive Vacated (s : TileWorld) (stays : Entity → Prop) : Entity → Entity → List Entity → Prop
  | stop {child node : Entity}
      (h : stays node ∨ ∃ c, s.containers node = some c ∧ c.entities ≠ [child]) :
      Vacated s stays child node []
  | step {child node outer : Entity} {c : TileContainer} {rest : List Entity} (hnode : ¬ stays node)
      (hc : s.containers node = some c) (honly : c.entities = [child])
      (hparent : s.parents node = some outer) (hrest : Vacated s stays node outer rest) :
      Vacated s stays child node (node :: rest)

section Vacating

variable {s : TileWorld} {stays : Entity → Prop}

/-- The loop ends, at a container that stays at the latest. -/
theorem WellFormed.exists_vacated (h : WellFormed s) {top : Entity} (hup : s.Ascends node top)
    (htop : stays top) (hnode : (s.containers node).isSome) (child : Entity) :
    ∃ vacated, Vacated s stays child node vacated := by
  induction hup using Relation.ReflTransGen.head_induction_on generalizing child with
  | refl => exact ⟨[], .stop (.inl htop)⟩
  | @head node outer hparent _ ih =>
      obtain ⟨c, hc⟩ := Option.isSome_iff_exists.mp hnode
      obtain ⟨d, hd, -⟩ := (h.edges node outer).mp hparent
      obtain ⟨rest, hrest⟩ := ih (by rw [hd]; rfl) node
      by_cases hstays : stays node
      · exact ⟨[], .stop (.inl hstays)⟩
      · by_cases honly : c.entities = [child]
        · exact ⟨node :: rest, .step hstays hc honly hparent hrest⟩
        · exact ⟨[], .stop (.inr ⟨c, hc, honly⟩)⟩

variable {vacated : List Entity} {n : Entity}

/-- What is retired is a container above the place, and does not stay. -/
theorem Vacated.mem {child : Entity} (h : Vacated s stays child node vacated) (hn : n ∈ vacated) :
    ¬ stays n ∧ s.Ascends node n ∧ (∃ p, s.parents n = some p) ∧ ∃ c, s.containers n = some c := by
  induction h with
  | stop => cases hn
  | step hnode hc _ hparent _ ih =>
      rcases List.mem_cons.mp hn with rfl | hrest
      · exact ⟨hnode, .refl, ⟨_, hparent⟩, _, hc⟩
      · obtain ⟨hstays, hascends, hup⟩ := ih hrest
        exact ⟨hstays, .head hparent hascends, hup⟩

/-- What a container held that is retired is gone as well. -/
theorem Vacated.child_mem {child : Entity} (hv : Vacated s stays child node vacated) (h : WellFormed s)
    {p : Entity} (hp : s.parents n = some p) (hmem : p ∈ vacated) : n ∈ child :: vacated := by
  induction hv with
  | stop => cases hmem
  | step _ hc honly _ _ ih =>
      rcases List.mem_cons.mp hmem with rfl | hrest
      · obtain ⟨d, hd, hlisted⟩ := (h.edges n p).mp hp
        cases hc.symm.trans hd
        rw [honly] at hlisted
        exact List.mem_cons.mpr (.inl (List.mem_singleton.mp hlisted))
      · exact List.mem_cons_of_mem _ (ih hrest)

end Vacating

/-! ### The loop -/

/-- In the middle of an edit, `child` has left `node`, and what is above is as it was. -/
structure Leaves (s s₁ : TileWorld) (kept : Entity → Bool) (stays : Entity → Prop)
    (child node : Entity) : Prop where
  parents : ∀ a, s.Ascends node a → s₁.parents a = s.parents a
  inner : ∀ a, s.Ascends node a → ¬ stays a → s₁.containers a = (s.containers a).map (·.without [child])
  stay : ∀ a, kept a = true → stays a
  full : ∀ a, s.Ascends node a → stays a → kept a = true ∨
    ∃ c, s₁.containers a = some c ∧ ∃ n ∈ c.entities, ¬ s.Ascends node n
  listed : ∀ a, s.Ascends node a → ∀ n c, s₁.containers n = some c → a ∈ c.entities →
    s.parents a = some n

namespace Leaves

variable {s s₁ : TileWorld} {kept : Entity → Bool} {stays : Entity → Prop} {child node outer : Entity}

/-- The world after one round of the loop. -/
def round (s₁ : TileWorld) (node outer : Entity) : TileWorld :=
  TileWorld.defer { s₁.modifyContainer outer (fun c =>
        { c with children := c.children.filter (·.entity ≠ node) }) with
      history := replaceHistory s₁.history node none }
    (.despawn node)

theorem round_containers (n : Entity) : (round s₁ node outer).containers n =
    if n = outer then (s₁.containers n).map (·.without [node]) else s₁.containers n := by
  rw [round, TileWorld.defer, TileWorld.modifyContainer]
  dsimp only
  split_ifs with hn
  · subst hn
    rw [Function.update_self]
    congr 1
    funext c
    rw [without]
    congr 1
    exact List.filter_congr fun edge _ => by simp only [List.mem_singleton]
  · rw [Function.update_of_ne hn]

theorem round_leaves (x : Leaves s s₁ kept stays child node) (h : WellFormed s)
    (hchild : s.parents child = some node) (hparent : s.parents node = some outer) :
    Leaves s (round s₁ node outer) kept stays node outer := by
  obtain ⟨level, hlevel⟩ := h.ranked
  have hup : ∀ {a}, s.Ascends outer a → s.Ascends node a := fun hascends => .head hparent hascends
  have hlow : ∀ {a}, s.Ascends outer a → a ≠ node := fun hascends heq =>
    hlevel.not_ascends_parent hparent (heq ▸ hascends)
  refine ⟨fun a ha => x.parents a (hup ha), fun a ha hstays => ?_, x.stay, fun a ha hstays => ?_,
    fun a ha n c hc hlisted => ?_⟩
  · rw [round_containers, x.inner a (hup ha) hstays]
    cases hc : s.containers a with
    | none => split_ifs <;> rfl
    | some c =>
        have hforeign : c.without [child] = c := by
          refine without_of_notMem fun n hn hlisted => ?_
          cases List.mem_singleton.mp hn
          exact hlow ha (Option.some.inj (((h.edges child a).mpr ⟨c, hc, hlisted⟩).symm.trans hchild))
        rw [Option.map_some, Option.map_some, hforeign]
        split_ifs with ha'
        · rfl
        · refine congrArg some (without_of_notMem fun n hn hlisted => ?_).symm
          cases List.mem_singleton.mp hn
          exact ha' (Option.some.inj (((h.edges node a).mpr ⟨c, hc, hlisted⟩).symm.trans hparent))
  · refine (x.full a (hup ha) hstays).imp id ?_
    rintro ⟨c, hc, n, hn, hbelow⟩
    rw [round_containers, hc]
    have hne : n ≠ node := fun heq => hbelow (heq ▸ .refl)
    have hbelow' : ¬ s.Ascends outer n := fun hascends => hbelow (hup hascends)
    split_ifs
    · exact ⟨_, rfl, n, mem_entities_without.mpr
        ⟨hn, fun heq => hne (List.mem_singleton.mp heq)⟩, hbelow'⟩
    · exact ⟨c, rfl, n, hn, hbelow'⟩
  · rw [round_containers] at hc
    split_ifs at hc with hn
    · obtain ⟨d, hd, rfl⟩ := Option.map_eq_some_iff.mp hc
      exact x.listed a (hup ha) n d hd (mem_entities_without.mp hlisted).1
    · exact x.listed a (hup ha) n c hc hlisted

/-- **What the loop does.** -/
theorem retireEmpty_eq {level : Entity → ℕ} {vacated : List Entity} (h : WellFormed s)
    (hlevel : Ranked s level) (hv : Vacated s stays child node vacated) :
    ∀ {s₁ : TileWorld} {fuel : ℕ}, Leaves s s₁ kept stays child node → s.parents child = some node →
      level node < fuel →
      TileWorld.retireEmpty kept fuel s₁ node =
        { s₁ with
          containers := fun n => (s₁.containers n).map (·.without vacated)
          history := s₁.history.filter (· ∉ vacated)
          commands := s₁.commands ++ vacated.map .despawn } := by
  induction hv with
  | @stop child node hstop =>
      intro s₁ fuel x hchild hfuel
      have hsame : ({ s₁ with
          containers := fun n => (s₁.containers n).map (·.without [])
          history := s₁.history.filter (· ∉ ([] : List Entity))
          commands := s₁.commands ++ ([] : List Entity).map .despawn } : TileWorld) = s₁ := by
        simp only [without_nil, Option.map_id', List.not_mem_nil, not_false_eq_true,
          decide_true, List.filter_true, List.map_nil, List.append_nil]
      rw [hsame]
      obtain ⟨fuel, rfl⟩ : ∃ k, fuel = k + 1 := ⟨fuel - 1, by omega⟩
      rw [TileWorld.retireEmpty]
      split_ifs with hkept
      · rfl
      · have hfull : ∀ c, s₁.containers node = some c → c.children ≠ [] := by
          intro c hc hempty
          by_cases hstays : stays node
          · obtain ⟨d, hd, n, hn, -⟩ := (x.full node .refl hstays).resolve_left hkept
            cases hc.symm.trans hd
            rw [entities_nil_iff.mpr hempty] at hn
            cases hn
          · obtain ⟨d, hd, honly⟩ := hstop.resolve_left hstays
            rw [x.inner node .refl hstays, hd] at hc
            cases hc
            obtain ⟨e, he, hlisted⟩ := (h.edges child node).mp hchild
            cases hd.symm.trans he
            exact honly ((without_children_nil (h.nodup node d hd) hlisted).mp hempty)
        cases hc : s₁.containers node with
        | none => rfl
        | some c =>
            cases s₁.parents node with
            | none => rfl
            | some p => exact if_neg (hfull c hc)
  | @step child node outer c rest hnode hc honly hparent hrest ih =>
      intro s₁ fuel x hchild hfuel
      obtain ⟨fuel, rfl⟩ : ∃ k, fuel = k + 1 := ⟨fuel - 1, by omega⟩
      have hkept : ¬ kept node = true := fun hkept => hnode (x.stay node hkept)
      have hc₁ : s₁.containers node = some (c.without [child]) := by
        rw [x.inner node .refl hnode, hc]
        rfl
      have hempty : (c.without [child]).children = [] :=
        (without_children_nil (h.nodup node c hc)
          (by rw [honly]; exact List.mem_singleton_self child)).mpr honly
      have hround : TileWorld.retireEmpty kept (fuel + 1) s₁ node =
          TileWorld.retireEmpty kept fuel (round s₁ node outer) outer := by
        rw [TileWorld.retireEmpty, if_neg hkept]
        simp only [hc₁, x.parents node .refl, hparent, if_pos hempty]
        rfl
      have hstep := hlevel.step node outer hparent
      rw [hround, ih (x.round_leaves h hchild hparent) hparent (by omega)]
      have hcontainers : (fun n => ((round s₁ node outer).containers n).map (·.without rest)) =
          fun n => (s₁.containers n).map (·.without (node :: rest)) := by
        funext n
        rw [round_containers]
        split_ifs with hn
        · rw [Option.map_map]
          congr 1
          funext d
          exact d.without_without [node] rest
        · cases hd : s₁.containers n with
          | none => rfl
          | some d =>
              have hforeign : d.without [node] = d := by
                refine without_of_notMem fun m hm hlisted => hn ?_
                cases List.mem_singleton.mp hm
                exact Option.some.inj ((x.listed node .refl n d hd hlisted).symm.trans hparent)
              rw [Option.map_some, Option.map_some, ← List.singleton_append, ← d.without_without,
                hforeign]
      have hhistory : (round s₁ node outer).history.filter (· ∉ rest) =
          s₁.history.filter (· ∉ node :: rest) := by
        change (replaceHistory s₁.history node none).filter (· ∉ rest) = _
        rw [replaceHistory_none, List.filter_filter]
        refine List.filter_congr fun n _ => ?_
        simp only [List.mem_cons, not_or, Bool.decide_and]
        exact Bool.and_comm ..
      have hcommands : (round s₁ node outer).commands ++ rest.map .despawn =
          s₁.commands ++ (node :: rest).map .despawn := by
        change s₁.commands ++ [.despawn node] ++ rest.map .despawn = _
        rw [List.append_assoc, List.singleton_append, List.map_cons]
      rw [hcontainers, hhistory, hcommands]
      rfl

end Leaves

/-! ### The nodes that are retired -/

/-- One more node is forgotten. -/
theorem forget_update {β : Type*} (f : Entity → β) (gone : β) (node : Entity) (nodes : List Entity) :
    (fun n => if n ∈ nodes then gone else update f node gone n) =
      fun n => if n ∈ node :: nodes then gone else f n := by
  funext n
  by_cases hn : n = node
  · subst hn
    rw [Function.update_self, if_pos List.mem_cons_self, ite_self]
  · rw [Function.update_of_ne hn]
    simp only [List.mem_cons, hn, false_or]

theorem filter_forget (l : List Entity) (node : Entity) (nodes : List Entity) :
    (l.filter (· ≠ node)).filter (· ∉ nodes) = l.filter (· ∉ node :: nodes) := by
  rw [List.filter_filter]
  refine List.filter_congr fun n _ => ?_
  simp only [List.mem_cons, not_or, Bool.decide_and]
  exact Bool.and_comm ..

theorem TileWorld.foldl_despawn (nodes : List Entity) (s : TileWorld) :
    (nodes.map Deferred.despawn).foldl Deferred.apply s =
      { s with
        containers := fun n => if n ∈ nodes then none else s.containers n
        parents := fun n => if n ∈ nodes then none else s.parents n
        rects := fun n => if n ∈ nodes then none else s.rects n
        windows := fun n => if n ∈ nodes then {} else s.windows n
        workspaces := fun n => if n ∈ nodes then none else s.workspaces n
        roots := s.roots.filter (· ∉ nodes) } := by
  induction nodes generalizing s with
  | nil => simp only [List.map_nil, List.foldl_nil, List.not_mem_nil, if_false, not_false_eq_true,
      decide_true, List.filter_true]
  | cons node nodes ih =>
      rw [List.map_cons, List.foldl_cons, ih, Deferred.apply]
      simp only [forget_update, filter_forget]

/-! ### What is left -/

/-- Nodes are taken out of a forest, with everything below them. -/
theorem WellFormed.removed {s s' : TileWorld} (h : WellFormed s) {gone : List Entity}
    (hroots : ∀ r ∈ s.roots, r ∉ gone) (hclosed : ∀ n p, s.parents n = some p → p ∈ gone → n ∈ gone)
    (hcontainers : ∀ n, s'.containers n =
      if n ∈ gone then none else (s.containers n).map (·.without gone))
    (hparents : ∀ n, s'.parents n = if n ∈ gone then none else s.parents n)
    (hroots' : s'.roots = s.roots) (hhistory : ∀ n ∈ s'.history, n ∈ s.history)
    (hspawned : s'.spawned = s.spawned) (hsettled : s'.commands = []) : WellFormed s' := by
  have hcontainer : ∀ {n c'}, s'.containers n = some c' →
      n ∉ gone ∧ ∃ c, s.containers n = some c ∧ c' = c.without gone := by
    intro n c' hc'
    rw [hcontainers] at hc'
    split_ifs at hc' with hn
    obtain ⟨c, hc, rfl⟩ := Option.map_eq_some_iff.mp hc'
    exact ⟨hn, c, hc, rfl⟩
  have hparent : ∀ {n p}, s'.parents n = some p → n ∉ gone ∧ s.parents n = some p := by
    intro n p hp
    rw [hparents] at hp
    split_ifs at hp with hn
    exact ⟨hn, hp⟩
  obtain ⟨level, hlevel⟩ := h.ranked
  refine
    { settled := hsettled
      root := fun r hr => ?_
      edges := fun n p => ⟨fun hp => ?_, ?_⟩
      nodup := fun p c' hc' => ?_
      weights := fun p c' hc' child hchild => ?_
      top := fun n hn hp => ?_
      ranked := ⟨level, hlevel.bound, fun r hr => hlevel.root r (hroots' ▸ hr), fun n p hp =>
        hlevel.step n p (hparent hp).2⟩
      spawned := fun n hn => ?_ }
  · rw [hroots'] at hr
    rw [hcontainers, hparents, if_neg (hroots r hr), if_neg (hroots r hr), Option.isSome_map]
    exact h.root r hr
  · obtain ⟨hn, hp⟩ := hparent hp
    obtain ⟨c, hc, hlisted⟩ := (h.edges n p).mp hp
    refine ⟨c.without gone, ?_, mem_entities_without.mpr ⟨hlisted, hn⟩⟩
    rw [hcontainers, if_neg fun hgone => hn (hclosed n p hp hgone), hc]
    rfl
  · rintro ⟨c', hc', hlisted⟩
    obtain ⟨-, c, hc, rfl⟩ := hcontainer hc'
    obtain ⟨hlisted, hn⟩ := mem_entities_without.mp hlisted
    rw [hparents, if_neg hn]
    exact (h.edges n p).mpr ⟨c, hc, hlisted⟩
  · obtain ⟨-, c, hc, rfl⟩ := hcontainer hc'
    exact (h.nodup p c hc).sublist (List.filter_sublist.map TileChild.entity)
  · obtain ⟨-, c, hc, rfl⟩ := hcontainer hc'
    exact h.weights p c hc child (List.mem_filter.mp hchild).1
  · obtain ⟨c', hc'⟩ := Option.isSome_iff_exists.mp hn
    obtain ⟨hkept, c, hc, -⟩ := hcontainer hc'
    rw [hparents, if_neg hkept] at hp
    rw [hroots']
    exact h.top n (by rw [hc]; rfl) hp
  · rw [hspawned]
    rcases hn with hn | hn | hn
    · obtain ⟨c', hc'⟩ := Option.isSome_iff_exists.mp hn
      obtain ⟨-, c, hc, -⟩ := hcontainer hc'
      exact h.spawned n (.inl (by rw [hc]; rfl))
    · obtain ⟨p, hp⟩ := Option.isSome_iff_exists.mp hn
      exact h.spawned n (.inr (.inl (by rw [(hparent hp).2]; rfl)))
    · exact h.spawned n (.inr (.inr (hhistory n hn)))

end Tile
