/-
**The tiling commands keep the forest well-formed, and every window in it.**

In whatever order splits, edits and moves to other workspaces come, done or refused: from a well-formed
forest a well-formed one is reached, with the same roots and leaves.  No window is lost or there twice.

Main definitions: `Retains`, `TileCommand`, `TileWorld.command`.

Main results: `commands_keep_the_forest`, `regroupings_keep_the_shares`.
-/

import Weld.TilePreservation
import Weld.TileTransferred
import Weld.Transition

namespace Tile

open TileWorld TileContainer

/-- A request to one of the observers that rearrange the trees. -/
inductive TileCommand
  | split (window : Entity) (axis : SplitAxis)
  | edit (request : TileTreeEdit)
  | move (event : TileWorkspaceMove)

def TileWorld.command (s : TileWorld) : TileCommand → TileWorld
  | .split window axis => s.applySplit window axis
  | .edit request => s.applyEdit request
  | .move event => s.applyMove event

variable {s : TileWorld} {node anchor source destination : Entity} {container target : TileContainer}
  {index targetIndex : ℕ} {edge mark : TileChild} {side : TileSide}

/-! ### What is retained -/

/-- A node that a container lists and that is no container itself: a window. -/
def TileWorld.Leaf (s : TileWorld) (x : Entity) : Prop :=
  s.containers x = none ∧ (s.parents x).isSome

/-- A well-formed forest with the roots and the leaves of another one. -/
structure Retains (s s' : TileWorld) : Prop where
  wellFormed : WellFormed s'
  roots : s'.roots = s.roots
  leaves : ∀ x, s'.Leaf x ↔ s.Leaf x

theorem Retains.of_eq {s s' : TileWorld} (h : WellFormed s) (heq : s' = s) : Retains s s' := by
  rw [heq]
  exact ⟨h, rfl, fun _ => Iff.rfl⟩

theorem Retains.trans {s s' s'' : TileWorld} (x : Retains s s') (y : Retains s' s'') : Retains s s'' :=
  ⟨y.wellFormed, y.roots.trans x.roots, fun n => (y.leaves n).trans (x.leaves n)⟩

theorem Retains.congr {s s' : TileWorld} (h : WellFormed s)
    (hchildren : ∀ n, (s'.containers n).map children = (s.containers n).map children)
    (hparents : s'.parents = s.parents) (hroots : s'.roots = s.roots)
    (hhistory : s'.history = s.history) (hspawned : s'.spawned = s.spawned)
    (hsettled : s'.commands = []) : Retains s s' := by
  refine ⟨h.congr hchildren hparents hroots hhistory hspawned hsettled, hroots, fun x => ?_⟩
  rw [Leaf, Leaf, hparents, ← Option.map_eq_none_iff, hchildren, Option.map_eq_none_iff]

section

variable {s s' : TileWorld} (h : WellFormed s)

include h

/-- A leaf is below one of the roots. -/
theorem leaf_iff {x : Entity} :
    s.Leaf x ↔ s.containers x = none ∧ ∃ r ∈ s.roots, s.Ascends x r := by
  refine and_congr_right fun hnone => ⟨fun hp => ?_, ?_⟩
  · obtain ⟨r, hr, -, hup⟩ := h.root_eq (.inr hp)
    exact ⟨r, hr, hup⟩
  · rintro ⟨r, hr, hup⟩
    rcases hup.cases_head with rfl | ⟨p, hp, -⟩
    · exact absurd (h.root x hr).2 (by rw [hnone]; exact Bool.false_ne_true)
    · exact Option.isSome_of_mem hp

/-- The leaves with a share are the leaves below the root. -/
theorem mem_shares {root x : Entity} {leaves : List (Entity × ℚ)} (hs : s.Shares root leaves) :
    (∃ w, (x, w) ∈ leaves) ↔ s.containers x = none ∧ s.Ascends x root := by
  have hstep : ∀ {n p : Entity} {w : ℚ}, s.parents n = some p ↔ ∃ v children,
      Forest.weigh (s.edgesBy shares) (p, w) = some children ∧ (n, v) ∈ children := by
    intro n p w
    rw [h.edges]
    constructor
    · rintro ⟨c, hc, hn⟩
      obtain ⟨child, hchild, rfl⟩ := List.mem_map.mp hn
      refine ⟨w * (child.weight / c.total), Forest.scale w (shares c), ?_, ?_⟩
      · rw [Forest.weigh, edgesBy, hc]
        rfl
      · exact List.mem_map_of_mem (List.mem_map_of_mem hchild)
    · rintro ⟨v, children, hkids, hn⟩
      obtain ⟨edges, hedges, rfl⟩ := Option.map_eq_some_iff.mp hkids
      obtain ⟨c, hc, rfl⟩ := Option.map_eq_some_iff.mp hedges
      obtain ⟨edge, hedge, heq⟩ := List.mem_map.mp hn
      obtain ⟨child, hchild, rfl⟩ := List.mem_map.mp hedge
      cases heq
      exact ⟨c, hc, entity_mem hchild⟩
  have hleaf : ∀ w : ℚ, Forest.weigh (s.edgesBy shares) (x, w) = none ↔ s.containers x = none := by
    simp [Forest.weigh, edgesBy]
  constructor
  · rintro ⟨w, hw⟩
    obtain ⟨hnone, node, hnode, hbelow⟩ := hs.mem_iff.mp hw
    cases List.mem_singleton.mp hnode
    have hup : ∀ {a b : Entity × ℚ}, Forest.Below (Forest.weigh (s.edgesBy shares)) a b →
        s.Ascends b.1 a.1 := fun hab => by
      induction hab with
      | refl => exact .refl
      | tail _ hlisted ih => exact .head (hstep.mpr ⟨_, hlisted⟩) ih
    exact ⟨(hleaf w).mp hnone, hup hbelow⟩
  · rintro ⟨hnone, hup⟩
    suffices hbelow : ∃ w, Forest.Below (Forest.weigh (s.edgesBy shares)) (root, 1) (x, w) by
      obtain ⟨w, hbelow⟩ := hbelow
      exact ⟨w, hs.mem_iff.mpr ⟨(hleaf w).mpr hnone, _, List.mem_singleton_self _, hbelow⟩⟩
    clear hnone hleaf
    induction hup using Relation.ReflTransGen.head_induction_on with
    | refl => exact ⟨1, .refl⟩
    | head hp _ ih =>
        obtain ⟨w, hbelow⟩ := ih
        obtain ⟨v, hlisted⟩ := hstep.mp hp
        exact ⟨v, hbelow.tail hlisted⟩

/-- Forests with the same shares have the same leaves. -/
theorem retains_of_shares (h' : WellFormed s') (hroots : s'.roots = s.roots)
    (hshares : ∀ root ∈ s.roots, ∃ leaves, s.Shares root leaves ∧ s'.Shares root leaves) :
    Retains s s' := by
  refine ⟨h', hroots, fun x => ?_⟩
  have hroot : ∀ r ∈ s.roots, (s'.containers x = none ∧ s'.Ascends x r ↔
      s.containers x = none ∧ s.Ascends x r) := fun r hr => by
    obtain ⟨leaves, hs, hs'⟩ := hshares r hr
    rw [← mem_shares h hs, ← mem_shares h' hs']
  rw [leaf_iff h, leaf_iff h', hroots]
  constructor
  · rintro ⟨hnone, r, hr, hup⟩
    exact ((hroot r hr).mp ⟨hnone, hup⟩).imp_right fun hup' => ⟨r, hr, hup'⟩
  · rintro ⟨hnone, r, hr, hup⟩
    exact ((hroot r hr).mpr ⟨hnone, hup⟩).imp_right fun hup' => ⟨r, hr, hup'⟩

end

/-! ### A node is placed -/

variable {s : TileWorld} {node anchor source destination : Entity} {container target : TileContainer}
  {index targetIndex : ℕ} {edge mark : TileChild} {side : TileSide}

/-- Placing a node beside another one transplants it. -/
theorem Moving.transplant
    (x : Moving s node anchor source destination container target index targetIndex edge mark)
    (h : WellFormed s) (hdone : (s.moveEdge node source destination index (insertion source destination
      index targetIndex side) (arriving source destination target edge)).2 = true) :
    ∃ front back vacated, Transplant s (s.moveEdge node source destination index
      (insertion source destination index targetIndex side)
      (arriving source destination target edge)).1.flush node source destination target front back
      (arriving source destination target edge) vacated := by
  obtain ⟨r, hr, -, hup⟩ := h.root_eq (h.inTree_parent x.child)
  have hstays : Stays s destination r := .inl hr
  obtain ⟨vacated, hv⟩ := h.exists_vacated hup hstays (by rw [x.group]; rfl) node
  obtain ⟨front, back, hfilter, hcontainers⟩ := x.rehung_containers h side
  have hfar : destination ∉ vacated := fun hmem => (hv.mem hmem).1 (.inr rfl)
  rw [x.moveEdge_flush h side hv hdone]
  obtain ⟨front', back', hlist, hbeside⟩ : ∃ front' back', front ++ mark :: back = front' ++ back' ∧
      front ++ side.beside (arriving source destination target edge) mark ++ back =
        front' ++ arriving source destination target edge :: back' := by
    cases side with
    | before => exact ⟨front, mark :: back, rfl, by simp [TileSide.beside]⟩
    | after => exact ⟨front ++ [mark], back, by simp, by simp [TileSide.beside]⟩
  refine ⟨front', back', vacated,
    { child := x.child
      outer := x.outer
      apart := x.not_ascends h
      moved := x.arriving_entity h
      list := hfilter.trans hlist
      retired := fun n hn => ⟨fun heq => hfar (heq ▸ hn), (hv.mem hn).2⟩
      closed := fun n p hp hmem => hv.child_mem h hp hmem
      self := ?_
      others := fun n hn => ?_
      parents := fun _ => rfl
      roots := rfl
      history := fun n hn => (List.mem_filter.mp hn).1
      spawned := rfl
      settled := h.settled }⟩
  · dsimp only
    rw [if_neg hfar, hcontainers]
    dsimp only
    rw [if_pos rfl, hbeside, Option.map_some]
  · dsimp only
    rw [hcontainers]
    dsimp only
    rw [if_neg hn, Option.map_map]
    congr 2
    funext c
    exact c.without_without [node] vacated

theorem Transplant.leaves {front back : List TileChild} {vacated : List Entity} {s' : TileWorld}
    (x : Transplant s s' node source destination target front back edge vacated) (n : Entity) :
    s'.Leaf n ↔ s.Leaf n := by
  have hcontainer : n ∈ vacated → s.containers n ≠ none := fun hn hnone => by
    obtain ⟨-, -, -, c, hc⟩ := x.retired n hn
    exact absurd (hnone.symm.trans hc) nofun
  rw [Leaf, Leaf, x.parents]
  by_cases hself : n = destination
  · subst hself
    rw [x.self, x.outer]
    simp
  · rw [x.others n hself]
    by_cases hn : n ∈ vacated
    · simp [hn, hcontainer hn]
    · by_cases hnode : n = node
      · subst hnode
        simp [hn, x.child]
      · simp [hn, Function.update_of_ne hnode]

/-- A node that was placed has room below its new parent. -/
theorem retains_place (h : WellFormed s) (hdone : (s.place node anchor side).2 = true) :
    Retains s (s.place node anchor side).1.flush := by
  obtain ⟨source, destination, container, target, index, targetIndex, edge, mark, x, heq, hmoved⟩ :=
    place_cases hdone
  obtain ⟨front, back, vacated, t⟩ := x.transplant h hmoved
  obtain ⟨level, hlevel⟩ := h.ranked
  obtain ⟨depth, height, hdepth, hheight, hroom⟩ := x.room
  rw [h.depth_eq hlevel (.inr (by rw [x.sibling]; rfl))] at hdepth
  cases hdepth
  have hstep := hlevel.step anchor destination x.sibling
  rw [heq]
  refine ⟨t.wellFormed h hlevel (fun m hm => ?_) (moveEdge_eq hmoved).1, t.roots, t.leaves⟩
  have hbelow := level_le_of_height h hlevel hm hheight
  omega

/-! ### A window is moved to another workspace -/

theorem Transferred.retains {s' : TileWorld} {event : TileWorkspaceMove} {source output moved : Entity}
    {visible : Bool} {leaves : List Entity} (h : WellFormed s)
    (x : Transferred s s' event source output visible moved leaves) : Retains s s' := by
  have h' := x.wellFormed
  refine ⟨h', x.roots, fun n => ⟨fun hn => ?_, fun hn => ?_⟩⟩
  · obtain ⟨hnone, r, hr, hup⟩ := (leaf_iff h').mp hn
    rw [x.roots] at hr
    obtain ⟨row, hrow⟩ := h.exists_leafRow r
    have hold : n ∈ row ∨ n ∈ leaves := by
      by_cases hto : r = event.workspace
      · obtain ⟨left, right, rfl, hrow'⟩ := x.entered row (hto ▸ hrow)
        have hmem := (h'.mem_leafRow hrow').mpr ⟨hnone, hto ▸ hup⟩
        simp only [List.mem_append] at hmem ⊢
        tauto
      · have hmem := (h'.mem_leafRow (x.left r hr hto row hrow)).mpr ⟨hnone, hup⟩
        exact .inl (List.mem_of_mem_filter hmem)
    rcases hold with hmem | hmem
    · obtain ⟨hleaf, hbelow⟩ := (h.mem_leafRow hrow).mp hmem
      exact (leaf_iff h).mpr ⟨hleaf, r, hr, hbelow⟩
    · obtain ⟨hleaf, hbelow⟩ := (h.mem_leafRow x.row).mp hmem
      exact (leaf_iff h).mpr ⟨hleaf, source, x.departed.1, hbelow.trans x.departed.2.1⟩
  · obtain ⟨hnone, r, hr, hup⟩ := (leaf_iff h).mp hn
    obtain ⟨row, hrow⟩ := h.exists_leafRow r
    have hmem := (h.mem_leafRow hrow).mpr ⟨hnone, hup⟩
    by_cases hleaves : n ∈ leaves
    · obtain ⟨hleaf, hbelow⟩ := (h'.mem_leafRow x.row').mp hleaves
      refine ⟨hleaf, ?_⟩
      rcases hbelow.cases_head with rfl | ⟨p, hp, -⟩
      · obtain ⟨_, _, _, _, _, -, -, -, -, hp⟩ := x.slot
        exact Option.isSome_of_mem hp
      · exact Option.isSome_of_mem hp
    · refine (leaf_iff h').mpr ?_
      rw [x.roots]
      by_cases hto : r = event.workspace
      · obtain ⟨left, right, rfl, hrow'⟩ := x.entered row (hto ▸ hrow)
        have hmem' : n ∈ left ++ leaves ++ right := by
          simp only [List.mem_append] at hmem ⊢
          tauto
        obtain ⟨hleaf, hbelow⟩ := (h'.mem_leafRow hrow').mp hmem'
        exact ⟨hleaf, r, hr, hto ▸ hbelow⟩
      · obtain ⟨hleaf, hbelow⟩ := (h'.mem_leafRow (x.left r hr hto row hrow)).mp
          (List.mem_filter.mpr ⟨hmem, by simpa using hleaves⟩)
        exact ⟨hleaf, r, hr, hbelow⟩

/-! ### Runs -/

theorem retains_command (h : WellFormed s) (command : TileCommand) :
    Retains s (s.command command) := by
  cases command with
  | split window axis =>
      by_cases hroot : window ∈ s.roots
      · obtain ⟨events, hevents⟩ := s.applySplit_eq window axis
        obtain ⟨container, hcontainer⟩ := Option.isSome_iff_exists.mp (h.root window hroot).2
        change Retains s (s.applySplit window axis)
        rw [hevents, split, if_pos hroot, hcontainer]
        dsimp only
        rw [flush_settled (by exact h.settled)]
        refine .congr h (fun n => ?_) rfl rfl rfl rfl h.settled
        dsimp only [markDirty, modifyContainer]
        by_cases hn : n = window
        · rw [hn, Function.update_self, hcontainer]
          exact congrArg some (setLayout_children container _)
        · rw [Function.update_of_ne hn]
      · have hk := keeps_split h axis hroot
        exact retains_of_shares h (h.applySplit axis hroot) hk.roots hk.shares
  | edit request =>
      change Retains s (s.applyEdit request)
      cases hdone : (s.edit request).2 with
      | false => exact .of_eq h (applyEdit_of_refused h.settled hdone)
      | true =>
          rw [applyEdit_of_done hdone]
          suffices hedit : Retains s (s.edit request).1.flush from hedit.trans
            (.congr hedit.wellFormed (fun _ => rfl) rfl rfl rfl rfl hedit.wellFormed.settled)
          cases hregroups : request.regroups with
          | some container =>
              have hk := keeps_edit h hregroups hdone
              exact retains_of_shares h (wellFormed_edit h hregroups hdone) hk.roots hk.shares
          | none =>
              cases request with
              | place node anchor side => exact retains_place h hdone
              | _ => cases hregroups
  | move event =>
      change Retains s (s.applyMove event)
      by_cases hfloating : ∃ source, s.departure event.window = some (source, true)
      · obtain ⟨source, hfloating⟩ := hfloating
        rw [applyMove, moveWindow, hfloating]
        dsimp only
        by_cases hrefused : source ∉ s.roots ∨ source = event.workspace ∨ event.workspace ∉ s.roots
        · rw [if_pos hrefused]
          exact Retains.of_eq h (flush_settled h.settled)
        · rw [if_neg hrefused]
          split
          · simp only [moveFloating, if_true, flush, defer, h.settled, List.nil_append,
              List.cons_append, List.foldl_cons, List.foldl_nil, Deferred.apply]
            exact .congr h (fun _ => rfl) rfl rfl rfl rfl rfl
          · exact Retains.of_eq h (flush_settled h.settled)
      · rcases transferred_of_tiled h (not_exists.mp hfloating) with hsame | ⟨_, _, _, _, _, hdone⟩
        · exact Retains.of_eq h hsame
        · exact hdone.retains h

/-- **Every run of commands keeps the forest**: it stays well-formed, so that every node is listed once
at most and no tree is too deep, and it keeps its roots and exactly the windows that it had. -/
theorem commands_keep_the_forest (s : TileWorld) (h : WellFormed s) (commands : List TileCommand) :
    Retains s (Transition.exec command s commands) :=
  Transition.exec_invariant (P := Retains s)
    (fun _ command x => x.trans (retains_command x.wellFormed command)) (.of_eq h rfl) commands

/-- A unary split waits for a window, but its own is placed elsewhere, and all is wrapped. -/
theorem sample_commands : Retains sample (Transition.exec command sample
    [.split 3 .vertical, .edit (.place 3 1 .after), .edit (.wrapChildren 0 .vertical)]) :=
  commands_keep_the_forest sample sample_wellFormed _

/-- A command that changes no leaf: a split of what is not a root, or a regrouping. -/
def TileCommand.Regroups (s : TileWorld) : TileCommand → Prop
  | .split window _ => window ∉ s.roots
  | .edit request => request.regroups.isSome
  | .move _ => False

theorem shares_command (h : WellFormed s) {command : TileCommand} (hcommand : command.Regroups s) :
    ∀ root ∈ s.roots, ∃ leaves, s.Shares root leaves ∧ (s.command command).Shares root leaves := by
  cases command with
  | split window axis => exact (keeps_split h axis hcommand).shares
  | edit request =>
      obtain ⟨container, hcontainer⟩ := Option.isSome_iff_exists.mp hcommand
      change ∀ root ∈ s.roots, ∃ leaves, _ ∧ (s.applyEdit request).Shares root leaves
      cases hdone : (s.edit request).2 with
      | false =>
          rw [applyEdit_of_refused h.settled hdone]
          exact (Keeps.refl h none none).shares
      | true =>
          rw [applyEdit_of_done hdone]
          exact ((keeps_edit h hcontainer hdone).congr rfl rfl).shares
  | move event => cases hcommand

end Tile
