/-
**Orderly workspaces.**

What holds of the workspaces at all times: they are assigned to outputs that are there, at most one of
them is visible on each, their identifiers and names are different, and the windows that a tree manages
are members of its workspace.  A window that the tree leads to is therefore a member, and a switch can
select it.

Main definitions: `Orderly`, `Kept`, `SelectedShown`, `Chain`.

Main results:

* `Orderly.shrink`, `Orderly.reveal`, `Orderly.create` — operations on an orderly world;
* `focusTarget_member` — the window that a switch selects is a member of its workspace.
-/

import Weld.I3Workspaces
import Weld.WorkspaceCores

namespace I3

open Workspaces (Entity World Workspace WorkspaceRequest Event Core Changes)

/-! ### The invariant -/

structure Orderly (s : World) : Prop where
  sound : ∃ unnotified, Workspaces.Sound s unnotified
  live : ∀ workspace core output, s.coreOf workspace = some core → core.output = some output →
    output ∈ s.outputs
  single : ∀ first second core other output, s.coreOf first = some core →
    s.coreOf second = some other → core.visible = true → other.visible = true →
    core.output = some output → other.output = some output → first = second
  distinct : ∀ first second core other, s.coreOf first = some core →
    s.coreOf second = some other → folded core.name = folded other.name → first = second
  identified : ∀ workspace core, s.coreOf workspace = some core → core.id < s.nextId
  identity : ∀ first second core other, s.coreOf first = some core →
    s.coreOf second = some other → core.id = other.id → first = second
  bounded : s.nextId ≤ Workspaces.u64Max
  spawned : ∀ output ∈ s.outputs, output < s.nextEntity

/-- The windows of a tree are members of its workspace. -/
def Owned (s : Desktop) : Prop :=
  ∀ window workspace, s.owners.lookup window = some (.tiles workspace) →
    s.world.memberOf window = some workspace

structure Kept (s : Desktop) : Prop where
  orderly : Orderly s.world
  owned : Owned s

/-- The selected workspace is there and visible. -/
def SelectedShown (s : World) : Prop :=
  ∀ workspace, s.selected = some workspace →
    ∃ core, s.coreOf workspace = some core ∧ core.visible = true

theorem orderly_empty : Orderly {} := by
  refine ⟨⟨∅, Workspaces.Sound.initial⟩, ?_, ?_, ?_, ?_, ?_, Nat.zero_le _, ?_⟩
  · rintro workspace core output ⟨⟩
  · rintro first second core other output ⟨⟩
  · rintro first second core other ⟨⟩
  · rintro workspace core ⟨⟩
  · rintro first second core other ⟨⟩
  · simp

namespace Orderly

variable {s t : World} {f : Entity → Core → Core}

section

variable (h : Orderly s)
include h

theorem presentable {workspace output : Entity} {core : Core} (hcore : s.coreOf workspace = some core)
    (houtput : core.output = some output) : core.presentable s.outputs :=
  ⟨output, houtput, h.live workspace core output hcore houtput⟩

/-- The workspaces keep their identity, and nothing is assigned to an output that is not there. -/
theorem changes (hchanges : Changes s t f) (hsound : ∃ unnotified, Workspaces.Sound t unnotified)
    (hid : ∀ workspace core, (f workspace core).id = core.id)
    (hname : ∀ workspace core, (f workspace core).name = core.name) (hlive : ∀ workspace core output,
      s.coreOf workspace = some core → (f workspace core).output = some output → output ∈ s.outputs)
      (hsingle : ∀ first second core other output, s.coreOf first = some core → s.coreOf second =
      some other → (f first core).visible = true → (f second other).visible = true → (f first
      core).output = some output → (f second other).output = some output → first = second) :
    Orderly t where
  sound := hsound
  live workspace core output hcore houtput := by
    rw [hchanges.cores, Option.map_eq_some_iff] at hcore
    obtain ⟨before, hbefore, rfl⟩ := hcore
    rw [hchanges.outputs]
    exact hlive workspace before output hbefore houtput
  single first second core other output hfirst hsecond hvisible hvisible' houtput houtput' := by
    rw [hchanges.cores, Option.map_eq_some_iff] at hfirst hsecond
    obtain ⟨before, hbefore, rfl⟩ := hfirst
    obtain ⟨before', hbefore', rfl⟩ := hsecond
    exact hsingle first second before before' output hbefore hbefore' hvisible hvisible' houtput
      houtput'
  distinct first second core other hfirst hsecond heq := by
    rw [hchanges.cores, Option.map_eq_some_iff] at hfirst hsecond
    obtain ⟨before, hbefore, rfl⟩ := hfirst
    obtain ⟨before', hbefore', rfl⟩ := hsecond
    rw [hname, hname] at heq
    exact h.distinct first second before before' hbefore hbefore' heq
  identified workspace core hcore := by
    rw [hchanges.cores, Option.map_eq_some_iff] at hcore
    obtain ⟨before, hbefore, rfl⟩ := hcore
    rw [hid, hchanges.nextId]
    exact h.identified workspace before hbefore
  identity first second core other hfirst hsecond heq := by
    rw [hchanges.cores, Option.map_eq_some_iff] at hfirst hsecond
    obtain ⟨before, hbefore, rfl⟩ := hfirst
    obtain ⟨before', hbefore', rfl⟩ := hsecond
    rw [hid, hid] at heq
    exact h.identity first second before before' hbefore hbefore' heq
  bounded := by
    rw [hchanges.nextId]
    exact h.bounded
  spawned := by
    rw [hchanges.outputs, hchanges.nextEntity]
    exact h.spawned

/-- What is visible was visible there before. -/
theorem shrink (hchanges : Changes s t f) (hsound : ∃ unnotified, Workspaces.Sound t unnotified)
    (hid : ∀ workspace core, (f workspace core).id = core.id)
    (hname : ∀ workspace core, (f workspace core).name = core.name) (hlive : ∀ workspace core output,
      s.coreOf workspace = some core → (f workspace core).output = some output → output ∈ s.outputs)
      (hvisible : ∀ workspace core, s.coreOf workspace = some core → (f workspace core).visible =
      true → core.visible = true ∧ (f workspace core).output = core.output) : Orderly t := by
  refine h.changes hchanges hsound hid hname hlive ?_
  intro first second core other output hfirst hsecond hshown hshown' houtput houtput'
  obtain ⟨hcore, hsame⟩ := hvisible first core hfirst hshown
  obtain ⟨hother, hsame'⟩ := hvisible second other hsecond hshown'
  rw [hsame] at houtput
  rw [hsame'] at houtput'
  exact h.single first second core other output hfirst hsecond hcore hother houtput houtput'

/-- Nothing about the workspaces changes but their histories. -/
theorem same (hchanges : Changes s t fun _ core => core)
    (hsound : ∃ unnotified, Workspaces.Sound t unnotified) : Orderly t :=
  h.shrink hchanges hsound (fun _ _ => rfl) (fun _ _ => rfl) (fun workspace core output hcore =>
    h.live workspace core output hcore) fun _ _ _ hvisible => ⟨hvisible, rfl⟩

theorem soundRequest (asked : WorkspaceRequest) :
    ∃ unnotified, Workspaces.Sound (s.request asked).1 unnotified := by
  obtain ⟨unnotified, hsound⟩ := h.sound
  exact ⟨unnotified, hsound.request asked⟩

theorem hide (workspace : Entity) : Orderly (s.request (.setVisible workspace false)).1 := by
  refine h.shrink (Workspaces.request_setVisible s workspace false).1 (h.soundRequest _) ?_ ?_ ?_ ?_
  · intro other core
    split_ifs
    · rfl
    · rfl
  · intro other core
    split_ifs
    · rfl
    · rfl
  · intro other core output hcore houtput
    refine h.live other core output hcore ?_
    split_ifs at houtput
    · exact houtput
    · exact houtput
  · intro other core hcore hvisible
    split_ifs at hvisible ⊢
    exact ⟨hvisible, rfl⟩

/-- A workspace is shown on an output where no other one is. -/
theorem reveal (workspace output : Entity) (halone : ∀ other core, s.coreOf other = some core →
      core.visible = true → core.output = some output → other = workspace)
    (houtput : ∀ core, s.coreOf workspace = some core → core.output = some output) :
    Orderly (s.request (.setVisible workspace true)).1 := by
  refine h.changes (Workspaces.request_setVisible s workspace true).1 (h.soundRequest _) ?_ ?_ ?_ ?_
  · intro other core
    split_ifs
    · rfl
    · rfl
  · intro other core
    split_ifs
    · rfl
    · rfl
  · intro other core output hcore houtput
    refine h.live other core output hcore ?_
    split_ifs at houtput
    · exact houtput
    · exact houtput
  · intro first second core other found hfirst hsecond hvisible hvisible' hfound hfound'
    have hfound₁ : core.output = some found := by
      split_ifs at hfound
      · exact hfound
      · exact hfound
    have hfound₂ : other.output = some found := by
      split_ifs at hfound'
      · exact hfound'
      · exact hfound'
    by_cases hone : first = workspace
    · by_cases htwo : second = workspace
      · rw [hone, htwo]
      · rw [if_neg fun hand => htwo hand.1] at hvisible'
        rw [hone] at hfirst
        have heq := houtput core hfirst
        rw [hfound₁] at heq
        cases heq
        exact absurd (halone second other hsecond hvisible' hfound₂) htwo
    · rw [if_neg fun hand => hone hand.1] at hvisible
      by_cases htwo : second = workspace
      · rw [htwo] at hsecond
        have heq := houtput other hsecond
        rw [hfound₂] at heq
        cases heq
        exact absurd (halone first core hfirst hvisible hfound₁) hone
      · rw [if_neg fun hand => htwo hand.1] at hvisible'
        exact h.single first second core other found hfirst hsecond hvisible hvisible' hfound₁
          hfound₂

/-- A hidden workspace may be assigned anywhere. -/
theorem assign {workspace : Entity} (output : Entity)
    (hhidden : ∀ core, s.coreOf workspace = some core → core.visible = false) :
    Orderly (s.request (.assign workspace output)).1 := by
  refine h.shrink (Workspaces.request_assign s workspace output).1 (h.soundRequest _) ?_ ?_ ?_ ?_
  · intro other core
    split_ifs
    · rfl
    · rfl
  · intro other core
    split_ifs
    · rfl
    · rfl
  · intro other core found hcore hfound
    split_ifs at hfound with hassigned
    · cases hfound
      exact hassigned.2
    · exact h.live other core found hcore hfound
  · intro other core hcore hvisible
    split_ifs at hvisible ⊢ with hassigned
    · rw [hassigned.1] at hcore
      have hfalse := hhidden core hcore
      have htrue : core.visible = true := hvisible
      rw [hfalse] at htrue
      cases htrue
    · exact ⟨hvisible, rfl⟩

theorem create {name : String} {output created : Entity} {events : List Event}
    (hcreate : s.create name output = some (t, created, events))
    (hnew : ∀ workspace core, s.coreOf workspace = some core → folded core.name ≠ folded name) :
    Orderly t := by
  have hcores := Workspaces.coreOf_create hcreate
  obtain ⟨unnotified, hsound⟩ := h.sound
  obtain ⟨-, hlive, -, hbound, rfl, -, rfl⟩ := Workspaces.create_eq_some hcreate
  have hfresh : s.coreOf s.nextEntity = none := by
    have hnone := hsound.fresh.workspaces s.nextEntity (Nat.le_refl _)
    rw [World.coreOf_name, Option.map_eq_none_iff] at hnone
    exact hnone
  refine ⟨⟨unnotified, hsound.create hcreate⟩, ?_, ?_, ?_, ?_, ?_, hbound, ?_⟩
  · intro workspace core found hcore hfound
    rw [hcores] at hcore
    split_ifs at hcore
    · cases hcore
      cases hfound
      exact hlive
    · exact h.live workspace core found hcore hfound
  · intro first second core other found hfirst hsecond hvisible hvisible' hfound hfound'
    rw [hcores] at hfirst hsecond
    split_ifs at hfirst
    · cases hfirst
      cases hvisible
    · split_ifs at hsecond
      · cases hsecond
        cases hvisible'
      · exact h.single first second core other found hfirst hsecond hvisible hvisible' hfound
          hfound'
  · intro first second core other hfirst hsecond heq
    rw [hcores] at hfirst hsecond
    split_ifs at hfirst with hone
    · split_ifs at hsecond with htwo
      · rw [hone, htwo]
      · cases hfirst
        exact absurd heq.symm (hnew second other hsecond)
    · split_ifs at hsecond with htwo
      · cases hsecond
        exact absurd heq (hnew first core hfirst)
      · exact h.distinct first second core other hfirst hsecond heq
  · intro workspace core hcore
    rw [hcores] at hcore
    split_ifs at hcore
    · cases hcore
      exact Nat.lt_succ_self _
    · exact Nat.lt_succ_of_lt (h.identified workspace core hcore)
  · intro first second core other hfirst hsecond heq
    rw [hcores] at hfirst hsecond
    split_ifs at hfirst with hone
    · split_ifs at hsecond with htwo
      · rw [hone, htwo]
      · cases hfirst
        have hlt := h.identified second other hsecond
        rw [← heq] at hlt
        exact absurd hlt (Nat.lt_irrefl _)
    · split_ifs at hsecond with htwo
      · cases hsecond
        have hlt := h.identified first core hfirst
        rw [heq] at hlt
        exact absurd hlt (Nat.lt_irrefl _)
      · exact h.identity first second core other hfirst hsecond heq
  · intro found hfound
    exact Nat.lt_succ_of_lt (h.spawned found hfound)

/-- Any step of the workspaces keeps their books. -/
theorem soundStep (label : Workspaces.Label) :
    ∃ unnotified, Workspaces.Sound (Workspaces.step s label) unnotified := by
  obtain ⟨unnotified, hsound⟩ := h.sound
  exact ⟨_, Workspaces.Sound.observe (o := ⟨s, unnotified⟩) hsound label⟩

/-- A workspace gets a name that no other one has in any case of its letters. -/
theorem rename (workspace : Entity) (name : String) (hnew : ∀ other core, s.coreOf other = some core
      → other ≠ workspace → folded core.name ≠ folded name) : Orderly (s.rename workspace name).1 := by
  have hsound := h.soundStep (.rename workspace name)
  rcases Workspaces.rename_changes s workspace name with hsame | ⟨-, hchanges, -, -⟩
  · rw [hsame]
    exact h
  have hname : ∀ other core, s.coreOf other = some core →
      folded (if other = workspace then { core with name } else core).name =
        if other = workspace then folded name else folded core.name := by
    intro other core _
    split_ifs
    · rfl
    · rfl
  have hrest : ∀ (other : Entity) (core : Core),
      (if other = workspace then { core with name } else core).id = core.id ∧
      (if other = workspace then { core with name } else core).visible = core.visible ∧
      (if other = workspace then { core with name } else core).output = core.output := by
    intro other core
    split_ifs <;> exact ⟨rfl, rfl, rfl⟩
  refine ⟨hsound, ?_, ?_, ?_, ?_, ?_, ?_, ?_⟩
  · intro other core output hcore houtput
    rw [hchanges.cores, Option.map_eq_some_iff] at hcore
    obtain ⟨before, hbefore, rfl⟩ := hcore
    rw [(hrest other before).2.2] at houtput
    rw [hchanges.outputs]
    exact h.live other before output hbefore houtput
  · intro first second core other output hfirst hsecond hvisible hvisible' houtput houtput'
    rw [hchanges.cores, Option.map_eq_some_iff] at hfirst hsecond
    obtain ⟨before, hbefore, rfl⟩ := hfirst
    obtain ⟨before', hbefore', rfl⟩ := hsecond
    rw [(hrest first before).2.1] at hvisible
    rw [(hrest second before').2.1] at hvisible'
    rw [(hrest first before).2.2] at houtput
    rw [(hrest second before').2.2] at houtput'
    exact h.single first second before before' output hbefore hbefore' hvisible hvisible' houtput
      houtput'
  · intro first second core other hfirst hsecond heq
    rw [hchanges.cores, Option.map_eq_some_iff] at hfirst hsecond
    obtain ⟨before, hbefore, rfl⟩ := hfirst
    obtain ⟨before', hbefore', rfl⟩ := hsecond
    by_cases hone : first = workspace
    · by_cases htwo : second = workspace
      · rw [hone, htwo]
      · rw [if_pos hone, if_neg htwo] at heq
        exact absurd heq.symm (hnew second before' hbefore' htwo)
    · by_cases htwo : second = workspace
      · rw [if_neg hone, if_pos htwo] at heq
        exact absurd heq (hnew first before hbefore hone)
      · rw [if_neg hone, if_neg htwo] at heq
        exact h.distinct first second before before' hbefore hbefore' heq
  · intro other core hcore
    rw [hchanges.cores, Option.map_eq_some_iff] at hcore
    obtain ⟨before, hbefore, rfl⟩ := hcore
    rw [(hrest other before).1, hchanges.nextId]
    exact h.identified other before hbefore
  · intro first second core other hfirst hsecond heq
    rw [hchanges.cores, Option.map_eq_some_iff] at hfirst hsecond
    obtain ⟨before, hbefore, rfl⟩ := hfirst
    obtain ⟨before', hbefore', rfl⟩ := hsecond
    rw [(hrest first before).1, (hrest second before').1] at heq
    exact h.identity first second before before' hbefore hbefore' heq
  · rw [hchanges.nextId]
    exact h.bounded
  · rw [hchanges.outputs, hchanges.nextEntity]
    exact h.spawned

/-- Workspaces may go. -/
theorem fewer (hsound : ∃ unnotified, Workspaces.Sound t unnotified)
    (hcores : ∀ workspace core, t.coreOf workspace = some core → s.coreOf workspace = some core)
    (houtputs : t.outputs = s.outputs) (hnextId : t.nextId = s.nextId)
    (hnextEntity : t.nextEntity = s.nextEntity) : Orderly t where
  sound := hsound
  live workspace core output hcore houtput := by
    rw [houtputs]
    exact h.live workspace core output (hcores workspace core hcore) houtput
  single first second core other output hfirst hsecond :=
    h.single first second core other output (hcores first core hfirst) (hcores second other hsecond)
  distinct first second core other hfirst hsecond :=
    h.distinct first second core other (hcores first core hfirst) (hcores second other hsecond)
  identified workspace core hcore := by
    rw [hnextId]
    exact h.identified workspace core (hcores workspace core hcore)
  identity first second core other hfirst hsecond :=
    h.identity first second core other (hcores first core hfirst) (hcores second other hsecond)
  bounded := by
    rw [hnextId]
    exact h.bounded
  spawned := by
    rw [houtputs, hnextEntity]
    exact h.spawned

theorem removeEmpty (workspace : Entity) : Orderly (s.request (.removeEmpty workspace)).1 := by
  obtain ⟨houtputs, hnextId, hnextEntity, -, -, hcores⟩ :=
    Workspaces.request_removeEmpty s workspace
  refine h.fewer (h.soundRequest _) ?_ houtputs hnextId hnextEntity
  intro other core hcore
  rcases hcores with hsame | ⟨-, -, -, herased⟩
  · rw [← hsame]
    exact hcore
  · rw [herased] at hcore
    split_ifs at hcore
    exact hcore

omit h in
theorem coreOf_despawnOutput (s : World) (output : Entity) (workspace : Entity) :
    (s.despawnOutput output).coreOf workspace = (s.coreOf workspace).map fun core =>
      if core.output = some output then { core with output := none } else core := by
  rw [World.coreOf, World.despawnOutput, AList.lookup_mapValues, World.coreOf]
  cases s.workspaces.lookup workspace with
  | none => rfl
  | some state =>
      simp only [Option.map_some, Option.some.injEq, Workspace.core]
      split_ifs
      · rfl
      · rfl

/-- An output that goes leaves its workspaces without one. -/
theorem despawnOutput (output : Entity) : Orderly (s.despawnOutput output) := by
  have hcores := coreOf_despawnOutput s output
  have hrest : ∀ core : Core,
      (if core.output = some output then { core with output := none } else core).id = core.id ∧
      (if core.output = some output then { core with output := none } else core).name =
        core.name ∧
      (if core.output = some output then { core with output := none } else core).visible =
        core.visible ∧
      ∀ found, (if core.output = some output then { core with output := none } else core).output =
        some found → core.output = some found ∧ found ≠ output := by
    intro core
    split_ifs with hgone
    · refine ⟨rfl, rfl, rfl, ?_⟩
      rintro found ⟨⟩
    · refine ⟨rfl, rfl, rfl, fun found hfound => ⟨hfound, ?_⟩⟩
      rintro rfl
      exact hgone hfound
  refine ⟨h.soundStep (.despawnOutput output), ?_, ?_, ?_, ?_, ?_, h.bounded, ?_⟩
  · intro workspace core found hcore hfound
    rw [hcores, Option.map_eq_some_iff] at hcore
    obtain ⟨before, hbefore, rfl⟩ := hcore
    obtain ⟨hbeforeOutput, hne⟩ := (hrest before).2.2.2 found hfound
    exact Finset.mem_erase.mpr ⟨hne, h.live workspace before found hbefore hbeforeOutput⟩
  · intro first second core other found hfirst hsecond hvisible hvisible' hfound hfound'
    rw [hcores, Option.map_eq_some_iff] at hfirst hsecond
    obtain ⟨before, hbefore, rfl⟩ := hfirst
    obtain ⟨before', hbefore', rfl⟩ := hsecond
    rw [(hrest before).2.2.1] at hvisible
    rw [(hrest before').2.2.1] at hvisible'
    exact h.single first second before before' found hbefore hbefore' hvisible hvisible'
      ((hrest before).2.2.2 found hfound).1 ((hrest before').2.2.2 found hfound').1
  · intro first second core other hfirst hsecond heq
    rw [hcores, Option.map_eq_some_iff] at hfirst hsecond
    obtain ⟨before, hbefore, rfl⟩ := hfirst
    obtain ⟨before', hbefore', rfl⟩ := hsecond
    rw [(hrest before).2.1, (hrest before').2.1] at heq
    exact h.distinct first second before before' hbefore hbefore' heq
  · intro workspace core hcore
    rw [hcores, Option.map_eq_some_iff] at hcore
    obtain ⟨before, hbefore, rfl⟩ := hcore
    rw [(hrest before).1]
    exact h.identified workspace before hbefore
  · intro first second core other hfirst hsecond heq
    rw [hcores, Option.map_eq_some_iff] at hfirst hsecond
    obtain ⟨before, hbefore, rfl⟩ := hfirst
    obtain ⟨before', hbefore', rfl⟩ := hsecond
    rw [(hrest before).1, (hrest before').1] at heq
    exact h.identity first second before before' hbefore hbefore' heq
  · intro found hfound
    exact h.spawned found (Finset.mem_of_mem_erase hfound)

/-- Outputs and windows may come. -/
theorem spawn (hsound : ∃ unnotified, Workspaces.Sound t unnotified) (hcores : t.coreOf = s.coreOf)
    (houtputs : s.outputs ⊆ t.outputs) (hnextId : t.nextId = s.nextId)
    (hspawned : ∀ output ∈ t.outputs, output < t.nextEntity) :
    Orderly t where
  sound := hsound
  live workspace core output hcore houtput := by
    rw [hcores] at hcore
    exact houtputs (h.live workspace core output hcore houtput)
  single := by
    rw [hcores]
    exact h.single
  distinct := by
    rw [hcores]
    exact h.distinct
  identified := by
    rw [hcores, hnextId]
    exact h.identified
  identity := by
    rw [hcores]
    exact h.identity
  bounded := by
    rw [hnextId]
    exact h.bounded
  spawned := hspawned

theorem spawnOutput : Orderly s.spawnOutput := by
  refine h.spawn (h.soundStep .spawnOutput) rfl (Finset.subset_insert _ _) rfl ?_
  intro output houtput
  rcases Finset.mem_insert.mp houtput with rfl | hold
  · exact Nat.lt_succ_self _
  · exact Nat.lt_succ_of_lt (h.spawned output hold)

theorem spawnWindow : Orderly s.spawnWindow :=
  h.spawn (h.soundStep .spawnWindow) rfl (Finset.Subset.refl _) rfl fun output houtput =>
    Nat.lt_succ_of_lt (h.spawned output houtput)

end

end Orderly

/-! ### The windows of a tree -/

/-- A node is another one, or below it. -/
inductive Chain (tree : Tree) : Node → Node → Prop
  | refl (node : Node) : Chain tree node node
  | step {node parent above : Node} (hparent : tree.parent node = some parent)
      (rest : Chain tree parent above) : Chain tree node above

namespace Chain

variable {tree : Tree} {node above : Node}

theorem snoc {parent : Node} (h : Chain tree node above) (hparent : tree.parent above = some parent) :
    Chain tree node parent := by
  induction h with
  | refl node => exact .step hparent (.refl parent)
  | step hstep rest ih => exact .step hstep (ih hparent)

/-- There is one workspace above a node at most. -/
theorem workspace_unique {first second : Entity} (h : Chain tree node (.workspace first))
    (h' : Chain tree node (.workspace second)) : first = second := by
  generalize htop : Node.workspace first = top at h
  induction h with
  | refl node =>
      subst htop
      cases h' with
      | refl => rfl
      | step hparent rest =>
          rw [tree.parent_of_workspace] at hparent
          cases hparent
  | step hparent rest ih =>
      cases h' with
      | refl =>
          rw [tree.parent_of_workspace] at hparent
          cases hparent
      | step hparent' rest' =>
          rw [hparent] at hparent'
          cases hparent'
          exact ih rest' htop

theorem of_rootFrom {fuel : ℕ} {root : Entity} (h : tree.rootFrom fuel node = some root) :
    Chain tree node (.workspace root) := by
  induction fuel generalizing node with
  | zero => cases h
  | succ fuel ih =>
      rw [Tree.rootFrom] at h
      cases hroot : tree.asRoot node with
      | some found =>
          rw [hroot] at h
          cases h
          cases node with
          | workspace workspace =>
              rw [Tree.asRoot] at hroot
              split_ifs at hroot
              cases hroot
              exact .refl _
          | container | window => cases hroot
      | none =>
          rw [hroot] at h
          obtain ⟨parent, hparent, hrest⟩ := Option.bind_eq_some_iff.mp h
          split_ifs at hrest
          exact .step hparent (ih hrest)

end Chain

section
variable {s : Desktop} {node : Node} {window workspace : Entity}

theorem asLeaf_eq_some (h : s.asLeaf node = some window) :
    node = .window window ∧ ∃ root, s.tree.root node = some root ∧
      s.owners.lookup window = some (.tiles root) := by
  cases node with
  | workspace | container => cases h
  | window found =>
      rw [Desktop.asLeaf] at h
      split_ifs at h with hbelongs
      cases h
      refine ⟨rfl, ?_⟩
      obtain ⟨root, hroot, hrest⟩ := (Option.any_eq_true _ _).mp hbelongs
      obtain ⟨-, howned⟩ := Bool.and_eq_true_iff.mp hrest
      exact ⟨root, hroot, of_decide_eq_true howned⟩

/-- The window that a node leads to is below it, and the root owns it. -/
theorem descendFrom_spec {fuel : ℕ} (h : s.descendFrom fuel node = some window) :
    Chain s.tree (.window window) node ∧ ∃ root, s.tree.root (.window window) = some root ∧
      s.owners.lookup window = some (.tiles root) := by
  induction fuel generalizing node with
  | zero => cases h
  | succ fuel ih =>
      rcases Option.or_eq_some_iff.mp h with hnear | ⟨-, hchildren⟩
      · rcases Option.or_eq_some_iff.mp hnear with hleaf | ⟨-, hrecent⟩
        · obtain ⟨rfl, hroot⟩ := asLeaf_eq_some hleaf
          exact ⟨.refl _, hroot⟩
        · obtain ⟨child, hmem, hchild⟩ := List.exists_of_findSome?_eq_some hrecent
          obtain ⟨hchain, hroot⟩ := ih hchild
          have hparent : s.tree.parent child = some node := by
            simpa using (List.mem_filter.mp hmem).2
          exact ⟨hchain.snoc hparent, hroot⟩
      · obtain ⟨child, hmem, hchild⟩ := List.exists_of_findSome?_eq_some hchildren
        obtain ⟨hchain, hroot⟩ := ih hchild
        exact ⟨hchain.snoc (s.tree.parent_of_child node child hmem), hroot⟩

/-- The window that a workspace leads to is a member of it. -/
theorem descend_member (h : Owned s) (hdescend : s.descend (.workspace workspace) = some window) :
    s.world.memberOf window = some workspace := by
  obtain ⟨hchain, root, hroot, howner⟩ := descendFrom_spec hdescend
  have heq : root = workspace := (Chain.of_rootFrom hroot).workspace_unique hchain
  rw [← heq]
  exact h window root howner

/-- **The window that a switch selects is a member of its workspace.** -/
theorem focusTarget_member (h : Owned s) (htarget : s.focusTarget workspace = some window) :
    s.world.memberOf window = some workspace := by
  have hfloat : ∀ window, s.floatHere workspace window = true →
      s.world.memberOf window = some workspace := fun window hhere =>
    of_decide_eq_true (Bool.and_eq_true_iff.mp hhere).2
  rcases Option.or_eq_some_iff.mp htarget with hnear | ⟨-, hfound⟩
  · rcases Option.or_eq_some_iff.mp hnear with hrecent | ⟨-, hdescend⟩
    · exact hfloat window (Option.filter_eq_some_iff.mp hrecent).2
    · exact descend_member h hdescend
  · exact hfloat window (List.find?_some hfound)

end

end I3
