/-
**The handlers of i3.**

Every handler keeps the desktop proper: its workspaces are orderly, the windows of a tree are members of
its workspace, and the selected workspace is there and visible.  A handler removes no workspace; only a
pass does.

Main definitions: `Proper`, `Handled`.

Main results:

* `Proper.request`, `Proper.moveExplicit`, `Proper.resolvedSwitch` and the other handlers.
-/

import Weld.I3Switching

namespace I3

open Workspaces

open Workspaces (Entity World Workspace WorkspaceRequest Event Core Changes)

structure Proper (s : Desktop) : Prop extends Kept s where
  shown : SelectedShown s.world

/-- What a handler leaves is proper, and has the workspaces that there were. -/
structure Handled (s t : Desktop) : Prop where
  proper : Proper t
  stays : ∀ workspace, workspace ∈ s.world.workspaces → workspace ∈ t.world.workspaces

variable {t : Desktop}

theorem Handled.trans {s u : Desktop} (h : Handled s t) (h' : Handled t u) : Handled s u :=
  ⟨h'.proper, fun workspace hmem => h'.stays workspace (h.stays workspace hmem)⟩

/-- The selected workspace is visible if it was, or if it is selected for being visible. -/
theorem SelectedShown.changes {s t : World} {f : Entity → Core → Core} (h : SelectedShown s)
    (hchanges : Changes s t f)
    (hselected : t.selected = s.selected ∨ ∃ workspace core, s.coreOf workspace = some core ∧
      core.visible = true ∧ t.selected = some workspace)
    (hvisible : ∀ workspace core, s.coreOf workspace = some core → core.visible = true →
      (f workspace core).visible = true) : SelectedShown t := by
  intro workspace hworkspace
  have hbefore : ∃ core, s.coreOf workspace = some core ∧ core.visible = true := by
    rcases hselected with hsame | ⟨other, core, hcore, hshown, hother⟩
    · exact h workspace (hsame ▸ hworkspace)
    · rw [hworkspace] at hother
      cases hother
      exact ⟨core, hcore, hshown⟩
  obtain ⟨core, hcore, hshown⟩ := hbefore
  refine ⟨f workspace core, ?_, hvisible workspace core hcore hshown⟩
  rw [hchanges.cores, hcore, Option.map_some]

variable {workspace : Entity}

section
variable {s t : Desktop} {f : Entity → Core → Core}

/-- Nobody is hidden, and nobody is selected who is hidden. -/
theorem Proper.changes (h : Proper s) (hkept : Kept t) (hchanges : Changes s.world t.world f)
    (hselected : t.world.selected = s.world.selected ∨ ∃ workspace core,
      s.world.coreOf workspace = some core ∧ core.visible = true ∧
        t.world.selected = some workspace)
    (hvisible : ∀ workspace core, s.world.coreOf workspace = some core → core.visible = true →
      (f workspace core).visible = true) : Handled s t :=
  ⟨⟨hkept, h.shown.changes hchanges hselected hvisible⟩, fun workspace hmem =>
    (hchanges.mem_iff workspace).mpr hmem⟩

theorem Proper.refl (h : Proper s) : Handled s s := ⟨h, fun _ hmem => hmem⟩

/-- Nothing about the workspaces changes but their histories. -/
theorem Proper.same (h : Proper s) (hkept : Kept t)
    (hchanges : Changes s.world t.world fun _ core => core)
    (hselected : t.world.selected = s.world.selected ∨ ∃ workspace core,
      s.world.coreOf workspace = some core ∧ core.visible = true ∧
        t.world.selected = some workspace) : Handled s t :=
  h.changes hkept hchanges hselected fun _ _ _ hvisible => hvisible

theorem Proper.moved {source : Entity → Prop} (h : Proper s) (hmoved : Moved s t source workspace)
    (hkept : Kept t) : Handled s t :=
  h.same hkept hmoved.changes (.inl hmoved.selected)

theorem Switched.handled {output : Entity} {core : Core} (h : Switched s t workspace output)
    (hcore : s.world.coreOf workspace = some core) (houtput : core.output = some output) :
    Handled s t := by
  refine ⟨⟨h.kept, ?_⟩, fun other hmem => (h.changes.mem_iff other).mpr hmem⟩
  intro selected hselected
  rw [h.selected] at hselected
  cases hselected
  refine ⟨{ core with visible := true }, ?_, rfl⟩
  rw [h.changes.cores, hcore, Option.map_some, if_pos houtput, decide_eq_true rfl]

end

/-- What is left behind when a workspace has been created. -/
structure Created (s t : Desktop) (name : String) (output created : Entity) : Prop where
  handled : Handled s t
  fresh : s.world.coreOf created = none
  cores : ∀ other, t.world.coreOf other =
    if other = created then some ⟨s.world.nextId, name, false, some output⟩
    else s.world.coreOf other
  members : t.world.memberOf = s.world.memberOf
  outputs : t.world.outputs = s.world.outputs
  selected : t.world.selected = s.world.selected
  nextId : t.world.nextId = s.world.nextId + 1
  owners : t.owners = s.owners
  steady : Steady s t

namespace Proper

variable {s : Desktop} (order : IterationOrder Entity) (layout : Layout)

/-! ### Switching and moving -/

variable (h : Proper s)
include h

theorem resolvedSwitch (workspace : Entity) : Handled s (s.resolvedSwitch order layout workspace) := by
  by_cases houtput : ∃ core output, s.world.coreOf workspace = some core ∧ core.output = some output
  · obtain ⟨core, output, hcore, houtput⟩ := houtput
    exact (resolvedSwitch_switched h.toKept order layout hcore houtput).handled hcore houtput
  · rw [resolvedSwitch_none order layout fun core hcore => ?_]
    · exact h.refl
    · by_contra hsome
      obtain ⟨output, houtput'⟩ := Option.ne_none_iff_exists'.mp hsome
      exact houtput ⟨core, output, hcore, houtput'⟩

/-- Asking for a selection selects a visible workspace, or nothing. -/
theorem select (workspace : Entity) (window : Option Entity) :
    Handled s (s.ask (.select workspace window)) := by
  obtain ⟨hchanges, hselected, hmember⟩ := request_select s.world workspace window
  refine h.same (h.toKept.proceed (h.orderly.same hchanges (h.orderly.soundRequest _)) hmember) ?_ ?_
  · rw [ask_world]
    exact hchanges
  · rw [ask_world, hselected]
    split_ifs with hand
    · obtain ⟨⟨core, hcore, hvisible, -⟩, -⟩ := hand
      exact .inr ⟨workspace, core, hcore, hvisible, rfl⟩
    · exact .inl rfl

theorem afterMove (node : Node) (source destination : Entity) (ancestors : List Node) :
    Handled s (s.afterMove node source destination ancestors) := by
  rw [Desktop.afterMove]
  by_cases hstayed : s.tree.root node ≠ some destination ∧ s.memberOf node ≠ some destination
  · rw [if_pos hstayed]
    exact h.refl
  · rw [if_neg hstayed]
    exact h.select source _

theorem resolvedMove (node : Node) (workspace : Entity) :
    Handled s (s.resolvedMove layout node workspace) := by
  rw [Desktop.resolvedMove]
  by_cases hgone : workspace ∉ s.world.workspaces
  · rw [if_pos hgone]
    exact h.refl
  rw [if_neg hgone]
  cases (s.memberOf node).or (s.tree.root node) with
  | none => exact h.refl
  | some source =>
      dsimp only
      by_cases hsame : source = workspace
      · rw [if_pos hsame]
        exact h.refl
      · rw [if_neg hsame]
        obtain ⟨hmoved, hkept⟩ :=
          tileMove_moved h.toKept layout node workspace (s.descend (.workspace workspace))
        have hhandled := h.moved hmoved hkept
        split_ifs
        · exact hhandled.trans (hhandled.proper.afterMove _ _ _ _)
        · exact hhandled

/-! ### Requests -/

theorem create {name : String} {output created : Entity} (hnew : Fresh s.world name)
    (hcreate : s.create name output = some (t, created)) : Created s t name output created := by
  obtain ⟨⟨world, workspace, events⟩, hworld, heq⟩ := Option.map_eq_some_iff.mp hcreate
  cases heq
  have hcores := coreOf_create hworld
  have horderly := h.orderly.create hworld hnew
  obtain ⟨unnotified, hsound⟩ := h.orderly.sound
  have hfresh : s.world.coreOf created = none := by
    obtain ⟨-, -, -, -, rfl, -, -⟩ := create_eq_some hworld
    have hnone := hsound.fresh.workspaces s.world.nextEntity (Nat.le_refl _)
    rw [World.coreOf_name, Option.map_eq_none_iff] at hnone
    exact hnone
  obtain ⟨-, -, -, -, -, -, rfl⟩ := create_eq_some hworld
  have hkept : Kept (s.proceed _ events) := h.toKept.proceed horderly rfl
  refine ⟨⟨⟨hkept, ?_⟩, ?_⟩, hfresh, ?_, ?_, ?_, ?_, ?_, proceed_owners, proceed_steady⟩
  · intro workspace hselected
    rw [proceed_world] at hselected ⊢
    obtain ⟨core, hcore, hvisible⟩ := h.shown workspace hselected
    refine ⟨core, ?_, hvisible⟩
    rw [hcores, if_neg]
    · exact hcore
    · rintro rfl
      rw [hfresh] at hcore
      cases hcore
  · intro workspace hmem
    rw [proceed_world]
    exact AList.mem_insert _ |>.mpr (.inr hmem)
  · intro other
    rw [proceed_world]
    exact hcores other
  · rw [proceed_world]
    rfl
  · rw [proceed_world]
  · rw [proceed_world]
  · rw [proceed_world]

theorem resolve {target : WorkspaceTarget} (hresolve : s.resolve order target = some (t, workspace)) :
    Handled s t ∧ t.owners = s.owners := by
  rw [Desktop.resolve] at hresolve
  cases hfind : s.find order target with
  | some found =>
      rw [hfind] at hresolve
      cases hresolve
      exact ⟨h.refl, rfl⟩
  | none =>
      rw [hfind] at hresolve
      obtain ⟨name, hname, hcreate⟩ := Option.bind_eq_some_iff.mp hresolve
      obtain ⟨output, -, hcreate⟩ := Option.bind_eq_some_iff.mp hcreate
      have hcreated := h.create (find_fresh hfind hname) hcreate
      exact ⟨hcreated.handled, hcreated.owners⟩

theorem rename (source : Option String) (name : String) : Handled s (s.rename order source name) := by
  rw [Desktop.rename]
  split
  · exact h.refl
  · rename_i workspace _
    by_cases htaken : ((s.workspaces order).any fun entry =>
        entry.1 ≠ workspace && eqIgnoreAsciiCase entry.2.name name) = true
    · rw [if_pos htaken]
      exact h.refl
    rw [if_neg htaken]
    have hnew : ∀ other core, s.world.coreOf other = some core → other ≠ workspace →
        folded core.name ≠ folded name := by
      intro other core hcore hother heq
      obtain ⟨state, hstate, rfl⟩ := World.lookup_of_coreOf hcore
      refine htaken (List.any_eq_true.mpr ⟨(other, state), mem_workspaces.mpr hstate, ?_⟩)
      rw [Bool.and_eq_true_iff]
      exact ⟨decide_eq_true hother, decide_eq_true heq⟩
    have horderly := h.orderly.rename workspace name hnew
    rcases rename_changes s.world workspace name with hsame | ⟨-, hchanges, hselected, hmember⟩
    · rw [hsame]
      refine h.same (h.toKept.proceed h.orderly rfl) ?_ (.inl ?_)
      · rw [proceed_world]
        exact Changes.refl _
      · rw [proceed_world]
    · refine h.changes (h.toKept.proceed horderly hmember) (f := fun other core =>
        if other = workspace then { core with name } else core) ?_ (.inl ?_) ?_
      · rw [proceed_world]
        exact hchanges
      · rw [proceed_world]
        exact hselected
      · intro other core _ hvisible
        split_ifs
        · exact hvisible
        · exact hvisible

theorem navigate (target : WorkspaceTarget) (operation : WorkspaceNavigation) (allow : Bool) :
    Handled s (s.navigate order layout target operation allow) := by
  rw [Desktop.navigate]
  split
  · exact h.refl
  · split
    · exact h.refl
    · rename_i t workspace hresolve
      have hhandled := (h.resolve order hresolve).1
      cases operation with
      | switch => exact hhandled.trans (hhandled.proper.resolvedSwitch order layout workspace)
      | moveWindow =>
          dsimp only
          split
          · exact hhandled
          · exact hhandled.trans (hhandled.proper.resolvedMove layout _ workspace)

theorem request (asked : I3WorkspaceRequest) : Handled s (s.request order layout asked) := by
  rw [Desktop.request.eq_def]
  split
  · exact h.refl
  · cases asked with
    | navigate target operation allow => exact h.navigate order layout target operation allow
    | rename source name => exact h.rename order source name

/-- A window that no tree manages becomes a member. -/
theorem insertMember {window : Entity}
    (hunowned : ∀ workspace, s.owners.lookup window ≠ some (.tiles workspace)) (workspace : Entity) :
    Handled s { s with world := s.world.insertMember window workspace } := by
  obtain ⟨hchanges, hselected⟩ := insertMember_changes s.world workspace window
  refine h.same ⟨h.orderly.same hchanges (h.orderly.soundStep (.insertMember window workspace)), ?_⟩
    hchanges (.inl hselected)
  intro other found howner
  have hother : other ≠ window := by
    rintro rfl
    exact hunowned found howner
  show (s.world.insertMember window workspace).memberOf other = _
  by_cases hthere : window ∈ s.world.windows ∧ workspace ∈ s.world.workspaces
  · rw [memberOf_insertMember _ _ _ hthere.1 hthere.2, if_neg hother]
    exact h.owned other found howner
  · rw [World.insertMember, if_neg hthere]
    exact h.owned other found howner

theorem moveExplicit (window : Entity) (target : WorkspaceTarget) :
    Handled s (s.moveExplicit order layout window target) := by
  rw [Desktop.moveExplicit]
  split
  · exact h.refl
  · split
    · exact h.refl
    · split
      · exact h.refl
      · rename_i t workspace hresolve
        obtain ⟨hhandled, howners⟩ := h.resolve order hresolve
        by_cases hunmanaged : s.owners.lookup window = none
        · rw [if_pos hunmanaged]
          refine hhandled.trans (hhandled.proper.insertMember ?_ workspace)
          rw [howners, hunmanaged]
          exact fun _ h => nomatch h
        · rw [if_neg hunmanaged]
          exact hhandled.trans (hhandled.proper.resolvedMove layout _ workspace)

/-! ### Everything else -/

/-- Nothing changes but who manages what and how it is described. -/
theorem beside (hworld : t.world = s.world) (howned : Owned t) : Handled s t := by
  refine h.same ⟨hworld ▸ h.orderly, howned⟩ ?_ (.inl ?_)
  · rw [hworld]
    exact Changes.refl _
  · rw [hworld]

theorem manage (window workspace : Entity) (isFloating : Bool) :
    Handled s (s.manage window workspace isFloating) := by
  rw [Desktop.manage]
  by_cases hrefused : window ∉ s.world.windows ∨ workspace ∉ s.world.workspaces ∨
      s.owners.lookup window ≠ none
  · rw [if_pos hrefused]
    exact h.refl
  rw [if_neg hrefused]
  simp only [not_or, not_not] at hrefused
  obtain ⟨hwindow, hworkspace, -⟩ := hrefused
  obtain ⟨hchanges, hselected⟩ := insertMember_changes s.world workspace window
  have hmember := memberOf_insertMember s.world workspace window hwindow hworkspace
  refine h.same ⟨h.orderly.same hchanges (h.orderly.soundStep (.insertMember window workspace)), ?_⟩
    hchanges (.inl hselected)
  intro other found howner
  have howner' : (s.owners.insert window (.tiles workspace)).lookup other =
      some (.tiles found) := howner
  rw [AList.lookup_insert_eq] at howner'
  show (s.world.insertMember window workspace).memberOf other = _
  rw [hmember]
  split_ifs at howner' ⊢
  · cases howner'
    rfl
  · exact h.owned other found howner'

theorem manageElsewhere (window : Entity) : Handled s (s.manageElsewhere window) := by
  rw [Desktop.manageElsewhere]
  split_ifs
  · exact h.refl
  · refine h.beside rfl fun other workspace howner => ?_
    rw [AList.lookup_insert_eq] at howner
    split_ifs at howner
    · cases howner
    · exact h.owned other workspace howner

theorem release (window : Entity) : Handled s { s with owners := s.owners.erase window } := by
  refine h.beside rfl fun other workspace howner => ?_
  rw [AList.lookup_erase_eq] at howner
  split_ifs at howner
  exact h.owned other workspace howner

theorem despawnWindow (window : Entity) : Handled s (s.despawnWindow window) := by
  obtain ⟨hchanges, hselected, hmember⟩ := despawnWindow_changes s.world window
  refine h.same ⟨h.orderly.same hchanges (h.orderly.soundStep (.despawnWindow window)), ?_⟩ hchanges
    (.inl hselected)
  intro other workspace howner
  have howner' : (s.owners.erase window).lookup other = some (.tiles workspace) := howner
  rw [AList.lookup_erase_eq] at howner'
  show (s.world.despawnWindow window).memberOf other = _
  rw [hmember]
  split_ifs at howner' ⊢
  exact h.owned other workspace howner'

theorem focusChanged (window : Option Entity) : Handled s (s.focusChanged window) := by
  obtain ⟨hchanges, hmember, hselected⟩ :=
    rememberFocus_changes { s.world with focus := window } window
  rw [Desktop.focusChanged]
  have hchanges' : Changes s.world ({ s.world with focus := window }.rememberFocus window).1
      fun _ core => core := ⟨hchanges.cores, hchanges.outputs, hchanges.nextId, hchanges.nextEntity⟩
  refine h.same (h.toKept.proceed (h.orderly.same hchanges' ?_) hmember) ?_ ?_
  · exact h.orderly.soundStep (.focusChanged window)
  · rw [proceed_world]
    exact hchanges'
  · rw [proceed_world]
    exact hselected

theorem plug (info : Output) : Handled s (s.plug info) :=
  ⟨⟨⟨h.orderly.spawnOutput, h.owned⟩, h.shown⟩, fun _ hmem => hmem⟩

theorem spawnWindow : Handled s { s with world := s.world.spawnWindow } := by
  refine ⟨⟨⟨h.orderly.spawnWindow, ?_⟩, h.shown⟩, fun _ hmem => hmem⟩
  intro window workspace howner
  have hmember := h.owned window workspace howner
  obtain ⟨unnotified, hsound⟩ := h.orderly.sound
  have hne : window ≠ s.world.nextEntity := by
    rintro rfl
    obtain ⟨state, hstate⟩ := s.world.mem_windows_of_memberOf hmember
    exact hsound.fresh.windows s.world.nextEntity (Nat.le_refl _) (AList.mem_of_lookup hstate)
  show (s.world.spawnWindow).memberOf window = _
  rw [World.memberOf, World.spawnWindow, AList.lookup_insert_eq, if_neg hne]
  exact hmember

theorem unplug (output : Entity) : Handled s { s with world := s.world.despawnOutput output } := by
  have hcores := Orderly.coreOf_despawnOutput s.world output
  have hmember : (s.world.despawnOutput output).memberOf = s.world.memberOf := by
    refine s.world.memberOf_mapValues _ fun key window => ?_
    split_ifs
    · rfl
    · rfl
  refine ⟨⟨⟨h.orderly.despawnOutput output, ?_⟩, ?_⟩, ?_⟩
  · intro window workspace howner
    show (s.world.despawnOutput output).memberOf window = _
    rw [hmember]
    exact h.owned window workspace howner
  · intro workspace hselected
    obtain ⟨core, hcore, hvisible⟩ := h.shown workspace hselected
    refine ⟨_, by rw [hcores, hcore, Option.map_some], ?_⟩
    split_ifs
    · exact hvisible
    · exact hvisible
  · intro workspace hmem
    by_contra hgone
    have hnone := World.coreOf_eq_none.mpr hgone
    rw [hcores, Option.map_eq_none_iff, World.coreOf_eq_none] at hnone
    exact hnone hmem

/-- **Every step but a pass.** -/
theorem step {label : Label} (hlabel : label ≠ .pass) : Handled s (step order layout s label) := by
  cases label with
  | request asked => exact h.request order layout asked
  | moveExplicit window target => exact h.moveExplicit order layout window target
  | activate workspace => exact h.resolvedSwitch order layout workspace
  | plug info => exact h.plug info
  | unplug output => exact h.unplug output
  | describe output info => exact h.beside rfl h.owned
  | spawnWindow => exact h.spawnWindow
  | despawnWindow window => exact h.despawnWindow window
  | manage window workspace isFloating => exact h.manage window workspace isFloating
  | manageElsewhere window => exact h.manageElsewhere window
  | release window => exact h.release window
  | float | stick => exact h.beside rfl h.owned
  | focusChanged window => exact h.focusChanged window
  | select | arrange | configure => exact h.beside rfl h.owned
  | pass => exact absurd rfl hlabel

omit h

end Proper

end I3
