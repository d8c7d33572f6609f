/-
**Switching and moving.**

A switch hides the other workspaces of its output, shows its own, and selects it.  A window that is
sticky comes along; everybody else stays where he is.  This module says what a switch and a move make of
an orderly desktop.

Main definitions: `Switched`, `Moved`.

Main results:

* `tileMove_moved`, `giveWay_spec` — moves, and workspaces that give way;
* `resolvedSwitch_switched` — a switch;
* `resolvedMove_kept` — a move.
-/

import Weld.I3Lookups
import Weld.I3Orderly

namespace I3

open Desktop

open Workspaces (Entity World Workspace WorkspaceRequest Event Core Changes)

/-! ### What stays -/

/-- The settings and what is known of the outputs stay. -/
structure Steady (s t : Desktop) : Prop where
  describe : t.describe = s.describe
  settings : t.settings = s.settings
  floating : t.floating = s.floating
  sticky : t.sticky = s.sticky

theorem Steady.refl (s : Desktop) : Steady s s := ⟨rfl, rfl, rfl, rfl⟩

theorem Steady.trans {s t u : Desktop} (h : Steady s t) (h' : Steady t u) : Steady s u :=
  ⟨h'.describe.trans h.describe, h'.settings.trans h.settings, h'.floating.trans h.floating,
    h'.sticky.trans h.sticky⟩

/-- Only the name of the previous workspace is different. -/
theorem tell_eq (s : Desktop) (event : Event) :
    s.tell event = { s with previous := (s.tell event).previous } := by
  cases event with
  | focused previous workspace =>
      cases previous with
      | none | some => rfl
  | renamed workspace previousName =>
      rw [Desktop.tell]
      split
      · rfl
      · rfl
  | created | focusWindow | clearFocus => rfl

theorem proceed_eq (s : Desktop) (world : World) (events : List Event) :
    s.proceed world events = { s with world, previous := (s.proceed world events).previous } := by
  have hall : ∀ (events : List Event) (s : Desktop), events.foldl Desktop.tell s =
      { s with previous := (events.foldl Desktop.tell s).previous } := by
    intro events
    induction events with
    | nil => exact fun _ => rfl
    | cons event events ih =>
        intro s
        have hsame : ∀ previous, { s.tell event with previous } = { s with previous } := by
          intro previous
          rw [tell_eq s event]
        exact (ih (s.tell event)).trans (hsame _)
  exact hall events { s with world }

section
variable {s t : Desktop} {world : World} {events : List Event}

@[simp] theorem proceed_world : (s.proceed world events).world = world := by
  rw [proceed_eq]

@[simp] theorem proceed_owners : (s.proceed world events).owners = s.owners := by
  rw [proceed_eq]

theorem proceed_steady : Steady s (s.proceed world events) := by
  rw [proceed_eq]
  exact ⟨rfl, rfl, rfl, rfl⟩

variable (request : WorkspaceRequest)

@[simp] theorem ask_world : (s.ask request).world = (s.world.request request).1 := proceed_world

theorem ask_steady : Steady s (s.ask request) := proceed_steady

/-- A desktop with other workspaces is kept if they are orderly and nobody has left them. -/
theorem Kept.proceed (h : Kept s) (horderly : Orderly world)
    (hmember : world.memberOf = s.world.memberOf) : Kept (s.proceed world events) := by
  refine ⟨by rw [proceed_world]; exact horderly, ?_⟩
  intro window workspace howner
  rw [proceed_owners] at howner
  rw [proceed_world, hmember]
  exact h.owned window workspace howner

end

/-! ### Moves -/

/-- A tile move: no workspace changes, and windows of one workspace may now be in another one. -/
structure Moved (s t : Desktop) (source : Entity → Prop) (workspace : Entity) : Prop where
  changes : Changes s.world t.world fun _ core => core
  selected : t.world.selected = s.world.selected
  steady : Steady s t
  members : ∀ window, t.world.memberOf window = s.world.memberOf window ∨
    (∃ previous, s.world.memberOf window = some previous ∧ source previous) ∧
      t.world.memberOf window = some workspace

namespace Moved

variable {s t u : Desktop} {source : Entity → Prop} {workspace : Entity}

theorem refl (s : Desktop) (source : Entity → Prop) (workspace : Entity) :
    Moved s s source workspace :=
  ⟨Changes.refl _, rfl, Steady.refl s, fun _ => .inl rfl⟩

theorem trans (h : Moved s t source workspace)
    (h' : Moved t u (fun previous => source previous ∨ previous = workspace) workspace) :
    Moved s u source workspace where
  changes := h.changes.trans h'.changes
  selected := h'.selected.trans h.selected
  steady := h.steady.trans h'.steady
  members window := by
    rcases h'.members window with hsame | ⟨⟨previous, hprevious, hsource⟩, hthere⟩
    · rw [hsame]
      exact h.members window
    · rcases h.members window with hsame' | ⟨hleft, hthere'⟩
      · rcases hsource with hsource | rfl
        · exact .inr ⟨⟨previous, hsame' ▸ hprevious, hsource⟩, hthere⟩
        · exact .inl (by rw [hthere, ← hsame', hprevious])
      · exact .inr ⟨hleft, hthere⟩

theorem weaken {wider : Entity → Prop} (h : Moved s t source workspace)
    (hwider : ∀ previous, source previous → wider previous) : Moved s t wider workspace :=
  { h with
    members := fun window => (h.members window).imp_right fun ⟨⟨previous, hprevious, hsource⟩, hthere⟩ =>
      ⟨⟨previous, hprevious, hwider previous hsource⟩, hthere⟩ }

end Moved

section
variable {s t : Desktop} {workspace window source : Entity} {core : Core} {output : Entity}

/-- A window of one workspace is moved to another one that has an output. -/
theorem moveLeaf_moved (h : Kept s) (hmember : s.world.memberOf window = some source)
    (hcore : s.world.coreOf workspace = some core) (houtput : core.output = some output) :
    Moved s (s.moveLeaf workspace window) (fun previous => previous = source) workspace ∧
      Kept (s.moveLeaf workspace window) := by
  obtain ⟨hchanges, hselected⟩ := Workspaces.transfer_changes s.world workspace window
  have hmembers : ∀ other, (s.world.transfer workspace window).memberOf other =
      if other = window then some workspace else s.world.memberOf other := by
    intro other
    rw [Workspaces.memberOf_transfer]
    by_cases hother : other = window
    · rw [if_pos ⟨hother, ⟨source, hmember⟩, core, output, hcore, houtput⟩, if_pos hother]
    · rw [if_neg fun hand => hother hand.1, if_neg hother]
  refine ⟨⟨hchanges, hselected, ⟨rfl, rfl, rfl, rfl⟩, ?_⟩, ?_, ?_⟩
  · intro other
    by_cases hother : other = window
    · refine .inr ⟨⟨source, hother ▸ hmember, rfl⟩, ?_⟩
      show (s.world.transfer workspace window).memberOf other = _
      rw [hmembers, if_pos hother]
    · refine .inl ?_
      show (s.world.transfer workspace window).memberOf other = _
      rw [hmembers, if_neg hother]
  · exact h.orderly.same hchanges (h.orderly.soundStep (.transfer [window] workspace))
  · intro other found howner
    show (s.world.transfer workspace window).memberOf other = _
    rw [hmembers]
    have howner' : (s.owners.insert window (.tiles workspace)).lookup other =
        some (.tiles found) := howner
    rw [AList.lookup_insert_eq] at howner'
    split_ifs at howner' ⊢
    · cases howner'
      rfl
    · exact h.owned other found howner'

/-- Windows of one workspace, one after the other. -/
theorem moveLeaves_moved {leaves : List Entity} (h : Kept s)
    (hmember : ∀ leaf ∈ leaves, s.world.memberOf leaf = some source ∨
      s.world.memberOf leaf = some workspace)
    (hcore : s.world.coreOf workspace = some core) (houtput : core.output = some output) :
    Moved s (leaves.foldl (fun s leaf => s.moveLeaf workspace leaf) s)
        (fun previous => previous = source) workspace ∧
      Kept (leaves.foldl (fun s leaf => s.moveLeaf workspace leaf) s) := by
  induction leaves generalizing s with
  | nil => exact ⟨Moved.refl s _ _, h⟩
  | cons leaf leaves ih =>
      obtain ⟨hleaf, hothers⟩ := List.forall_mem_cons.mp hmember
      have hone : Moved s (s.moveLeaf workspace leaf) (fun previous => previous = source)
          workspace ∧ Kept (s.moveLeaf workspace leaf) := by
        rcases hleaf with hleaf | hleaf
        · exact moveLeaf_moved h hleaf hcore houtput
        · obtain ⟨hmoved, hkept⟩ := moveLeaf_moved h hleaf hcore houtput
          refine ⟨⟨hmoved.changes, hmoved.selected, hmoved.steady, fun window => ?_⟩, hkept⟩
          rcases hmoved.members window with hsame | ⟨⟨previous, hprevious, rfl⟩, hthere⟩
          · exact .inl hsame
          · exact .inl (by rw [hthere, hprevious])
      have hcore' : (s.moveLeaf workspace leaf).world.coreOf workspace = some core := by
        rw [hone.1.changes.cores, hcore]
        rfl
      obtain ⟨hmoved, hkept⟩ := ih hone.2 (fun other hother => by
        rcases hone.1.members other with hsame | ⟨-, hthere⟩
        · rw [hsame]
          exact hothers other hother
        · exact .inr hthere) hcore'
      exact ⟨hone.1.trans (hmoved.weaken fun previous hprevious => .inl hprevious), hkept⟩

/-- The workspace of a window that has a tree for its manager. -/
theorem moveSource_window (h : s.moveSource (.window window) = some source)
    (hmember : s.world.memberOf window ≠ none) (howner : s.owners.lookup window ≠ none) :
    s.world.memberOf window = some source := by
  obtain ⟨member, hmember⟩ := Option.ne_none_iff_exists'.mp hmember
  obtain ⟨owner, howner⟩ := Option.ne_none_iff_exists'.mp howner
  rw [moveSource, hmember, howner] at h
  dsimp only at h
  split_ifs at h
  rw [hmember, h]

/-- The workspace that a move takes windows from.  A window is moved from its own workspace. -/
def MovedFrom (s : Desktop) (node : Node) (previous : Entity) : Prop :=
  s.moveSource node = some previous ∧
    ∀ window, node = .window window → s.world.memberOf window = some previous

/-- **A tile move takes windows of one workspace to another one.** -/
theorem tileMove_moved (h : Kept s) (layout : Layout) (node : Node) (workspace : Entity)
    (anchor : Option Entity) :
    Moved s (s.tileMove layout node workspace anchor) (MovedFrom s node) workspace ∧
      Kept (s.tileMove layout node workspace anchor) := by
  have hstays : Moved s s (MovedFrom s node) workspace ∧ Kept s := ⟨Moved.refl s _ _, h⟩
  rw [tileMove]
  split
  · rename_i source output hsource houtput
    obtain ⟨state, hstate, hstateOutput⟩ := Option.bind_eq_some_iff.mp houtput
    have hcore := World.coreOf_of_lookup hstate
    by_cases hrefused : source ∉ s.tree.roots ∨ source = workspace ∨ workspace ∉ s.tree.roots
    · rw [if_pos hrefused]
      exact hstays
    rw [if_neg hrefused]
    cases hfloats : s.floats node with
    | some window =>
        -- a floating window goes alone
        cases node with
        | workspace | container => cases hfloats
        | window found =>
            rw [floats] at hfloats
            split_ifs at hfloats with hfloating
            cases hfloats
            have hmember := moveSource_window hsource hfloating.2.1 hfloating.2.2
            obtain ⟨hmoved, hkept⟩ := moveLeaf_moved h hmember hcore hstateOutput
            refine ⟨hmoved.weaken ?_, hkept⟩
            rintro previous rfl
            refine ⟨hsource, ?_⟩
            rintro other ⟨⟩
            exact hmember
    | none =>
        by_cases hroot : s.tree.root node ≠ some source
        · rw [if_pos hroot]
          exact hstays
        rw [if_neg hroot]
        cases hrelocate : layout.relocate s.tree node workspace anchor with
        | none => exact hstays
        | some relocated =>
            obtain ⟨leaves, tree⟩ := relocated
            dsimp only
            by_cases htiled : leaves.all (s.tiled source) = true
            · rw [if_pos htiled]
              have harranged : Kept { s with tree } := ⟨h.orderly, h.owned⟩
              have hleaves : ∀ leaf ∈ leaves, s.world.memberOf leaf = some source := by
                intro leaf hleaf
                have hone := List.all_eq_true.mp htiled leaf hleaf
                rw [tiled, Bool.and_eq_true_iff, Bool.and_eq_true_iff] at hone
                exact of_decide_eq_true hone.1.2
              obtain ⟨hmoved, hkept⟩ := moveLeaves_moved harranged
                (fun leaf hleaf => .inl (hleaves leaf hleaf)) hcore hstateOutput
              have hsteady := hmoved.steady
              refine ⟨⟨hmoved.changes, hmoved.selected, ⟨hsteady.describe, hsteady.settings,
                hsteady.floating, hsteady.sticky⟩, fun window => ?_⟩, hkept⟩
              rcases hmoved.members window with hsame | ⟨⟨previous, hprevious, rfl⟩, hthere⟩
              · exact .inl hsame
              · refine .inr ⟨⟨previous, hprevious, hsource, ?_⟩, hthere⟩
                rintro other rfl
                rw [layout.relocate_window _ _ _ _ _ _ hrelocate] at hleaves
                exact hleaves other (List.mem_singleton_self other)
            · rw [if_neg htiled]
              exact hstays
  · exact hstays

/-! ### Giving way -/

/-- What some workspaces that give way to another one leave behind. -/
structure Yielded (s t : Desktop) (others : List Entity) (workspace : Entity) : Prop where
  kept : Kept t
  changes : Changes s.world t.world fun other core =>
    if other ∈ others then { core with visible := false } else core
  selected : t.world.selected = s.world.selected
  steady : Steady s t
  members : ∀ window, t.world.memberOf window = s.world.memberOf window ∨
    (∃ previous ∈ others, s.world.memberOf window = some previous) ∧
      t.world.memberOf window = some workspace

variable {order : IterationOrder Entity}

theorem stickyMember (h : window ∈ s.stickyMembers order workspace) :
    s.world.memberOf window = some workspace := by
  have hsticky := (List.mem_filter.mp h).2
  rw [Bool.and_eq_true_iff] at hsticky
  exact of_decide_eq_true hsticky.2

variable {other : Entity}

/-- Windows that are in the workspace or in another one are moved one after the other. -/
theorem tileMoves_moved {windows : List Entity} (h : Kept s) (layout : Layout)
    (hmember : ∀ window ∈ windows, s.world.memberOf window = some other ∨
      s.world.memberOf window = some workspace) :
    Moved s (windows.foldl (fun s window => s.tileMove layout (.window window) workspace none) s)
        (fun previous => previous = other) workspace ∧
      Kept (windows.foldl (fun s window => s.tileMove layout (.window window) workspace none) s) := by
  induction windows generalizing s with
  | nil => exact ⟨Moved.refl s _ _, h⟩
  | cons window windows ih =>
      obtain ⟨hwindow, hothers⟩ := List.forall_mem_cons.mp hmember
      obtain ⟨hone, hkept⟩ := tileMove_moved h layout (.window window) workspace none
      have hfrom : ∀ previous, MovedFrom s (.window window) previous →
          previous = other ∨ previous = workspace := by
        rintro previous ⟨-, hprevious⟩
        have hthere := hprevious window rfl
        rcases hwindow with hwindow | hwindow
        · rw [hwindow] at hthere
          exact .inl (Option.some.inj hthere).symm
        · rw [hwindow] at hthere
          exact .inr (Option.some.inj hthere).symm
      have hfirst : Moved s (s.tileMove layout (.window window) workspace none)
          (fun previous => previous = other) workspace :=
        (Moved.refl s _ _).trans (hone.weaken hfrom)
      obtain ⟨hmoved, hkept'⟩ := ih hkept fun later hlater => by
        rcases hone.members later with hsame | ⟨-, hthere⟩
        · rw [hsame]
          exact hothers later hlater
        · exact .inr hthere
      exact ⟨hfirst.trans (hmoved.weaken fun previous hprevious => .inl hprevious), hkept'⟩

/-- **A workspace gives way: it is hidden, and its sticky windows are in the other one.** -/
theorem giveWay_spec {others : List Entity} (order : IterationOrder Entity)
    (layout : Layout) (h : Yielded s t others workspace) :
    Yielded s (t.giveWay order layout s workspace other) (others ++ [other]) workspace := by
  have hsticky : ∀ window ∈ s.stickyMembers order other, t.world.memberOf window = some other ∨
      t.world.memberOf window = some workspace := by
    intro window hwindow
    rcases h.members window with hsame | ⟨-, hthere⟩
    · exact .inl (hsame.trans (stickyMember hwindow))
    · exact .inr hthere
  obtain ⟨hmoved, hkept⟩ := tileMoves_moved h.kept layout hsticky
  have hhides := Workspaces.request_setVisible ((s.stickyMembers order other).foldl
    (fun s window => s.tileMove layout (.window window) workspace none) t).world other false
  rw [giveWay]
  refine ⟨hkept.proceed (hkept.orderly.hide other) hhides.2.2, ?_, ?_,
    (h.steady.trans hmoved.steady).trans (ask_steady _), ?_⟩
  · rw [ask_world]
    refine ((h.changes.trans hmoved.changes).trans hhides.1).congr ?_
    intro found core _
    by_cases hfound : found = other
    · subst hfound
      rw [if_pos ⟨rfl, .inl rfl⟩, if_pos (List.mem_append_right _ (List.mem_singleton_self _))]
      split_ifs
      · rfl
      · rfl
    · rw [if_neg fun hand => hfound hand.1]
      have hsame : found ∈ others ++ [other] ↔ found ∈ others := by
        rw [List.mem_append, List.mem_singleton, or_iff_left hfound]
      rw [if_congr hsame rfl rfl]
  · rw [ask_world, hhides.2.1, hmoved.selected, h.selected]
  · intro window
    rw [ask_world, hhides.2.2]
    rcases hmoved.members window with hsame | ⟨⟨previous, hprevious, rfl⟩, hthere⟩
    · rw [hsame]
      refine (h.members window).imp_right fun ⟨⟨found, hfound, hwas⟩, hthere⟩ => ?_
      exact ⟨⟨found, List.mem_append_left _ hfound, hwas⟩, hthere⟩
    · rcases h.members window with hsame | ⟨⟨found, hfound, hwas⟩, -⟩
      · rw [hsame] at hprevious
        exact .inr ⟨⟨previous, List.mem_append_right _ (List.mem_singleton_self _), hprevious⟩,
          hthere⟩
      · exact .inr ⟨⟨found, List.mem_append_left _ hfound, hwas⟩, hthere⟩

theorem giveWays_spec (others : List Entity) (order : IterationOrder Entity) (layout : Layout)
    (workspace : Entity) (h : Kept s) :
    Yielded s (others.foldl (fun t other => t.giveWay order layout s workspace other) s) others
      workspace := by
  induction others using List.reverseRecOn with
  | nil =>
      refine ⟨h, (Changes.refl s.world).congr fun other core _ => ?_, rfl, Steady.refl s,
        fun _ => .inl rfl⟩
      rw [if_neg List.not_mem_nil]
  | append_singleton others other ih =>
      rw [List.foldl_append]
      exact giveWay_spec order layout ih

/-! ### A switch -/

/-- What a switch to a workspace of an output comes to. -/
structure Switched (s t : Desktop) (workspace output : Entity) : Prop where
  kept : Kept t
  changes : Changes s.world t.world fun other core =>
    if core.output = some output then { core with visible := decide (other = workspace) } else core
  selected : t.world.selected = some workspace
  steady : Steady s t
  members : ∀ window, t.world.memberOf window = s.world.memberOf window ∨
    (∃ previous core, s.world.memberOf window = some previous ∧ previous ≠ workspace ∧
      s.world.coreOf previous = some core ∧ core.visible = true ∧ core.output = some output) ∧
      t.world.memberOf window = some workspace

/-- The workspaces that give way are the visible ones of the output. -/
theorem mem_others :
    other ∈ ((s.workspaces order).filter (givesWay workspace output)).map Prod.fst ↔
      other ≠ workspace ∧ ∃ core, s.world.coreOf other = some core ∧ core.visible = true ∧
        core.output = some output := by
  rw [List.mem_map]
  constructor
  · rintro ⟨⟨found, state⟩, hfound, rfl⟩
    obtain ⟨hmem, hgives⟩ := List.mem_filter.mp hfound
    simp only [givesWay, Bool.and_eq_true, decide_eq_true_eq] at hgives
    exact ⟨hgives.1.1, state.core, World.coreOf_of_lookup (mem_workspaces.mp hmem), hgives.1.2,
      hgives.2⟩
  · rintro ⟨hother, core, hcore, hvisible, houtput⟩
    obtain ⟨state, hstate, rfl⟩ := World.lookup_of_coreOf hcore
    refine ⟨(other, state), List.mem_filter.mpr ⟨mem_workspaces.mpr hstate, ?_⟩, rfl⟩
    simp only [givesWay, Bool.and_eq_true, decide_eq_true_eq]
    exact ⟨⟨hother, hvisible⟩, houtput⟩

/-- A switch ends with the selection of its workspace. -/
theorem finishSwitch_selects (h : Kept s) (hselectable : s.world.Selectable workspace)
    (retained : Option Entity) :
    Kept (s.finishSwitch workspace retained) ∧
      Changes s.world (s.finishSwitch workspace retained).world (fun _ core => core) ∧
      (s.finishSwitch workspace retained).world.selected = some workspace ∧
      Steady s (s.finishSwitch workspace retained) ∧
      (s.finishSwitch workspace retained).world.memberOf = s.world.memberOf := by
  rw [finishSwitch]
  generalize hwindow : ((retained.filter fun window =>
    decide (s.world.memberOf window = some workspace)).or (s.focusTarget workspace)) = window
  obtain ⟨hchanges, hselected, hmember⟩ := Workspaces.request_select s.world workspace window
  have hthere : ∀ w ∈ window, s.world.memberOf w = some workspace := by
    intro w hw
    rw [← hwindow] at hw
    rcases Option.or_eq_some_iff.mp hw with hretained | ⟨-, htarget⟩
    · exact of_decide_eq_true (Option.filter_eq_some_iff.mp hretained).2
    · exact focusTarget_member h.owned htarget
  rw [if_pos ⟨hselectable, hthere⟩] at hselected
  refine ⟨h.proceed (h.orderly.same hchanges (h.orderly.soundRequest _)) hmember, ?_, ?_,
    ask_steady _, ?_⟩
  · rw [ask_world]
    exact hchanges
  · rw [ask_world]
    exact hselected
  · rw [ask_world]
    exact hmember

/-- **A switch shows its workspace alone on its output, and selects it.** -/
theorem resolvedSwitch_switched (h : Kept s) (order : IterationOrder Entity) (layout : Layout)
    (hcore : s.world.coreOf workspace = some core) (houtput : core.output = some output) :
    Switched s (s.resolvedSwitch order layout workspace) workspace output := by
  obtain ⟨state, hstate, rfl⟩ := World.lookup_of_coreOf hcore
  have hfound : (s.world.workspaces.lookup workspace).bind (·.output) = some output := by
    rw [hstate]
    exact houtput
  rw [resolvedSwitch, hfound]
  dsimp only
  generalize hretained : (if (s.world.focus.any fun window =>
    (((s.workspaces order).filter (givesWay workspace output)).map Prod.fst).any fun other =>
      decide (window ∈ s.stickyMembers order other)) = true then s.world.focus
    else s.focusTarget workspace) = retained
  generalize hothers : ((s.workspaces order).filter (givesWay workspace output)).map
    Prod.fst = others
  have hmem : ∀ other, other ∈ others ↔ other ≠ workspace ∧ ∃ core,
      s.world.coreOf other = some core ∧ core.visible = true ∧ core.output = some output := by
    intro other
    rw [← hothers]
    exact mem_others
  have hyield := giveWays_spec others order layout workspace h
  generalize others.foldl (fun t other => t.giveWay order layout s workspace other) s = t
    at hyield
  -- nothing else is visible on the output any more
  have halone : ∀ other core, t.world.coreOf other = some core → core.visible = true →
      core.output = some output → other = workspace := by
    intro other found hother hvisible hthere
    rw [hyield.changes.cores, Option.map_eq_some_iff] at hother
    obtain ⟨before, hbefore, rfl⟩ := hother
    by_contra hne
    split_ifs at hvisible hthere with hgone
    exact hgone ((hmem other).mpr ⟨hne, before, hbefore, hvisible, hthere⟩)
  have hself : t.world.coreOf workspace = some state.core := by
    rw [hyield.changes.cores, hcore, Option.map_some, if_neg fun hin => ((hmem _).mp hin).1 rfl]
  have hpresentable : state.core.presentable t.world.outputs :=
    hyield.kept.orderly.presentable hself houtput
  have hshows := Workspaces.request_setVisible t.world workspace true
  have hshown : Kept (t.ask (.setVisible workspace true)) := by
    refine hyield.kept.proceed (hyield.kept.orderly.reveal workspace output halone ?_) hshows.2.2
    intro found hthere
    rw [hself] at hthere
    cases hthere
    exact houtput
  have hselectable : (t.ask (.setVisible workspace true)).world.Selectable workspace := by
    refine ⟨{ state.core with visible := true }, ?_, rfl, output, houtput, ?_⟩
    · rw [ask_world, hshows.1.cores, hself, Option.map_some, if_pos ⟨rfl, .inr hpresentable⟩]
    · rw [ask_world, hshows.1.outputs]
      exact hyield.kept.orderly.live workspace _ output hself houtput
  obtain ⟨hkept, hchanges, hselected, hsteady, hmember⟩ :=
    finishSwitch_selects hshown hselectable retained
  refine ⟨hkept, ?_, hselected, (hyield.steady.trans (ask_steady _)).trans hsteady, ?_⟩
  · rw [ask_world] at hchanges
    refine ((hyield.changes.trans hshows.1).trans hchanges).congr ?_
    intro other found hother
    by_cases hworkspace : other = workspace
    · subst hworkspace
      rw [hcore] at hother
      cases hother
      rw [if_neg fun hin => ((hmem _).mp hin).1 rfl, if_pos ⟨rfl, .inr hpresentable⟩, if_pos houtput,
        decide_eq_true rfl]
    · rw [if_neg fun hand => hworkspace hand.1, decide_eq_false hworkspace]
      by_cases hin : other ∈ others
      · obtain ⟨-, before, hbefore, -, hthere⟩ := (hmem other).mp hin
        rw [hother] at hbefore
        cases hbefore
        rw [if_pos hin, if_pos hthere]
      · rw [if_neg hin]
        split_ifs with hthere
        · have hhidden : found.visible = false := by
            by_contra hvisible
            exact hin ((hmem other).mpr ⟨hworkspace, found, hother,
              Bool.eq_true_of_not_eq_false hvisible, hthere⟩)
          rw [← hhidden]
        · rfl
  · intro window
    rw [hmember, ask_world, hshows.2.2]
    refine (hyield.members window).imp_right fun ⟨⟨previous, hprevious, hwas⟩, hthere⟩ => ?_
    obtain ⟨hne, found, hcore', hvisible, houtput'⟩ := (hmem previous).mp hprevious
    exact ⟨⟨previous, found, hwas, hne, hcore', hvisible, houtput'⟩, hthere⟩

/-- Without an output nothing happens. -/
theorem resolvedSwitch_none (order : IterationOrder Entity) (layout : Layout)
    (h : ∀ core, s.world.coreOf workspace = some core → core.output = none) :
    s.resolvedSwitch order layout workspace = s := by
  have hnone : (s.world.workspaces.lookup workspace).bind (·.output) = none := by
    cases hstate : s.world.workspaces.lookup workspace with
    | none => rfl
    | some state => exact h state.core (World.coreOf_of_lookup hstate)
  rw [resolvedSwitch, hnone]

end

end I3
