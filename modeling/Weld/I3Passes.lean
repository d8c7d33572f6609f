/-
**The passes of i3.**

A pass first adopts the workspaces of outputs that are gone: each is hidden and assigned to an output
that is there, and the selected one is shown.  Then each output that shows nothing gets a workspace, one
of its own or a new one, and the workspaces that are idle go.  After a pass every output shows a
workspace, unless the identifiers of workspaces are used up.

Main definitions: `ShownOn`, `Orphan`, `Adopted`, `Bootstrapped`, `Reaped`.

Main results:

* `adoptAll`, `Proper.bootstrapAll`, `Proper.reap` — the parts of a pass;
* `Proper.pass` — a pass.
-/

import Weld.I3Handlers

namespace I3

open Workspaces (Entity World Workspace WorkspaceRequest Event Core Changes)

/-- The output shows a workspace. -/
def ShownOn (s : World) (output : Entity) : Prop :=
  ∃ workspace core, s.coreOf workspace = some core ∧ core.visible = true ∧ core.output = some output

/-- The workspace has lost its output. -/
def Orphan (s : World) (workspace : Entity) : Prop :=
  ∃ core, s.coreOf workspace = some core ∧ core.output = none

/-- The output has no workspace and cannot get one, for there are no identifiers left. -/
def Stuck (s : World) (output : Entity) : Prop :=
  s.nextId = Workspaces.u64Max ∧
    ∀ workspace core, s.coreOf workspace = some core → core.output ≠ some output

/-! ### Adoption -/

/-- What is left behind when some of the orphans have been adopted. -/
structure Adopted (s t : Desktop) (fallback : Entity) (done : List Entity) : Prop where
  handled : Handled s t
  outputs : t.world.outputs = s.world.outputs
  selected : t.world.selected = s.world.selected
  /-- Only orphans change, and one that is adopted and not selected is hidden. -/
  origin : ∀ workspace core', t.world.coreOf workspace = some core' →
    ∃ core, s.world.coreOf workspace = some core ∧
      (core.output ≠ none → core'.output = core.output) ∧
      (core.output = none → workspace ∈ done → core'.output ≠ none) ∧
      (core.output = none → core' = core ∨ core'.visible = false ∨
        s.world.selected = some workspace ∧ core'.output = some fallback)
  shown : ∀ output, ShownOn s.world output → ShownOn t.world output
  members : ∀ window workspace, Orphan s.world workspace →
    s.world.memberOf window = some workspace → t.world.memberOf window = some workspace

variable {output : Entity} {order : IterationOrder Entity}

section
variable {s t : Desktop} {workspace fallback : Entity} {done : List Entity}

theorem Proper.adopted (h : Proper s) : Adopted s s fallback [] := by
  refine ⟨h.refl, rfl, rfl, fun workspace core hcore => ?_, fun _ hshown => hshown,
    fun _ _ _ hmember => hmember⟩
  exact ⟨core, hcore, fun _ => rfl, fun _ hdone => absurd hdone List.not_mem_nil, fun _ => .inl rfl⟩

/-- A workspace is hidden, and assigned to an output that is there. -/
theorem rehome_spec (h : Kept t) (workspace : Entity) (hlive : fallback ∈ t.world.outputs) :
    Kept ((t.ask (.setVisible workspace false)).ask (.assign workspace fallback)) ∧
      Changes t.world ((t.ask (.setVisible workspace false)).ask (.assign workspace fallback)).world
        (fun other core => if other = workspace then
          { core with visible := false, output := some fallback } else core) ∧
      ((t.ask (.setVisible workspace false)).ask (.assign workspace fallback)).world.selected =
        t.world.selected ∧
      ((t.ask (.setVisible workspace false)).ask (.assign workspace fallback)).world.memberOf =
        t.world.memberOf := by
  have hhides := Workspaces.request_setVisible t.world workspace false
  have hassigns := Workspaces.request_assign (t.ask (.setVisible workspace false)).world workspace
    fallback
  have hkept : Kept (t.ask (.setVisible workspace false)) :=
    h.proceed (h.orderly.hide workspace) hhides.2.2
  rw [← ask_world] at hhides
  have hhidden : ∀ core, (t.ask (.setVisible workspace false)).world.coreOf workspace = some core →
      core.visible = false := by
    intro core hcore
    rw [hhides.1.cores, Option.map_eq_some_iff] at hcore
    obtain ⟨before, -, rfl⟩ := hcore
    rw [if_pos ⟨rfl, .inl rfl⟩]
  refine ⟨hkept.proceed (hkept.orderly.assign fallback hhidden) hassigns.2.2, ?_, ?_, ?_⟩
  · rw [ask_world]
    refine (hhides.1.trans hassigns.1).congr fun other core _ => ?_
    have hlive' : fallback ∈ (t.ask (.setVisible workspace false)).world.outputs := by
      rw [hhides.1.outputs]
      exact hlive
    by_cases hother : other = workspace
    · rw [if_pos ⟨hother, hlive'⟩, if_pos ⟨hother, .inl rfl⟩, if_pos hother]
    · rw [if_neg fun hand => hother hand.1, if_neg fun hand => hother hand.1, if_neg hother]
  · rw [ask_world, hassigns.2.1, hhides.2.1]
  · rw [ask_world, hassigns.2.2, hhides.2.2]

section

variable (h : Adopted s t fallback done)
include h

/-- What a visible workspace of an output is, it was visible there before, unless it is selected. -/
theorem Adopted.not_orphan {other : Entity} {core' : Core} (hcore : t.world.coreOf other = some core')
    (hvisible : core'.visible = true) (houtput : core'.output = some output)
    (hselected : s.world.selected ≠ some other) : ¬Orphan s.world other := by
  rintro ⟨core, hbefore, hnone⟩
  obtain ⟨core₀, hcore₀, -, -, horphan⟩ := h.origin other core' hcore
  rw [hbefore] at hcore₀
  cases hcore₀
  rcases horphan hnone with rfl | hhidden | ⟨hsel, -⟩
  · rw [houtput] at hnone
    cases hnone
  · rw [hvisible] at hhidden
    cases hhidden
  · exact hselected hsel

/-- The orphan is hidden, and is in another place. -/
theorem Adopted.hidden (horphan : Orphan s.world workspace) (hlive : fallback ∈ s.world.outputs)
    (hselected : s.world.selected ≠ some workspace) :
    Adopted s ((t.ask (.setVisible workspace false)).ask (.assign workspace fallback)) fallback
      (done ++ [workspace]) := by
  obtain ⟨hkept, hchanges, hsame, hmember⟩ :=
    rehome_spec h.handled.proper.toKept workspace (h.outputs ▸ hlive)
  refine ⟨⟨⟨hkept, ?_⟩, fun other hmem => ?_⟩, ?_, ?_, ?_, ?_, ?_⟩
  · intro selected hsel
    rw [hsame] at hsel
    obtain ⟨core, hcore, hvisible⟩ := h.handled.proper.shown selected hsel
    refine ⟨core, ?_, hvisible⟩
    rw [hchanges.cores, hcore, Option.map_some, if_neg]
    rintro rfl
    exact hselected (h.selected ▸ hsel)
  · exact (hchanges.mem_iff other).mpr (h.handled.stays other hmem)
  · exact hchanges.outputs.trans h.outputs
  · exact hsame.trans h.selected
  · intro other core' hcore'
    rw [hchanges.cores, Option.map_eq_some_iff] at hcore'
    obtain ⟨between, hbetween, rfl⟩ := hcore'
    obtain ⟨core, hcore, houtput, hdone, hnone⟩ := h.origin other between hbetween
    by_cases hother : other = workspace
    · subst hother
      obtain ⟨core₀, hcore₀, hgone⟩ := horphan
      rw [hcore] at hcore₀
      cases hcore₀
      refine ⟨core, hcore, fun hsome => absurd hgone hsome, ?_, ?_⟩
      · rw [if_pos rfl]
        intro _ _ hfalse
        cases hfalse
      · rw [if_pos rfl]
        exact fun _ => .inr (.inl rfl)
    · rw [if_neg hother]
      refine ⟨core, hcore, houtput, fun hnone' hmem => ?_, hnone⟩
      rcases List.mem_append.mp hmem with hmem | hmem
      · exact hdone hnone' hmem
      · exact absurd (List.mem_singleton.mp hmem) hother
  · intro output hshown
    obtain ⟨other, core, hcore, hvisible, houtput⟩ := h.shown output hshown
    refine ⟨other, core, ?_, hvisible, houtput⟩
    rw [hchanges.cores, hcore, Option.map_some, if_neg]
    rintro rfl
    exact h.not_orphan hcore hvisible houtput hselected horphan
  · intro window other horphan' hwas
    rw [hmember]
    exact h.members window other horphan' hwas

/-- The selected orphan is shown in another place. -/
theorem Adopted.switched (order : IterationOrder Entity) (layout : Layout)
    (horphan : Orphan s.world workspace) (hlive : fallback ∈ s.world.outputs)
    (hselected : s.world.selected = some workspace) :
    Adopted s (((t.ask (.setVisible workspace false)).ask (.assign workspace fallback)).resolvedSwitch
      order layout workspace) fallback (done ++ [workspace]) := by
  obtain ⟨hkept, hchanges, -, hmember⟩ :=
    rehome_spec h.handled.proper.toKept workspace (h.outputs ▸ hlive)
  generalize (t.ask (.setVisible workspace false)).ask (.assign workspace fallback) = u
    at hkept hchanges hmember
  obtain ⟨core₀, hcore₀, hgone⟩ := horphan
  have hthere : ∃ between, t.world.coreOf workspace = some between := by
    have hmem : workspace ∈ s.world.workspaces := by
      by_contra hnot
      rw [World.coreOf_eq_none.mpr hnot] at hcore₀
      cases hcore₀
    exact Option.ne_none_iff_exists'.mp fun hnone =>
      World.coreOf_eq_none.mp hnone (h.handled.stays workspace hmem)
  obtain ⟨between, hbetween⟩ := hthere
  have hcore : u.world.coreOf workspace =
      some { between with visible := false, output := some fallback } := by
    rw [hchanges.cores, hbetween, Option.map_some, if_pos rfl]
  have hswitch := resolvedSwitch_switched hkept order layout hcore rfl
  have hafter : (u.resolvedSwitch order layout workspace).world.coreOf workspace =
      some { between with visible := true, output := some fallback } := by
    rw [hswitch.changes.cores, hcore, Option.map_some, if_pos rfl, decide_eq_true rfl]
  refine ⟨⟨(hswitch.handled hcore rfl).proper, fun other hmem => ?_⟩, ?_, ?_, ?_, ?_, ?_⟩
  · rw [hswitch.changes.mem_iff, hchanges.mem_iff]
    exact h.handled.stays other hmem
  · rw [hswitch.changes.outputs, hchanges.outputs, h.outputs]
  · rw [hswitch.selected, hselected]
  · intro other core' hcore'
    by_cases hother : other = workspace
    · subst hother
      rw [hafter] at hcore'
      cases hcore'
      refine ⟨core₀, hcore₀, fun hsome => absurd hgone hsome, ?_, fun _ => .inr (.inr ⟨hselected, rfl⟩)⟩
      intro _ _ hfalse
      cases hfalse
    · rw [hswitch.changes.cores, hchanges.cores, Option.map_map, Option.map_eq_some_iff] at hcore'
      obtain ⟨old, hold, rfl⟩ := hcore'
      obtain ⟨core, hbefore, houtput, hdone, hnone⟩ := h.origin other old hold
      rw [Function.comp_apply, if_neg hother]
      refine ⟨core, hbefore, ?_, ?_, ?_⟩
      · intro hsome
        split_ifs <;> exact houtput hsome
      · intro hnone' hmem
        have hmem' : other ∈ done := by
          rcases List.mem_append.mp hmem with hmem | hmem
          · exact hmem
          · exact absurd (List.mem_singleton.mp hmem) hother
        split_ifs <;> exact hdone hnone' hmem'
      · intro hnone'
        split_ifs
        · exact .inr (.inl (decide_eq_false hother))
        · exact hnone hnone'
  · intro output hshown
    obtain ⟨other, core, hcore', hvisible, houtput⟩ := h.shown output hshown
    by_cases hfallback : output = fallback
    · exact ⟨workspace, _, hafter, rfl, by rw [hfallback]⟩
    · by_cases hother : other = workspace
      · -- the orphan has no other output than the one it is assigned to
        subst hother
        obtain ⟨core₁, hcore₁, -, -, hnone⟩ := h.origin other core hcore'
        rw [hcore₀] at hcore₁
        cases hcore₁
        rcases hnone hgone with rfl | hhidden | ⟨-, hassigned⟩
        · rw [hgone] at houtput
          cases houtput
        · rw [hvisible] at hhidden
          cases hhidden
        · rw [houtput] at hassigned
          exact absurd (Option.some.inj hassigned) hfallback
      · refine ⟨other, core, ?_, hvisible, houtput⟩
        rw [hswitch.changes.cores, hchanges.cores, hcore', Option.map_some, Option.map_some,
          if_neg hother, if_neg]
        rw [houtput]
        exact fun heq => hfallback (Option.some.inj heq)
  · intro window other horphan' hwas
    rcases hswitch.members window with hsame | ⟨⟨previous, core, hprevious, hne, hcore', hvisible,
      houtput⟩, -⟩
    · rw [hsame, hmember]
      exact h.members window other horphan' hwas
    · -- nobody leaves a workspace that was an orphan
      rw [hmember, h.members window other horphan' hwas] at hprevious
      cases hprevious
      rw [hchanges.cores, Option.map_eq_some_iff] at hcore'
      obtain ⟨old, hold, rfl⟩ := hcore'
      rw [if_neg hne] at hvisible houtput
      refine absurd horphan' (h.not_orphan hold hvisible houtput ?_)
      rw [hselected]
      exact fun heq => hne (Option.some.inj heq).symm

/-- A workspace that has no output, or one that is gone, is adopted. -/
theorem Adopted.adopt (hs : Proper s) (order : IterationOrder Entity) (layout : Layout)
    (hlive : fallback ∈ s.world.outputs) {entry : Entity × Workspace}
    (hentry : entry ∈ s.workspaces order) :
    Adopted s (t.adopt order layout s fallback entry) fallback (done ++ [entry.1]) := by
  obtain ⟨workspace, state⟩ := entry
  have hcore := World.coreOf_of_lookup (mem_workspaces.mp hentry)
  rw [Desktop.adopt]
  by_cases horphaned : s.orphaned state = true
  · rw [if_pos horphaned]
    have horphan : Orphan s.world workspace := by
      refine ⟨state.core, hcore, ?_⟩
      by_contra hsome
      obtain ⟨output, houtput⟩ := Option.ne_none_iff_exists'.mp hsome
      have hout : state.output = some output := houtput
      rw [Desktop.orphaned, hout] at horphaned
      exact of_decide_eq_true horphaned (hs.orderly.live workspace _ output hcore houtput)
    by_cases hselected : s.world.selected = some workspace
    · rw [if_pos hselected]
      exact h.switched order layout horphan hlive hselected
    · rw [if_neg hselected]
      exact h.hidden horphan hlive hselected
  · rw [if_neg horphaned]
    refine ⟨h.handled, h.outputs, h.selected, fun other core' hcore' => ?_, h.shown, h.members⟩
    obtain ⟨core, hbefore, houtput, hdone, hnone⟩ := h.origin other core' hcore'
    refine ⟨core, hbefore, houtput, fun hnone' hmem => ?_, hnone⟩
    rcases List.mem_append.mp hmem with hmem | hmem
    · exact hdone hnone' hmem
    · rw [List.mem_singleton] at hmem
      subst hmem
      rw [hcore] at hbefore
      cases hbefore
      have hout : state.output = none := hnone'
      rw [Desktop.orphaned, hout] at horphaned
      exact absurd rfl horphaned

end

/-- **All orphans are adopted.** -/
theorem adoptAll (h : Proper s) (order : IterationOrder Entity) (layout : Layout)
    (hlive : fallback ∈ s.world.outputs) :
    Adopted s ((s.workspaces order).foldl (fun t entry => t.adopt order layout s fallback entry) s)
      fallback ((s.workspaces order).map Prod.fst) := by
  have hall : ∀ entries : List (Entity × Workspace), (∀ entry ∈ entries, entry ∈ s.workspaces order) →
      Adopted s (entries.foldl (fun t entry => t.adopt order layout s fallback entry) s) fallback
        (entries.map Prod.fst) := by
    intro entries
    induction entries using List.reverseRecOn with
    | nil => exact fun _ => h.adopted
    | append_singleton entries entry ih =>
        intro hmem
        rw [List.foldl_append, List.map_append]
        exact (ih fun other hother => hmem other (List.mem_append_left _ hother)).adopt h order layout
          hlive (hmem entry (List.mem_append_right _ (List.mem_singleton_self entry)))
  exact hall _ fun _ hentry => hentry

theorem Adopted.placed (h : Adopted s t fallback ((s.workspaces order).map Prod.fst))
    (workspace : Entity) : ¬Orphan t.world workspace := by
  rintro ⟨core', hcore', hgone⟩
  obtain ⟨core, hcore, houtput, hdone, -⟩ := h.origin workspace core' hcore'
  obtain ⟨state, hstate, rfl⟩ := World.lookup_of_coreOf hcore
  by_cases hnone : state.core.output = none
  · exact hdone hnone (List.mem_map.mpr ⟨(workspace, state), mem_workspaces.mpr hstate, rfl⟩) hgone
  · exact hnone ((houtput hnone).symm.trans hgone)

end

/-! ### Bootstrap -/

/-- What is left behind when outputs have got something to show. -/
structure Bootstrapped (s t : Desktop) : Prop where
  handled : Handled s t
  outputs : t.world.outputs = s.world.outputs
  selected : ∀ workspace, s.world.selected = some workspace → t.world.selected = some workspace
  members : t.world.memberOf = s.world.memberOf
  nextId : s.world.nextId ≤ t.world.nextId
  /-- A workspace of an output was there before, unless there were identifiers left. -/
  origin : ∀ workspace core', t.world.coreOf workspace = some core' →
    (∃ core, s.world.coreOf workspace = some core ∧ core.output = core'.output) ∨
      core'.output ≠ none ∧ s.world.nextId < Workspaces.u64Max
  shown : ∀ output, ShownOn s.world output → ShownOn t.world output

variable {s t : Desktop}

theorem Bootstrapped.placed (h : Bootstrapped s t) {workspace : Entity}
    (horphan : Orphan t.world workspace) : Orphan s.world workspace := by
  obtain ⟨core', hcore', hnone⟩ := horphan
  rcases h.origin workspace core' hcore' with ⟨core, hcore, houtput⟩ | ⟨hsome, -⟩
  · exact ⟨core, hcore, houtput.trans hnone⟩
  · exact absurd hnone hsome

theorem Bootstrapped.stuck (h : Bootstrapped s t) (hstuck : Stuck s.world output) :
    Stuck t.world output := by
  refine ⟨Nat.le_antisymm h.handled.proper.orderly.bounded ?_, fun workspace core' hcore' => ?_⟩
  · rw [← hstuck.1]
    exact h.nextId
  · rcases h.origin workspace core' hcore' with ⟨core, hcore, houtput⟩ | ⟨-, hlt⟩
    · rw [← houtput]
      exact hstuck.2 workspace core hcore
    · rw [hstuck.1] at hlt
      exact absurd hlt (Nat.lt_irrefl _)

theorem Bootstrapped.trans {u : Desktop} (h : Bootstrapped s t) (h' : Bootstrapped t u) :
    Bootstrapped s u where
  handled := h.handled.trans h'.handled
  outputs := h'.outputs.trans h.outputs
  selected workspace hselected := h'.selected workspace (h.selected workspace hselected)
  members := h'.members.trans h.members
  nextId := Nat.le_trans h.nextId h'.nextId
  origin workspace core hcore := by
    rcases h'.origin workspace core hcore with ⟨between, hbetween, houtput⟩ | ⟨hsome, hlt⟩
    · rcases h.origin workspace between hbetween with ⟨before, hbefore, heq⟩ | ⟨hsome, hlt⟩
      · exact .inl ⟨before, hbefore, heq.trans houtput⟩
      · rw [houtput] at hsome
        exact .inr ⟨hsome, hlt⟩
    · exact .inr ⟨hsome, Nat.lt_of_le_of_lt h.nextId hlt⟩
  shown output hshown := h'.shown output (h.shown output hshown)

theorem Proper.bootstrapped (h : Proper s) : Bootstrapped s s :=
  ⟨h.refl, rfl, fun _ hselected => hselected, rfl, Nat.le_refl _,
    fun _ core hcore => .inl ⟨core, hcore, rfl⟩, fun _ hshown => hshown⟩

section
variable {s t : Desktop} {workspace output : Entity} {core : Core} {f : Entity → Core → Core}

section

variable (h : Proper s)
include h

/-- Nobody is hidden or assigned elsewhere, and nothing is selected in place of another workspace. -/
theorem Proper.bootstrappedChanges (hkept : Kept t) (hchanges : Changes s.world t.world f) (hselected
      : t.world.selected = s.world.selected ∨ s.world.selected = none ∧ ∃ workspace core,
      s.world.coreOf workspace = some core ∧ core.visible = true ∧ t.world.selected = some workspace)
    (hmember : t.world.memberOf = s.world.memberOf)
    (houtput : ∀ workspace core, (f workspace core).output = core.output) (hvisible : ∀ workspace
      core, s.world.coreOf workspace = some core → core.visible = true → (f workspace core).visible =
      true) : Bootstrapped s t := by
  refine ⟨h.changes hkept hchanges (hselected.imp_right And.right) hvisible, hchanges.outputs, ?_,
    hmember, Nat.le_of_eq hchanges.nextId.symm, ?_, ?_⟩
  · intro workspace hworkspace
    rcases hselected with hsame | ⟨hnone, -⟩
    · exact hsame.trans hworkspace
    · rw [hworkspace] at hnone
      cases hnone
  · intro workspace core' hcore'
    rw [hchanges.cores, Option.map_eq_some_iff] at hcore'
    obtain ⟨core, hcore, rfl⟩ := hcore'
    exact .inl ⟨core, hcore, (houtput workspace core).symm⟩
  · rintro output ⟨workspace, core, hcore, hshown, hthere⟩
    refine ⟨workspace, f workspace core, ?_, hvisible workspace core hcore hshown,
      (houtput workspace core).trans hthere⟩
    rw [hchanges.cores, hcore, Option.map_some]

/-- A visible workspace of an output is selected: nothing else changes. -/
theorem Proper.bootstrapSwitch (order : IterationOrder Entity) (layout : Layout)
    (hcore : s.world.coreOf workspace = some core) (hvisible : core.visible = true)
    (houtput : core.output = some output) (hnone : s.world.selected = none) :
    Bootstrapped s (s.resolvedSwitch order layout workspace) ∧
      (s.resolvedSwitch order layout workspace).world.selected = some workspace := by
  have hswitch := resolvedSwitch_switched h.toKept order layout hcore houtput
  have halone : ∀ other found, s.world.coreOf other = some found → found.visible = true →
      found.output = some output → other = workspace := fun other found hother hshown hthere =>
    h.orderly.single other workspace found core output hother hcore hshown hvisible hthere houtput
  refine ⟨h.bootstrappedChanges hswitch.kept hswitch.changes
    (.inr ⟨hnone, workspace, core, hcore, hvisible, hswitch.selected⟩) ?_ ?_ ?_, hswitch.selected⟩
  · funext window
    rcases hswitch.members window with hsame | ⟨⟨previous, found, -, hne, hfound, hshown, hthere⟩, -⟩
    · exact hsame
    · exact absurd (halone previous found hfound hshown hthere) hne
  · intro other found
    split_ifs
    · rfl
    · rfl
  · intro other found hother hshown
    split_ifs with hthere
    · exact decide_eq_true (halone other found hother hshown hthere)
    · exact hshown

omit h in
theorem Created.bootstrapped {name : String} {created : Entity}
    (h : Created s t name output created) : Bootstrapped s t := by
  refine ⟨h.handled, h.outputs, fun workspace hselected => h.selected.trans hselected, h.members,
    ?_, ?_, ?_⟩
  · rw [h.nextId]
    exact Nat.le_succ _
  · intro workspace core hcore
    rw [h.cores] at hcore
    split_ifs at hcore
    · cases hcore
      have hbound := h.handled.proper.orderly.bounded
      rw [h.nextId] at hbound
      exact .inr ⟨Option.some_ne_none _, hbound⟩
    · exact .inl ⟨core, hcore, rfl⟩
  · rintro found ⟨workspace, core, hcore, hvisible, hthere⟩
    refine ⟨workspace, core, ?_, hvisible, hthere⟩
    rw [h.cores, if_neg]
    · exact hcore
    · rintro rfl
      rw [h.fresh] at hcore
      cases hcore

/-- A workspace is shown on an output that shows nothing. -/
theorem Proper.bootstrapReveal (hcore : s.world.coreOf workspace = some core)
    (houtput : core.output = some output) (hnothing : ¬ShownOn s.world output) :
    Bootstrapped s (s.ask (.setVisible workspace true)) ∧
      (s.ask (.setVisible workspace true)).world.coreOf workspace =
        some { core with visible := true } ∧
      (s.ask (.setVisible workspace true)).world.selected = s.world.selected := by
  obtain ⟨hchanges, hselected, hmember⟩ := Workspaces.request_setVisible s.world workspace true
  have horderly := h.orderly.reveal workspace output (fun other found hother hvisible hthere =>
      absurd ⟨other, found, hother, hvisible, hthere⟩ hnothing)
    (fun found hfound => by
      rw [hcore] at hfound
      cases hfound
      exact houtput)
  have hkept : Kept (s.ask (.setVisible workspace true)) := h.toKept.proceed horderly hmember
  rw [← ask_world] at hchanges hselected hmember
  refine ⟨h.bootstrappedChanges hkept hchanges (.inl hselected) hmember ?_ ?_, ?_, hselected⟩
  · intro other found
    split_ifs
    · rfl
    · rfl
  · intro other found _ hshown
    split_ifs
    · rfl
    · exact hshown
  · rw [hchanges.cores, hcore, Option.map_some,
      if_pos ⟨rfl, .inr (h.orderly.presentable hcore houtput)⟩]

/-- A visible workspace has the focus if there is no selection. -/
theorem Proper.bootstrapFocus (hcore : s.world.coreOf workspace = some core)
    (hvisible : core.visible = true) (houtput : core.output = some output)
    (hnone : s.world.selected = none) :
    Bootstrapped s (s.ask (.focus workspace)) ∧
      (s.ask (.focus workspace)).world.selected = some workspace := by
  obtain ⟨hchanges, hselected, hmember⟩ := Workspaces.request_focus s.world workspace
  rw [if_pos ⟨core, hcore, hvisible, h.orderly.presentable hcore houtput⟩] at hselected
  have hkept : Kept (s.ask (.focus workspace)) :=
    h.toKept.proceed (h.orderly.same hchanges (h.orderly.soundRequest _)) hmember
  rw [← ask_world] at hchanges hselected hmember
  exact ⟨h.bootstrappedChanges hkept hchanges
    (.inr ⟨hnone, workspace, core, hcore, hvisible, hselected⟩) hmember (fun _ _ => rfl)
    fun _ _ _ hshown => hshown, hselected⟩

/-- The workspace that an output gets, if there is an identifier for it. -/
theorem Proper.bootstrapWorkspace (order : IterationOrder Entity) (hlive : output ∈ s.world.outputs)
    (hnothing : ¬ShownOn s.world output) :
    (∃ t workspace core, s.bootstrapWorkspace order output = some (t, workspace) ∧
        Bootstrapped s t ∧ t.world.coreOf workspace = some core ∧ core.output = some output ∧
        ¬ShownOn t.world output ∧ t.world.selected = s.world.selected) ∨
      s.bootstrapWorkspace order output = none ∧ Stuck s.world output := by
  rw [Desktop.bootstrapWorkspace]
  cases hleast : s.leastWorkspace order fun _ state => state.output = some output with
  | some workspace =>
      obtain ⟨state, hstate, hthere⟩ := leastWorkspace_mem hleast
      exact .inl ⟨s, workspace, state.core, rfl, h.bootstrapped, World.coreOf_of_lookup hstate,
        of_decide_eq_true hthere, hnothing, rfl⟩
  | none =>
      obtain ⟨name, hname⟩ := bootstrapName_isSome order s output
      obtain ⟨hnamed, hsuits⟩ := bootstrapName_suits hname
      have hfresh : Fresh s.world name := unused_fresh (Bool.and_eq_true_iff.mp hsuits).1
      rw [hname, Option.bind_some]
      cases hcreate : s.create name output with
      | some created =>
          obtain ⟨t, workspace⟩ := created
          have hcreated := h.create hfresh hcreate
          have hcore : t.world.coreOf workspace =
              some ⟨s.world.nextId, name, false, some output⟩ := by
            rw [hcreated.cores, if_pos rfl]
          refine .inl ⟨t, workspace, _, rfl, hcreated.bootstrapped, hcore, rfl, ?_,
            hcreated.selected⟩
          · rintro ⟨other, core, hcore, hvisible, hthere⟩
            rw [hcreated.cores] at hcore
            split_ifs at hcore
            · cases hcore
              cases hvisible
            · exact hnothing ⟨other, core, hcore, hvisible, hthere⟩
      | none =>
          refine .inr ⟨rfl, Nat.le_antisymm h.orderly.bounded (Nat.le_of_not_lt fun hlt => ?_),
            fun workspace core hcore hthere => ?_⟩
          rotate_left
          · obtain ⟨state, hstate, rfl⟩ := World.lookup_of_coreOf hcore
            have hother := leastWorkspace_eq_none.mp hleast workspace state hstate
            exact absurd hthere (of_decide_eq_false hother)
          obtain ⟨unnotified, hsound⟩ := h.orderly.sound
          have hnew : name ∉ s.world.names := by
            intro hmem
            obtain ⟨key, hkey⟩ := (hsound.named.indexed name).mp hmem
            rw [World.coreOf_name, Option.map_eq_some_iff] at hkey
            obtain ⟨core, hcore, rfl⟩ := hkey
            exact hfresh key core hcore rfl
          obtain ⟨t, created, events, hsome⟩ := Workspaces.create_isSome hnamed hlive hnew hlt
          rw [Desktop.create, hsome] at hcreate
          cases hcreate

/-- **A bootstrap gives the output something to show, and the seat something to select.** -/
theorem Proper.bootstrap (order : IterationOrder Entity) (layout : Layout)
    (hlive : output ∈ s.world.outputs) :
    Bootstrapped s (s.bootstrap order layout output) ∧
      (ShownOn (s.bootstrap order layout output).world output ∧
          (s.bootstrap order layout output).world.selected ≠ none ∨
        Stuck (s.bootstrap order layout output).world output) := by
  rw [Desktop.bootstrap]
  cases hfind : (s.workspaces order).find? fun entry => Desktop.showsOn output entry.2 with
  | some entry =>
      obtain ⟨workspace, state⟩ := entry
      have hcore := World.coreOf_of_lookup (mem_workspaces.mp (List.mem_of_find?_eq_some hfind))
      have hshows := List.find?_some hfind
      rw [Desktop.showsOn, Bool.and_eq_true_iff] at hshows
      have hvisible : state.core.visible = true := hshows.1
      have houtput : state.core.output = some output := of_decide_eq_true hshows.2
      have hshown : ShownOn s.world output := ⟨workspace, state.core, hcore, hvisible, houtput⟩
      dsimp only
      by_cases hnone : s.world.selected = none
      · rw [if_pos hnone]
        obtain ⟨hboot, hselected⟩ := h.bootstrapSwitch order layout hcore hvisible houtput hnone
        refine ⟨hboot, .inl ⟨hboot.shown output hshown, ?_⟩⟩
        rw [hselected]
        exact Option.some_ne_none _
      · rw [if_neg hnone]
        exact ⟨h.bootstrapped, .inl ⟨hshown, hnone⟩⟩
  | none =>
      have hnothing : ¬ShownOn s.world output := by
        rintro ⟨workspace, core, hcore, hvisible, houtput⟩
        obtain ⟨state, hstate, rfl⟩ := World.lookup_of_coreOf hcore
        refine List.find?_eq_none.mp hfind (workspace, state) (mem_workspaces.mpr hstate) ?_
        rw [Desktop.showsOn, Bool.and_eq_true_iff]
        exact ⟨hvisible, decide_eq_true houtput⟩
      rcases h.bootstrapWorkspace order hlive hnothing with ⟨t, workspace, core, hgets, hboot, hcore,
        houtput, hnothing', hsame⟩ | ⟨hgets, hstuck⟩
      · rw [hgets]
        dsimp only
        obtain ⟨hreveal, hshown, hselected⟩ :=
          hboot.handled.proper.bootstrapReveal hcore houtput hnothing'
        have hshownOn : ShownOn (t.ask (.setVisible workspace true)).world output :=
          ⟨workspace, _, hshown, rfl, houtput⟩
        cases hsel : s.world.selected with
        | none =>
            rw [if_pos (show (none : Option Entity).all _ = true from rfl)]
            have hnone := (hselected.trans hsame).trans hsel
            obtain ⟨hfocus, hfocused⟩ :=
              hreveal.handled.proper.bootstrapFocus hshown rfl houtput hnone
            refine ⟨(hboot.trans hreveal).trans hfocus, .inl ⟨hfocus.shown output hshownOn, ?_⟩⟩
            rw [hfocused]
            exact Option.some_ne_none _
        | some selected =>
            have hthere : selected ∈ s.world.workspaces := by
              obtain ⟨found, hfound, -⟩ := h.shown selected hsel
              by_contra hgone
              rw [World.coreOf_eq_none.mpr hgone] at hfound
              cases hfound
            have hkeeps : ¬((some selected).all fun selected =>
                decide (selected ∉ s.world.workspaces)) = true := by
              rw [Option.all_some, decide_eq_true_eq]
              exact fun hgone => hgone hthere
            rw [if_neg hkeeps]
            refine ⟨hboot.trans hreveal, .inl ⟨hshownOn, ?_⟩⟩
            rw [hselected, hsame, hsel]
            exact Option.some_ne_none _
      · rw [hgets]
        exact ⟨h.bootstrapped, .inr hstuck⟩

/-- **Every output that asks for it gets something to show.** -/
theorem Proper.bootstrapAll (order : IterationOrder Entity) (layout : Layout) (asks : Entity → Prop)
    [DecidablePred asks] (outputs : List Entity)
    (hlive : ∀ output ∈ outputs, output ∈ s.world.outputs) :
    Bootstrapped s (outputs.foldl (fun t output =>
        if asks output then t.bootstrap order layout output else t) s) ∧
      ∀ output ∈ outputs, asks output → ShownOn (outputs.foldl (fun t output =>
            if asks output then t.bootstrap order layout output else t) s).world output ∧
          (outputs.foldl (fun t output =>
            if asks output then t.bootstrap order layout output else t) s).world.selected ≠ none ∨
        Stuck (outputs.foldl (fun t output =>
          if asks output then t.bootstrap order layout output else t) s).world output := by
  induction outputs using List.reverseRecOn with
  | nil => exact ⟨h.bootstrapped, fun _ hmem => absurd hmem List.not_mem_nil⟩
  | append_singleton outputs output ih =>
      obtain ⟨hboot, hdone⟩ := ih fun other hother => hlive other (List.mem_append_left _ hother)
      rw [List.foldl_append]
      generalize outputs.foldl (fun t output =>
        if asks output then t.bootstrap order layout output else t) s = t at hboot hdone
      rw [List.foldl_cons, List.foldl_nil]
      by_cases hasks : asks output
      · rw [if_pos hasks]
        have hthere : output ∈ t.world.outputs := by
          rw [hboot.outputs]
          exact hlive output (List.mem_append_right _ (List.mem_singleton_self output))
        obtain ⟨hone, hnow⟩ := hboot.handled.proper.bootstrap order layout hthere
        refine ⟨hboot.trans hone, fun other hother hasks' => ?_⟩
        rcases List.mem_append.mp hother with hold | hnew
        · rcases hdone other hold hasks' with ⟨hshown, hselected⟩ | hstuck
          · obtain ⟨selected, hsel⟩ := Option.ne_none_iff_exists'.mp hselected
            refine .inl ⟨hone.shown other hshown, ?_⟩
            rw [hone.selected selected hsel]
            exact Option.some_ne_none _
          · exact .inr (hone.stuck hstuck)
        · rw [List.mem_singleton] at hnew
          rw [hnew]
          exact hnow
      · rw [if_neg hasks]
        refine ⟨hboot, fun other hother hasks' => ?_⟩
        rcases List.mem_append.mp hother with hold | hnew
        · exact hdone other hold hasks'
        · rw [List.mem_singleton] at hnew
          rw [hnew] at hasks'
          exact absurd hasks' hasks

end

end

/-! ### Reaping -/

/-- What is left behind when workspaces have been removed. -/
structure Reaped (s t : Desktop) : Prop where
  proper : Proper t
  outputs : t.world.outputs = s.world.outputs
  selected : t.world.selected = s.world.selected
  members : t.world.memberOf = s.world.memberOf
  nextId : t.world.nextId = s.world.nextId
  /-- What has gone was hidden, not selected, and had no windows. -/
  cores : ∀ workspace, t.world.coreOf workspace = s.world.coreOf workspace ∨
    t.world.coreOf workspace = none ∧
      (∀ core, s.world.coreOf workspace = some core → core.visible = false) ∧
      s.world.selected ≠ some workspace ∧ ∀ window, s.world.memberOf window ≠ some workspace

section
variable {s t : Desktop} {workspace output : Entity}

theorem Proper.reaped (h : Proper s) : Reaped s s := ⟨h, rfl, rfl, rfl, rfl, fun _ => .inl rfl⟩

theorem Reaped.removeEmpty (h : Reaped s t) (workspace : Entity) :
    Reaped s (t.ask (.removeEmpty workspace)) := by
  obtain ⟨houtputs, hnextId, -, hselected, hmember, hcores⟩ :=
    Workspaces.request_removeEmpty t.world workspace
  have hkept : Kept (t.ask (.removeEmpty workspace)) :=
    h.proper.toKept.proceed (h.proper.orderly.removeEmpty workspace) hmember
  rw [← ask_world] at houtputs hnextId hselected hmember hcores
  have hsame : ∀ other, (t.ask (.removeEmpty workspace)).world.coreOf other = t.world.coreOf other ∨
      (t.ask (.removeEmpty workspace)).world.coreOf other = none ∧
        (∀ core, t.world.coreOf other = some core → core.visible = false) ∧
        t.world.selected ≠ some other ∧ ∀ window, t.world.memberOf window ≠ some other := by
    intro other
    rcases hcores with hcores | ⟨hhidden, hunselected, hempty, hcores⟩
    · exact .inl (hcores other)
    · by_cases hother : other = workspace
      · subst hother
        exact .inr ⟨by rw [hcores, if_pos rfl], hhidden, hunselected, hempty⟩
      · exact .inl (by rw [hcores, if_neg hother])
  refine ⟨⟨hkept, ?_⟩, houtputs.trans h.outputs, hselected.trans h.selected,
    hmember.trans h.members, hnextId.trans h.nextId, ?_⟩
  · intro selected hsel
    rw [hselected] at hsel
    obtain ⟨core, hcore, hvisible⟩ := h.proper.shown selected hsel
    rcases hsame selected with heq | ⟨-, -, hunselected, -⟩
    · exact ⟨core, heq.trans hcore, hvisible⟩
    · exact absurd hsel hunselected
  · intro other
    rcases h.cores other with heq | ⟨hgone, hrest⟩
    · rcases hsame other with heq' | ⟨hgone', hhidden, hunselected, hempty⟩
      · exact .inl (heq'.trans heq)
      · rw [heq] at hhidden
        rw [h.selected] at hunselected
        rw [h.members] at hempty
        exact .inr ⟨hgone', hhidden, hunselected, hempty⟩
    · rcases hsame other with heq' | ⟨hgone', -⟩
      · exact .inr ⟨heq'.trans hgone, hrest⟩
      · exact .inr ⟨hgone', hrest⟩

/-- **Only workspaces without windows go.** -/
theorem Proper.reap (h : Proper s) (order : IterationOrder Entity) : Reaped s (s.reap order) := by
  rw [Desktop.reap]
  generalize s.workspaces order = entries
  induction entries using List.reverseRecOn with
  | nil => exact h.reaped
  | append_singleton entries entry ih =>
      rw [List.foldl_append, List.foldl_cons, List.foldl_nil]
      split_ifs
      · exact ih.removeEmpty entry.1
      · exact ih

/-- A workspace that is shown stays. -/
theorem Reaped.shown (h : Reaped s t) (hshown : ShownOn s.world output) :
    ShownOn t.world output := by
  obtain ⟨workspace, core, hcore, hvisible, hthere⟩ := hshown
  rcases h.cores workspace with heq | ⟨-, hhidden, -, -⟩
  · exact ⟨workspace, core, heq.trans hcore, hvisible, hthere⟩
  · rw [hhidden core hcore] at hvisible
    cases hvisible

theorem Reaped.stuck (h : Reaped s t) (hstuck : Stuck s.world output) : Stuck t.world output := by
  refine ⟨h.nextId.trans hstuck.1, fun workspace core hcore => ?_⟩
  rcases h.cores workspace with heq | ⟨hgone, -⟩
  · exact hstuck.2 workspace core (heq.symm.trans hcore)
  · rw [hgone] at hcore
    cases hcore

theorem Reaped.placed (h : Reaped s t) (horphan : Orphan t.world workspace) :
    Orphan s.world workspace := by
  obtain ⟨core, hcore, hnone⟩ := horphan
  rcases h.cores workspace with heq | ⟨hgone, -⟩
  · exact ⟨core, heq.symm.trans hcore, hnone⟩
  · rw [hgone] at hcore
    cases hcore

end

/-! ### A pass -/

/-- What is left behind before the layout. -/
structure Prepared (s t : Desktop) : Prop where
  handled : Handled s t
  outputs : t.world.outputs = s.world.outputs
  shown : ∀ output ∈ s.world.outputs,
    ShownOn t.world output ∧ t.world.selected ≠ none ∨ Stuck t.world output
  placed : s.world.outputs.Nonempty → ∀ workspace, ¬Orphan t.world workspace
  members : ∀ window workspace, Orphan s.world workspace →
    s.world.memberOf window = some workspace → t.world.memberOf window = some workspace

theorem mem_outputsInOrder : output ∈ s.outputsInOrder order ↔ output ∈ s.world.outputs := by
  rw [Desktop.outputsInOrder, List.mem_mergeSort, Desktop.outputs, IterationOrder.mem_arrange,
    Finset.mem_sort]

section
variable {s : Desktop} (order : IterationOrder Entity) (layout : Layout)

/-- **Orphans are adopted, and every output shows a workspace.** -/
theorem Proper.prepare (h : Proper s) : Prepared s (s.prepare order layout) := by
  rw [Desktop.prepare]
  cases hcurrent : s.currentOutput order with
  | none =>
      have hnone := currentOutput_eq_none.mp hcurrent
      obtain ⟨hboot, -⟩ := h.bootstrapAll order layout
        (fun output => s.world.selected = none ∨
          ((s.workspaces order).any fun entry => Desktop.showsOn output entry.2) = false)
        (s.outputsInOrder order) fun output houtput => mem_outputsInOrder.mp houtput
      refine ⟨hboot.handled, hboot.outputs, fun output houtput => ?_, fun hsome => ?_, ?_⟩
      · rw [hnone] at houtput
        exact absurd houtput (Finset.notMem_empty output)
      · rw [hnone] at hsome
        exact absurd hsome Finset.not_nonempty_empty
      · intro window workspace _ hmember
        rw [hboot.members]
        exact hmember
  | some fallback =>
      have hadopted := adoptAll h order layout (currentOutput_mem hcurrent)
      dsimp only
      generalize (s.workspaces order).foldl (fun t entry => t.adopt order layout s fallback entry) s
        = t at hadopted
      obtain ⟨hboot, hasked⟩ := hadopted.handled.proper.bootstrapAll order layout
        (fun output => s.world.selected = none ∨
          ((s.workspaces order).any fun entry => Desktop.showsOn output entry.2) = false)
        (s.outputsInOrder order) fun output houtput => by
          rw [hadopted.outputs]
          exact mem_outputsInOrder.mp houtput
      refine ⟨hadopted.handled.trans hboot.handled, hboot.outputs.trans hadopted.outputs, ?_, ?_, ?_⟩
      · intro output houtput
        by_cases hasks : s.world.selected = none ∨
            ((s.workspaces order).any fun entry => Desktop.showsOn output entry.2) = false
        · exact hasked output (mem_outputsInOrder.mpr houtput) hasks
        · -- the output shows a workspace all the time
          rw [not_or, Bool.not_eq_false, List.any_eq_true] at hasks
          obtain ⟨hselected, ⟨workspace, state⟩, hmem, hshows⟩ := hasks
          obtain ⟨selected, hsel⟩ := Option.ne_none_iff_exists'.mp hselected
          rw [Desktop.showsOn, Bool.and_eq_true_iff] at hshows
          refine .inl ⟨hboot.shown output (hadopted.shown output ⟨workspace, state.core,
            World.coreOf_of_lookup (mem_workspaces.mp hmem), hshows.1,
            of_decide_eq_true hshows.2⟩), ?_⟩
          rw [hboot.selected selected (hadopted.selected.trans hsel)]
          exact Option.some_ne_none _
      · intro _ workspace horphan
        exact hadopted.placed workspace (hboot.placed horphan)
      · intro window workspace horphan hmember
        rw [hboot.members]
        exact hadopted.members window workspace horphan hmember

/-- **After a pass every output shows a workspace.** -/
theorem Proper.pass (h : Proper s) :
    Proper (s.pass order layout) ∧ (s.pass order layout).world.outputs = s.world.outputs ∧
      (∀ output ∈ s.world.outputs,
        ShownOn (s.pass order layout).world output ∧ (s.pass order layout).world.selected ≠ none ∨
          Stuck (s.pass order layout).world output) ∧
      (s.world.outputs.Nonempty → ∀ workspace, ¬Orphan (s.pass order layout).world workspace) ∧
      ∀ window workspace, Orphan s.world workspace → s.world.memberOf window = some workspace →
        (s.pass order layout).world.memberOf window = some workspace := by
  have hprepared := h.prepare order layout
  have hreaped := hprepared.handled.proper.reap order
  refine ⟨hreaped.proper, hreaped.outputs.trans hprepared.outputs, ?_, ?_, ?_⟩
  · intro output houtput
    rcases hprepared.shown output houtput with ⟨hshown, hselected⟩ | hstuck
    · refine .inl ⟨hreaped.shown hshown, ?_⟩
      rw [Desktop.pass, hreaped.selected]
      exact hselected
    · exact .inr (hreaped.stuck hstuck)
  · intro hsome workspace horphan
    exact hprepared.placed hsome workspace (hreaped.placed horphan)
  · intro window workspace horphan hmember
    rw [Desktop.pass, hreaped.members]
    exact hprepared.members window workspace horphan hmember

end

end I3
