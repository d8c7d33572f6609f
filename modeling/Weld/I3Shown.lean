/-
**Every output shows one workspace.**

A run starts from an empty desktop and takes any steps in any order, passes among them.  In every state
the names of the workspaces are different, at most one workspace is visible on an output, and the
selected workspace is visible.  After a pass every output shows a workspace, whatever has happened since
the last one, unless the identifiers of workspaces are used up.

Main definitions: `run`, `Shows`.

Main results:

* `run_proper` — every state of a run is proper;
* `every_output_shows_one_workspace` — what holds after a pass, and in between;
* `output_without_workspace` — a run at the end of which there are more outputs than identifiers.
-/

import Weld.I3Neighbours

namespace I3

open Workspaces (Entity World Workspace Core Changes)

/-! ### Runs -/

/-- A step, the order in which it visits what it iterates over, and what the tiling layer does. -/
structure Moment where
  order : IterationOrder Entity
  layout : Layout
  label : Label

def Desktop.after (s : Desktop) (moment : Moment) : Desktop :=
  step moment.order moment.layout s moment.label

def run (moments : List Moment) : Desktop := moments.foldl Desktop.after {}

theorem proper_empty : Proper {} := by
  refine ⟨⟨orderly_empty, ?_⟩, ?_⟩
  · rintro window workspace ⟨⟩
  · rintro workspace ⟨⟩

variable {s : Desktop}

theorem Proper.after (h : Proper s) (moment : Moment) : Proper (s.after moment) := by
  by_cases hpass : moment.label = .pass
  · rw [Desktop.after, hpass]
    exact (h.pass moment.order moment.layout).1
  · exact (h.step moment.order moment.layout hpass).proper

theorem Proper.afterAll (h : Proper s) (moments : List Moment) :
    Proper (moments.foldl Desktop.after s) := by
  induction moments generalizing s with
  | nil => exact h
  | cons moment moments ih => exact ih (h.after moment)

theorem run_proper (moments : List Moment) : Proper (run moments) := proper_empty.afterAll moments

/-! ### What is shown -/

/-- The output shows the workspace. -/
def Shows (s : Desktop) (output workspace : Entity) : Prop :=
  ∃ state, s.world.workspaces.lookup workspace = some state ∧ state.visible = true ∧
    state.output = some output

section
variable {s : Desktop} {output workspace : Entity}

theorem Proper.shows_unique (h : Proper s) {first second : Entity} (hfirst : Shows s output first)
    (hsecond : Shows s output second) : first = second := by
  obtain ⟨state, hstate, hvisible, houtput⟩ := hfirst
  obtain ⟨other, hother, hvisible', houtput'⟩ := hsecond
  exact h.orderly.single first second state.core other.core output (World.coreOf_of_lookup hstate)
    (World.coreOf_of_lookup hother) hvisible hvisible' houtput houtput'

theorem ShownOn.shows (h : ShownOn s.world output) : ∃ workspace, Shows s output workspace := by
  obtain ⟨workspace, core, hcore, hvisible, houtput⟩ := h
  obtain ⟨state, hstate, rfl⟩ := World.lookup_of_coreOf hcore
  exact ⟨workspace, state, hstate, hvisible, houtput⟩

end

/-- The workspaces are in order. -/
structure InOrder (s : Desktop) : Prop where
  names : ∀ first second state other, s.world.workspaces.lookup first = some state →
    s.world.workspaces.lookup second = some other →
      eqIgnoreAsciiCase state.name other.name = true → first = second
  alone : ∀ output first second, Shows s output first → Shows s output second → first = second
  selected : ∀ workspace, s.world.selected = some workspace →
    ∃ state, s.world.workspaces.lookup workspace = some state ∧ state.visible = true

theorem Proper.inOrder (h : Proper s) : InOrder s := by
  refine ⟨fun first second state other hstate hother heq => ?_, fun output first second => ?_,
    fun workspace hselected => ?_⟩
  · exact h.orderly.distinct first second state.core other.core (World.coreOf_of_lookup hstate)
      (World.coreOf_of_lookup hother) (of_decide_eq_true heq)
  · exact h.shows_unique
  · obtain ⟨core, hcore, hvisible⟩ := h.shown workspace hselected
    obtain ⟨state, hstate, rfl⟩ := World.lookup_of_coreOf hcore
    exact ⟨state, hstate, hvisible⟩

/-- What holds after a pass.  An output has nothing to show only if it has no workspace and there is no
identifier for one. -/
structure AfterPass (s t : Desktop) : Prop where
  inOrder : InOrder t
  shown : ∀ output ∈ t.world.outputs,
    (∃! workspace, Shows t output workspace) ∧ t.world.selected ≠ none ∨
      t.world.nextId = Workspaces.u64Max ∧ ∀ workspace state,
        t.world.workspaces.lookup workspace = some state → state.output ≠ some output
  assigned : t.world.outputs.Nonempty → ∀ workspace state,
    t.world.workspaces.lookup workspace = some state →
      ∃ output ∈ t.world.outputs, state.output = some output
  orphans : ∀ window workspace state, s.world.workspaces.lookup workspace = some state →
    state.output = none → s.world.memberOf window = some workspace →
      t.world.memberOf window = some workspace

theorem Proper.afterPass (h : Proper s) (order : IterationOrder Entity) (layout : Layout) :
    AfterPass s (s.pass order layout) := by
  obtain ⟨hproper, houtputs, hshown, hplaced, horphans⟩ := h.pass order layout
  refine ⟨hproper.inOrder, fun output houtput => ?_, fun hsome workspace state hstate => ?_,
    fun window workspace state hstate hnone hmember => ?_⟩
  · rcases hshown output (houtputs ▸ houtput) with ⟨hshown, hselected⟩ | ⟨hexhausted, hnothing⟩
    · obtain ⟨workspace, hworkspace⟩ := hshown.shows
      exact .inl ⟨⟨workspace, hworkspace, fun other hother =>
        hproper.shows_unique hother hworkspace⟩, hselected⟩
    · exact .inr ⟨hexhausted, fun workspace state hstate =>
        hnothing workspace state.core (World.coreOf_of_lookup hstate)⟩
  · have hcore := World.coreOf_of_lookup hstate
    have hassigned : state.core.output ≠ none := fun hnone =>
      hplaced (houtputs ▸ hsome) workspace ⟨state.core, hcore, hnone⟩
    obtain ⟨output, houtput⟩ := Option.ne_none_iff_exists'.mp hassigned
    exact ⟨output, hproper.orderly.live workspace state.core output hcore houtput, houtput⟩
  · exact horphans window workspace ⟨state.core, World.coreOf_of_lookup hstate, hnone⟩ hmember

/-- **A workspace goes only in a pass, and only if it has no windows then.** -/
theorem Proper.gone (h : Proper s) (moment : Moment) {workspace : Entity}
    (hthere : workspace ∈ s.world.workspaces) (hgone : workspace ∉ (s.after moment).world.workspaces) :
    moment.label = .pass ∧ ∀ window,
      (s.prepare moment.order moment.layout).world.memberOf window ≠ some workspace := by
  by_cases hpass : moment.label = .pass
  · refine ⟨hpass, ?_⟩
    rw [Desktop.after, hpass] at hgone
    have hprepared := (h.prepare moment.order moment.layout).handled
    have hstays := hprepared.stays workspace hthere
    rcases (hprepared.proper.reap moment.order).cores workspace with heq | ⟨-, -, -, hempty⟩
    · have hnone : ((s.prepare moment.order moment.layout).reap moment.order).world.coreOf workspace =
          none := World.coreOf_eq_none.mpr hgone
      rw [heq, World.coreOf_eq_none] at hnone
      exact absurd hstays hnone
    · exact hempty
  · exact absurd ((h.step moment.order moment.layout hpass).stays workspace hthere) hgone

/-- **Every output shows one workspace.** -/
theorem every_output_shows_one_workspace :
    (∀ moments : List Moment, InOrder (run moments)) ∧
    (∀ (moments : List Moment) (order : IterationOrder Entity) (layout : Layout),
      AfterPass (run moments) ((run moments).pass order layout)) ∧
    (∀ (moments : List Moment) (moment : Moment) (workspace : Entity),
      workspace ∈ (run moments).world.workspaces →
      workspace ∉ ((run moments).after moment).world.workspaces →
      moment.label = .pass ∧ ∀ window,
        ((run moments).prepare moment.order moment.layout).world.memberOf window ≠
          some workspace) ∧
    (∀ (s : Desktop) (order : IterationOrder Entity) (output : Entity),
      ∃ name, s.bootstrapName order output = some name ∧ name ≠ "" ∧
        (∀ workspace state, s.world.workspaces.lookup workspace = some state →
          eqIgnoreAsciiCase state.name name = false) ∧
        ∀ preferred, s.preferredOutput order name = some preferred → preferred = output) ∧
    (∀ (s : Desktop) (moment : Moment) (output : Entity), moment.label = .unplug output →
      (s.after moment).world.memberOf = s.world.memberOf) ∧
    ∀ (moments between : List Moment) (order order' order'' : IterationOrder Entity)
      (layout layout' layout'' : Layout) (sameOutput allow allow' : Bool) (s t u : Desktop),
      s = (run moments).pass order layout →
      t = s.request order' layout' (.navigate (relative sameOutput true) .switch allow) →
      u = between.foldl Desktop.after t → u.world.coreOf = t.world.coreOf →
      u.world.outputs = t.world.outputs → u.describe = t.describe →
      u.world.selected = t.world.selected →
      (u.request order'' layout''
        (.navigate (relative sameOutput false) .switch allow')).world.selected =
          s.world.selected := by
  refine ⟨fun moments => (run_proper moments).inOrder, fun moments order layout =>
    (run_proper moments).afterPass order layout, fun moments moment workspace hthere hgone =>
    (run_proper moments).gone moment hthere hgone, fun s order output => ?_,
    fun s moment output hunplug => ?_, ?_⟩
  · obtain ⟨name, hname⟩ := bootstrapName_isSome order s output
    obtain ⟨hnamed, hsuits⟩ := bootstrapName_suits hname
    obtain ⟨hunused, hpreferred⟩ := Bool.and_eq_true_iff.mp hsuits
    refine ⟨name, hname, hnamed, fun workspace state hstate => ?_, fun preferred heq => ?_⟩
    · exact decide_eq_false (unused_fresh hunused workspace state.core
        (World.coreOf_of_lookup hstate))
    · rw [heq] at hpreferred
      exact of_decide_eq_true hpreferred
  · rw [Desktop.after, hunplug]
    refine s.world.memberOf_mapValues _ fun key window => ?_
    split_ifs
    · rfl
    · rfl
  · rintro moments between order order' order'' layout layout' layout'' sameOutput allow allow'
      s t u hs ht hu hcores houtputs hdescribe hselected
    have hproper : Proper s := by
      rw [hs]
      exact ((run_proper moments).pass order layout).1
    have hplaced : s.world.outputs.Nonempty → ∀ workspace, ¬Orphan s.world workspace := by
      obtain ⟨-, hsame, -, hplaced, -⟩ := (run_proper moments).pass order layout
      rw [hs]
      exact fun hsome => hplaced (hsame ▸ hsome)
    have ht' : Proper t := by
      rw [ht]
      exact (hproper.request order' layout' _).proper
    have hu' : Proper u := by
      rw [hu]
      exact ht'.afterAll between
    obtain ⟨hsame, hsame'⟩ := relative_outputs hproper order' layout' sameOutput true allow
    rw [ht] at hcores houtputs hdescribe hselected
    exact next_previous hproper hplaced order'' layout'' allow allow' hu' hcores
      (houtputs.trans hsame) (hdescribe.trans hsame') hselected

/-! ### Too many outputs -/

/-- A pass after each change. -/
def paced (changes : List Moment) : List Moment :=
  changes.flatMap fun change => [change, { change with label := .pass }]

def idleLayout : Layout where
  relocate := fun _ _ _ _ => none

/-- Outputs are plugged in, and none is removed. -/
def plugs (n : ℕ) : List Moment :=
  List.replicate n { order := .stored Entity, layout := idleLayout, label := .plug { id := 0 } }

theorem card_outputs (n : ℕ) : (run (paced (plugs n))).world.outputs.card = n := by
  induction n with
  | zero => rfl
  | succ n ih =>
      have hsplit : run (paced (plugs (n + 1))) =
          ((run (paced (plugs n))).plug { id := 0 }).pass (.stored Entity) idleLayout := by
        rw [plugs, List.replicate_succ', paced, List.flatMap_append, run, List.foldl_append]
        rfl
      have hproper := run_proper (paced (plugs n))
      have hplugged := (hproper.plug { id := 0 }).proper
      have hnew : (run (paced (plugs n))).world.nextEntity ∉
          (run (paced (plugs n))).world.outputs := fun hmem =>
        absurd (hproper.orderly.spawned _ hmem) (Nat.lt_irrefl _)
      rw [hsplit, (hplugged.pass (.stored Entity) idleLayout).2.1]
      show (insert _ _ : Finset Entity).card = _
      rw [Finset.card_insert_of_notMem hnew, ih]

/-- If every output shows a workspace, there are no more outputs than identifiers. -/
theorem Proper.card_le (h : Proper s)
    (hshown : ∀ output ∈ s.world.outputs, ∃ workspace, Shows s output workspace) :
    s.world.outputs.card ≤ Workspaces.u64Max := by
  have hids : ∀ output ∈ s.world.outputs, ∃ id < Workspaces.u64Max, ∃ workspace core,
      s.world.coreOf workspace = some core ∧ core.id = id ∧ core.output = some output := by
    intro output houtput
    obtain ⟨workspace, state, hstate, -, hthere⟩ := hshown output houtput
    have hcore := World.coreOf_of_lookup hstate
    exact ⟨state.id, Nat.lt_of_lt_of_le (h.orderly.identified workspace state.core hcore)
      h.orderly.bounded, workspace, state.core, hcore, rfl, hthere⟩
  choose! id hid using hids
  have hcard := Finset.card_le_card_of_injOn (t := Finset.range Workspaces.u64Max) id
    (fun output houtput => Finset.mem_coe.mpr (Finset.mem_range.mpr (hid output houtput).1)) ?_
  · rw [Finset.card_range] at hcard
    exact hcard
  · intro first hfirst second hsecond heq
    obtain ⟨-, workspace, core, hcore, hsame, houtput⟩ := hid first hfirst
    obtain ⟨-, other, core', hcore', hsame', houtput'⟩ := hid second hsecond
    have hworkspace := h.orderly.identity workspace other core core' hcore hcore'
      (hsame.trans (heq.trans hsame'.symm))
    rw [hworkspace, hcore'] at hcore
    cases hcore
    rw [houtput] at houtput'
    exact Option.some.inj houtput'

/-- **With more outputs than identifiers an output shows nothing.** -/
theorem output_without_workspace :
    ¬∀ changes : List Moment, ∀ output ∈ (run (paced changes)).world.outputs,
      ∃! workspace, Shows (run (paced changes)) output workspace := by
  intro hall
  have hfew : ∀ n, n ≤ Workspaces.u64Max := by
    intro n
    have hcard := (run_proper (paced (plugs n))).card_le fun output houtput =>
      (hall _ output houtput).exists
    rw [card_outputs] at hcard
    exact hcard
  have hone := hfew (Workspaces.u64Max + 1)
  omega

end I3
