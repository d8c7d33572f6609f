/-
**The next workspace and the previous one.**

Relative selectors go through the workspaces in the order of their numbers, their outputs and their
identifiers.  No two workspaces have the same place in that order, so it does not depend on the order in
which the workspaces are visited, and to go on and back leads to where one was.

Main definitions: `Core.place`, `SamePlaces`, `relative`.

Main results:

* `ordered_congr` — the order depends on the places only;
* `next_previous` — the next workspace, and then the previous one, is the one that was selected.
-/

import Weld.I3Passes

namespace I3

open Desktop

open Workspaces (Entity World Workspace Core Changes)

/-! ### The order of the workspaces -/

/-- What the order of the workspaces depends on. -/
def place (core : Core) : Core := { core with visible := false }

theorem place_eq {core other : Core} (h : place core = place other) :
    core.id = other.id ∧ core.name = other.name ∧ core.output = other.output := by
  simp only [place, Core.mk.injEq] at h
  exact ⟨h.1, h.2.1, h.2.2.2⟩

/-- The workspaces have the same places. -/
structure SamePlaces (s t : Desktop) : Prop where
  cores : ∀ workspace, (t.world.coreOf workspace).map place = (s.world.coreOf workspace).map place
  outputs : t.world.outputs = s.world.outputs
  describe : t.describe = s.describe

/-- The place of a workspace among the others. -/
def placeKey (s : Desktop) (core : Core) : ℕ ×ₗ ℕ ×ₗ WithBot ℕ ×ₗ ℕ :=
  s.sortKey { id := core.id, name := core.name, output := core.output }

/-- A workspace is not behind another one. -/
def Before (s : Desktop) (first second : Entity) : Prop :=
  ∀ core other, s.world.coreOf first = some core → s.world.coreOf second = some other →
    placeKey s core ≤ placeKey s other

section
variable {order : IterationOrder Entity} {s t : Desktop} {sameOutput : Bool}

theorem nodup_workspaces : ((s.workspaces order).map Prod.fst).Nodup := by
  rw [workspaces, List.map_filterMap]
  refine (IterationOrder.nodup_arrange order 0 s.world.workspaces.keys_nodup).filterMap ?_
  intro first second found hfirst hsecond
  obtain ⟨entry, hentry, rfl⟩ := Option.map_eq_some_iff.mp hfirst
  obtain ⟨state, -, rfl⟩ := Option.map_eq_some_iff.mp hentry
  obtain ⟨entry', hentry', heq⟩ := Option.map_eq_some_iff.mp hsecond
  obtain ⟨state', -, rfl⟩ := Option.map_eq_some_iff.mp hentry'
  exact heq.symm

theorem nodup_ordered : (s.ordered order sameOutput).Nodup := by
  rw [ordered]
  refine ((List.mergeSort_perm _ _).map Prod.fst).nodup_iff.mpr ?_
  exact nodup_workspaces.sublist (List.filter_sublist.map Prod.fst)

variable {workspace : Entity}

/-- The workspaces that are gone through. -/
theorem mem_ordered :
    workspace ∈ s.ordered order sameOutput ↔ ∃ core, s.world.coreOf workspace = some core ∧
      (sameOutput = true → core.output.isSome ∧ core.output = s.currentOutput order) := by
  rw [ordered, ((List.mergeSort_perm _ _).map Prod.fst).mem_iff, List.mem_map]
  constructor
  · rintro ⟨⟨found, state⟩, hfound, rfl⟩
    obtain ⟨hmem, hthere⟩ := List.mem_filter.mp hfound
    refine ⟨state.core, World.coreOf_of_lookup (mem_workspaces.mp hmem), fun hsame => ?_⟩
    rw [hsame, Bool.not_true, Bool.false_or, Bool.and_eq_true_iff] at hthere
    exact ⟨hthere.1, of_decide_eq_true hthere.2⟩
  · rintro ⟨core, hcore, hthere⟩
    obtain ⟨state, hstate, rfl⟩ := World.lookup_of_coreOf hcore
    refine ⟨(workspace, state), List.mem_filter.mpr ⟨mem_workspaces.mpr hstate, ?_⟩, rfl⟩
    cases sameOutput with
    | false => rfl
    | true =>
        obtain ⟨hsome, heq⟩ := hthere rfl
        rw [Bool.not_true, Bool.false_or, Bool.and_eq_true_iff]
        exact ⟨hsome, decide_eq_true heq⟩

theorem pairwise_ordered : (s.ordered order sameOutput).Pairwise (Before s) := by
  rw [ordered, List.pairwise_map]
  refine (List.pairwise_mergeSort (fun first second third h h' => ?_) (fun first second => ?_)
    _).imp_of_mem ?_
  · exact decide_eq_true (Std.le_trans (of_decide_eq_true h) (of_decide_eq_true h'))
  · rw [Bool.or_eq_true, decide_eq_true_iff, decide_eq_true_iff]
    exact Std.le_total
  · intro first second hfirst hsecond hle core other hcore hother
    have hstate := mem_workspaces.mp (List.mem_of_mem_filter (List.mem_mergeSort.mp hfirst))
    have hstate' := mem_workspaces.mp (List.mem_of_mem_filter (List.mem_mergeSort.mp hsecond))
    rw [World.coreOf_of_lookup hstate] at hcore
    rw [World.coreOf_of_lookup hstate'] at hother
    cases hcore
    cases hother
    exact of_decide_eq_true hle

/-- Two workspaces have different places. -/
theorem Before.antisymm (h : Orderly s.world) {first second : Entity} {core other : Core}
    (hfirst : s.world.coreOf first = some core) (hsecond : s.world.coreOf second = some other)
    (hle : Before s first second) (hge : Before s second first) : first = second := by
  have heq : placeKey s core = placeKey s other :=
    Std.le_antisymm (hle core other hfirst hsecond) (hge other core hsecond hfirst)
  exact h.identity first second core other hfirst hsecond
    (congrArg (fun key => (ofLex (ofLex (ofLex key).2).2).2) heq)

theorem placeKey_place (h : SamePlaces s t) {core core' : Core} (heq : place core' = place core) :
    placeKey t core' = placeKey s core := by
  obtain ⟨hid, hname, houtput⟩ := place_eq heq
  simp only [placeKey, sortKey, hid, hname, houtput, h.outputs, h.describe]

/-- A workspace of one desktop is one of the other. -/
theorem SamePlaces.core (h : SamePlaces s t) {core' : Core} (hcore' : t.world.coreOf workspace = some core') :
    ∃ core, s.world.coreOf workspace = some core ∧ place core = place core' := by
  have heq := h.cores workspace
  rw [hcore', Option.map_some] at heq
  exact Option.map_eq_some_iff.mp heq.symm

theorem SamePlaces.symm (h : SamePlaces s t) : SamePlaces t s :=
  ⟨fun workspace => (h.cores workspace).symm, h.outputs.symm, h.describe.symm⟩

variable {order' : IterationOrder Entity}

theorem SamePlaces.mem_ordered (h : SamePlaces s t)
    (hcurrent : sameOutput = true → s.currentOutput order = t.currentOutput order')
    (hmem : workspace ∈ t.ordered order' sameOutput) : workspace ∈ s.ordered order sameOutput := by
  obtain ⟨core', hcore', hthere⟩ := I3.mem_ordered.mp hmem
  obtain ⟨core, hcore, heq⟩ := h.core hcore'
  refine I3.mem_ordered.mpr ⟨core, hcore, fun hsame => ?_⟩
  rw [(place_eq heq).2.2, hcurrent hsame]
  exact hthere hsame

/-- **The order depends on the places only.** -/
theorem ordered_congr (h : Orderly s.world) (hplaces : SamePlaces s t)
    (hcurrent : sameOutput = true → s.currentOutput order = t.currentOutput order') :
    t.ordered order' sameOutput = s.ordered order sameOutput := by
  have hsame : ∀ workspace, workspace ∈ t.ordered order' sameOutput ↔
      workspace ∈ s.ordered order sameOutput := fun workspace =>
    ⟨hplaces.mem_ordered hcurrent, hplaces.symm.mem_ordered fun hout => (hcurrent hout).symm⟩
  have hperm : (t.ordered order' sameOutput).Perm (s.ordered order sameOutput) :=
    (List.perm_ext_iff_of_nodup nodup_ordered nodup_ordered).mpr hsame
  have hpairwise : (t.ordered order' sameOutput).Pairwise (Before s) := by
    refine pairwise_ordered.imp_of_mem fun {first second} _ _ hle core other hcore hother => ?_
    obtain ⟨core', hcore', heq⟩ := hplaces.symm.core hcore
    obtain ⟨other', hother', heq'⟩ := hplaces.symm.core hother
    rw [← placeKey_place hplaces heq, ← placeKey_place hplaces heq']
    exact hle core' other' hcore' hother'
  refine hperm.eq_of_pairwise (fun first second hfirst hsecond hle hge => ?_) hpairwise
    pairwise_ordered
  obtain ⟨core, hcore, -⟩ := I3.mem_ordered.mp ((hsame first).mp hfirst)
  obtain ⟨other, hother, -⟩ := I3.mem_ordered.mp hsecond
  exact hle.antisymm h hcore hother hge

end

/-! ### There and back -/

/-- A relative selector. -/
def relative : Bool → Bool → WorkspaceTarget
  | false, true => .next
  | false, false => .previous
  | true, true => .nextOnOutput
  | true, false => .previousOnOutput

theorem find_relative (order : IterationOrder Entity) (s : Desktop) (sameOutput forward : Bool) :
    s.find order (relative sameOutput forward) = s.neighbour order sameOutput forward := by
  cases sameOutput with
  | false | true =>
      cases forward with
      | false | true => rfl

section
variable {l : List Entity} {workspace : Entity} {i : ℕ}

theorem findIdx_of_nodup (hl : l.Nodup) (h : l[i]? = some workspace) :
    (l.findIdx? fun other => some other = some workspace) = some i := by
  obtain ⟨hi, heq⟩ := List.getElem?_eq_some_iff.mp h
  rw [List.findIdx?_eq_some_iff_getElem]
  refine ⟨hi, decide_eq_true (congrArg some heq), fun j hj hsame => ?_⟩
  have hother : l[j] = l[i] := (Option.some.inj (of_decide_eq_true hsame)).trans heq.symm
  exact absurd ((hl.getElem_inj_iff).mp hother) (Nat.ne_of_lt hj)

/-- The one before the next one. -/
theorem previous_of_next {n : ℕ} (h : i < n) : ((i + 1) % n + n - 1) % n = i := by
  rcases Nat.lt_or_ge (i + 1) n with hlt | hge
  · have heq : i + 1 + n - 1 = i + n := by omega
    rw [Nat.mod_eq_of_lt hlt, heq, Nat.add_mod_right, Nat.mod_eq_of_lt h]
  · have heq : i + 1 = n := by omega
    rw [heq, Nat.mod_self, Nat.zero_add, Nat.mod_eq_of_lt (by omega)]
    omega

end

section
variable {order : IterationOrder Entity} {layout : Layout} {s t : Desktop} {workspace : Entity}
  {sameOutput : Bool}

/-- The next workspace, and the one before it. -/
theorem neighbours (hselected : s.world.selected = some workspace)
    (hmem : workspace ∈ s.ordered order sameOutput) :
    ∃ next ∈ s.ordered order sameOutput, s.neighbour order sameOutput true = some next ∧
      ∀ (t : Desktop) (order' : IterationOrder Entity), t.world.selected = some next →
        t.ordered order' sameOutput = s.ordered order sameOutput →
          t.neighbour order' sameOutput false = some workspace := by
  obtain ⟨i, hi⟩ := List.mem_iff_getElem?.mp hmem
  obtain ⟨hlt, -⟩ := List.getElem?_eq_some_iff.mp hi
  have hpos : (i + 1) % (s.ordered order sameOutput).length < (s.ordered order sameOutput).length :=
    Nat.mod_lt _ (by omega)
  have hnext := List.getElem?_eq_getElem hpos
  refine ⟨_, List.mem_of_getElem? hnext, ?_, fun t order' hthere hsame => ?_⟩
  · rw [neighbour, hselected, findIdx_of_nodup nodup_ordered hi, Option.bind_some, if_pos rfl,
      hnext]
  · rw [neighbour, hthere, hsame, findIdx_of_nodup nodup_ordered hnext, Option.bind_some,
      if_neg Bool.false_ne_true, previous_of_next hlt, hi]

theorem neighbour_none (hselected : s.world.selected = none) (forward : Bool) :
    s.neighbour order sameOutput forward = none := by
  have hnone : ((s.ordered order sameOutput).findIdx? fun workspace =>
      decide (some workspace = s.world.selected)) = none := by
    rw [List.findIdx?_eq_none_iff, hselected]
    intro other _
    rfl
  rw [neighbour, hnone, Option.bind_none]

/-- A relative selector neither names a workspace nor creates one. -/
theorem relative_plain (order : IterationOrder Entity) (s : Desktop) (sameOutput forward allow : Bool) :
    s.automatic order (relative sameOutput forward) allow = false ∧
      s.creationName (relative sameOutput forward) = none := by
  cases sameOutput with
  | false | true =>
      cases forward with
      | false | true => exact ⟨by simp [automatic, relative], rfl⟩

/-- A relative selector switches to a neighbour, if there is an output. -/
theorem request_relative (forward allow : Bool) (hcurrent : s.currentOutput order ≠ none) :
    s.request order layout (.navigate (relative sameOutput forward) .switch allow) =
      ((s.neighbour order sameOutput forward).map (s.resolvedSwitch order layout)).getD s := by
  obtain ⟨hautomatic, hcreation⟩ := relative_plain order s sameOutput forward allow
  have hstays : ¬(WorkspaceNavigation.switch = .moveWindow ∧ s.world.focus = none) :=
    fun hand => nomatch hand.1
  have hresolve : s.resolve order (relative sameOutput forward) =
      (s.neighbour order sameOutput forward).map (s, ·) := by
    rw [resolve, find_relative, hcreation]
    cases s.neighbour order sameOutput forward with
    | none | some => rfl
  rw [request.eq_def, if_neg hcurrent]
  show s.navigate order layout _ _ _ = _
  rw [navigate, if_neg hstays, hautomatic, if_neg Bool.false_ne_true, hresolve]
  cases s.neighbour order sameOutput forward with
  | none | some => rfl

/-- The outputs stay as they are. -/
theorem relative_outputs (h : Proper s) (order : IterationOrder Entity) (layout : Layout)
    (sameOutput forward allow : Bool) :
    (s.request order layout (.navigate (relative sameOutput forward) .switch allow)).world.outputs =
        s.world.outputs ∧
      (s.request order layout (.navigate (relative sameOutput forward) .switch allow)).describe =
        s.describe := by
  by_cases hcurrent : s.currentOutput order = none
  · rw [request.eq_def, if_pos hcurrent]
    exact ⟨rfl, rfl⟩
  rw [request_relative forward allow hcurrent]
  cases s.neighbour order sameOutput forward with
  | none => exact ⟨rfl, rfl⟩
  | some found =>
      rw [Option.map_some, Option.getD_some]
      by_cases hthere : ∃ core output, s.world.coreOf found = some core ∧ core.output = some output
      · obtain ⟨core, output, hcore, houtput⟩ := hthere
        have hswitch := resolvedSwitch_switched h.toKept order layout hcore houtput
        exact ⟨hswitch.changes.outputs, hswitch.steady.describe⟩
      · rw [resolvedSwitch_none order layout fun core hcore => ?_]
        · exact ⟨rfl, rfl⟩
        · by_contra hsome
          obtain ⟨output, houtput⟩ := Option.ne_none_iff_exists'.mp hsome
          exact hthere ⟨core, output, hcore, houtput⟩

/-- The output of the selected workspace is the current one. -/
theorem currentOutput_selected {core : Core} {output : Entity}
    (hselected : s.world.selected = some workspace) (hcore : s.world.coreOf workspace = some core)
    (houtput : core.output = some output) (hlive : output ∈ s.world.outputs) :
    s.currentOutput order = some output := by
  obtain ⟨state, hstate, rfl⟩ := World.lookup_of_coreOf hcore
  have hthere : state.output = some output := houtput
  rw [currentOutput, hselected, Option.bind_some, hstate, Option.bind_some, hthere,
    Option.filter_some_pos, Option.some_or, Option.some_or]
  exact decide_eq_true hlive

/-- **The next workspace, and then the previous one, is the one that was selected**, if no workspace
changes in between. -/
theorem next_previous (h : Proper s)
    (hplaced : s.world.outputs.Nonempty → ∀ workspace, ¬Orphan s.world workspace)
    (order' : IterationOrder Entity) (layout' : Layout) (allow allow' : Bool) (ht : Proper t)
    (hcores : t.world.coreOf =
      (s.request order layout (.navigate (relative sameOutput true) .switch allow)).world.coreOf)
    (houtputs : t.world.outputs = s.world.outputs) (hdescribe : t.describe = s.describe)
    (hselected : t.world.selected =
      (s.request order layout (.navigate (relative sameOutput true) .switch allow)).world.selected) :
    (t.request order' layout' (.navigate (relative sameOutput false) .switch allow')).world.selected =
      s.world.selected := by
  by_cases hempty : s.world.outputs = ∅
  · -- without an output both requests are deferred
    rw [request.eq_def, if_pos (currentOutput_eq_none.mpr hempty)] at hselected
    rw [request.eq_def, if_pos (currentOutput_eq_none.mpr (houtputs.trans hempty)), hselected]
  have hcurrent : s.currentOutput order ≠ none := fun hnone =>
    hempty (currentOutput_eq_none.mp hnone)
  have hcurrent' : t.currentOutput order' ≠ none := fun hnone =>
    hempty (houtputs.symm.trans (currentOutput_eq_none.mp hnone))
  rw [request_relative true allow hcurrent] at hcores hselected
  rw [request_relative false allow' hcurrent']
  cases hwas : s.world.selected with
  | none =>
      rw [neighbour_none hwas, Option.map_none, Option.getD_none, hwas] at hselected
      rw [neighbour_none hselected, Option.map_none, Option.getD_none, hselected]
  | some workspace =>
      have hplace : ∀ other core, s.world.coreOf other = some core → ∃ output,
          core.output = some output := fun other core hcore =>
        Option.ne_none_iff_exists'.mp fun hnone => hplaced (Finset.nonempty_iff_ne_empty.mpr hempty) other ⟨core, hcore, hnone⟩
      obtain ⟨core, hcore, -⟩ := h.shown workspace hwas
      obtain ⟨output, houtput⟩ := hplace workspace core hcore
      have hlive := h.orderly.live workspace core output hcore houtput
      have hcurrentOutput : s.currentOutput order = some output :=
        currentOutput_selected hwas hcore houtput hlive
      have hmem : workspace ∈ s.ordered order sameOutput := by
        refine mem_ordered.mpr ⟨core, hcore, fun _ => ?_⟩
        rw [houtput, hcurrentOutput]
        exact ⟨rfl, rfl⟩
      obtain ⟨next, hnext, hneighbour, hback⟩ := neighbours hwas hmem
      obtain ⟨core', hcore', hthere⟩ := mem_ordered.mp hnext
      obtain ⟨output', houtput'⟩ := hplace next core' hcore'
      have hswitch := resolvedSwitch_switched h.toKept order layout hcore' houtput'
      rw [hneighbour, Option.map_some, Option.getD_some] at hcores hselected
      rw [hswitch.selected] at hselected
      have hplaces : SamePlaces s t := by
        refine ⟨fun other => ?_, houtputs, hdescribe⟩
        rw [hcores, hswitch.changes.cores, Option.map_map]
        congr 1
        funext found
        rw [Function.comp_apply]
        split_ifs
        · rfl
        · rfl
      have hsame : sameOutput = true → s.currentOutput order = t.currentOutput order' := by
        intro hout
        obtain ⟨found, hfound, heq⟩ := hplaces.symm.core hcore'
        have hlive' : output' ∈ t.world.outputs := by
          rw [houtputs]
          exact h.orderly.live next core' output' hcore' houtput'
        rw [currentOutput_selected hselected hfound ((place_eq heq).2.2.trans houtput') hlive',
          ← (hthere hout).2, houtput']
      have hnow := hback t order' hselected (ordered_congr h.orderly hplaces hsame)
      obtain ⟨found, hfound, heq⟩ := hplaces.symm.core hcore
      rw [hnow, Option.map_some, Option.getD_some]
      exact (resolvedSwitch_switched ht.toKept order' layout' hfound
        ((place_eq heq).2.2.trans houtput)).selected

end

end I3
