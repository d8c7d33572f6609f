/-
**The bookkeeping of the workspaces.**

Names, memberships and histories are kept apart, by different observers.  Whatever happens, in whatever
order: the index holds the names of the workspaces and no other, no two workspaces share one, no window
occurs twice in a history, and a window occurs in the history of its workspace.

`Observed` keeps a list of the moves that nobody has been told of yet; only these windows are in the
history of another workspace, the one they left.

Main definitions: `Sound`, `observe`.

Main results:

* `Sound.observe` — every step keeps the invariant;
* `workspaces_stay_consistent` — what holds after every run.
-/

import Weld.Transition
import Weld.WorkspaceHistories

namespace Workspaces

open AList

/-! ### What is asked of the workspaces -/

/-- A request changes no name, no membership and no history, unless it removes a workspace. -/
theorem request_keeps (s : World) {asked : WorkspaceRequest}
    (h : ∀ workspace, asked ≠ .removeEmpty workspace) :
    Frame s (s.request asked).1 ∧ (s.request asked).1.historyOf = s.historyOf ∧
      (s.request asked).1.memberOf = s.memberOf := by
  have hsame : Frame s s ∧ s.historyOf = s.historyOf ∧ s.memberOf = s.memberOf :=
    ⟨Frame.refl s, rfl, rfl⟩
  have hset : ∀ (workspace : Entity) (f : Workspace → Workspace)
      (g : ManagedWindow → ManagedWindow), (∀ state, (f state).name = state.name) →
      (∀ state, (f state).history = state.history) → (∀ window, (g window).member = window.member) →
      Frame s ((s.setWorkspace workspace f).setMembers workspace g) ∧
      ((s.setWorkspace workspace f).setMembers workspace g).historyOf = s.historyOf ∧
      ((s.setWorkspace workspace f).setMembers workspace g).memberOf = s.memberOf := by
    intro workspace f g hname hhistory hmember
    refine ⟨(Frame.setWorkspace s workspace hname).trans (Frame.setWindows _ ?_), ?_, ?_⟩
    · exact keys_mapValues _ _
    · funext key
      have hformula := s.historyOf_setWorkspace workspace (f := f) (g := id)
        hhistory key
      rw [Option.map_id, id, ite_self] at hformula
      exact hformula
    · rw [World.memberOf_setMembers _ workspace hmember]
      rfl
  cases asked with
  | assign workspace output =>
      simp only [World.request]
      split_ifs
      · exact hsame
      · exact hset workspace _ _ (fun _ => rfl) (fun _ => rfl) (fun _ => rfl)
  | setVisible workspace visible =>
      simp only [World.request]
      split
      · exact hsame
      · split_ifs
        · exact hsame
        · exact hsame
        · exact hset workspace _ _ (fun _ => rfl) (fun _ => rfl) (fun _ => rfl)
        · exact hset workspace _ _ (fun _ => rfl) (fun _ => rfl) (fun _ => rfl)
  | focus workspace =>
      simp only [World.request]
      split
      · exact hsame
      · split_ifs
        · exact hsame
        · exact ⟨⟨rfl, rfl, rfl, fun _ h => h⟩, rfl, rfl⟩
  | select workspace window =>
      simp only [World.request]
      split
      · exact hsame
      · split_ifs
        · exact hsame
        · exact hsame
        · exact ⟨⟨rfl, rfl, rfl, fun _ h => h⟩, rfl, rfl⟩
  | removeEmpty workspace => exact absurd rfl (h workspace)

/-! ### Names -/

variable {s : World}

/-- One workspace gets a name that nobody has, or loses its name. -/
theorem Named.update {s' : World} (h : Named s) (workspace : Entity) (name? : Option String)
    (hname : ∀ key, s'.nameOf key = if key = workspace then name? else s.nameOf key) (hnames : ∀
      name, name ∈ s'.names ↔ name? = some name ∨ name ∈ s.names ∧ s.nameOf workspace ≠ some name)
    (hnew : ∀ name, name? = some name → name ≠ "" ∧ name ∉ s.names) : Named s' := by
  have hfree : ∀ key name, s.nameOf key = some name → name? ≠ some name := fun key name hkey heq =>
    (hnew name heq).2 ((h.indexed name).mpr ⟨key, hkey⟩)
  refine ⟨fun name => ?_, fun key hkey => ?_, fun a b name ha hb => ?_⟩
  · rw [hnames]
    constructor
    · rintro (hself | ⟨hmem, hother⟩)
      · exact ⟨workspace, by rw [hname, if_pos rfl, hself]⟩
      · obtain ⟨key, hkey⟩ := (h.indexed name).mp hmem
        have hne : key ≠ workspace := by
          rintro rfl
          exact hother hkey
        exact ⟨key, by rw [hname, if_neg hne, hkey]⟩
    · rintro ⟨key, hkey⟩
      rw [hname] at hkey
      split_ifs at hkey with heq
      · exact Or.inl hkey
      · exact Or.inr ⟨(h.indexed name).mpr ⟨key, hkey⟩, fun hsame =>
          heq (h.distinct key workspace name hkey hsame)⟩
  · rw [hname] at hkey
    split_ifs at hkey
    · exact (hnew "" hkey).1 rfl
    · exact h.nonempty key hkey
  · rw [hname] at ha hb
    split_ifs at ha hb with h1 h2 h2
    · rw [h1, h2]
    · exact absurd ha (hfree b name hb)
    · exact absurd hb (hfree a name ha)
    · exact h.distinct a b name ha hb

theorem nameOf_create {s' : World} {name : String} {output workspace : Entity} {events : List Event}
    (h : s.create name output = some (s', workspace, events)) (key : Entity) :
    s'.nameOf key = if key = s.nextEntity then some name else s.nameOf key := by
  unfold World.create at h
  split_ifs at h
  cases h
  unfold World.nameOf
  rw [lookup_insert_eq]
  split_ifs
  · rfl
  · rfl

variable {workspace : Entity} {state : Workspace} {label : Label}

/-- A workspace that is there has its new name, whether it is the same one or not. -/
theorem nameOf_rename (s : World) (name : String)
    (h : s.workspaces.lookup workspace = some state) (key : Entity) :
    (s.setWorkspace workspace fun state => { state with name }).nameOf key =
      if key = workspace then some name else s.nameOf key := by
  unfold World.nameOf World.setWorkspace
  rw [lookup_modify]
  split_ifs with hkey
  · rw [hkey, h]
    rfl
  · rfl

namespace Sound

variable {s : World} {unnotified : Finset (Entity × Entity)}
  {s' : World} {more : Finset (Entity × Entity)}

variable (h : Sound s unnotified)
include h

theorem frame (hframe : Frame s s') (hremembered : Remembered s' more) : Sound s' more :=
  ⟨hframe.named h.named, hremembered, hframe.fresh h.fresh⟩

theorem create {name : String} {output : Entity} {events : List Event}
    (hcreate : s.create name output = some (s', workspace, events)) : Sound s' unnotified := by
  have hname := nameOf_create hcreate
  unfold World.create at hcreate
  split_ifs at hcreate with hrejected hoverflow
  cases hcreate
  simp only [not_or] at hrejected
  have hnone := h.fresh.workspaces s.nextEntity le_rfl
  have hnoHistory : s.historyOf s.nextEntity = none := by
    unfold World.nameOf at hnone
    unfold World.historyOf
    rw [Option.map_eq_none_iff] at hnone ⊢
    exact hnone
  refine ⟨h.named.update s.nextEntity (some name) hname ?_ ?_, ?_, ?_⟩
  · intro other
    rw [Finset.mem_insert, hnone]
    simp [eq_comm]
  · rintro other heq
    cases heq
    exact ⟨hrejected.1, hrejected.2.2⟩
  · have hformula : ∀ key, World.historyOf
        { s with
          nextId := s.nextId + 1
          names := insert name s.names
          workspaces := s.workspaces.insert s.nextEntity
            { id := s.nextId, name, output := some output }
          nextEntity := s.nextEntity + 1 } key =
        if key = s.nextEntity then some [] else s.historyOf key := by
      intro key
      unfold World.historyOf
      rw [lookup_insert_eq]
      split_ifs
      · rfl
      · rfl
    refine ⟨fun key history hkey => ?_, fun window key hkey => ?_,
      fun window key history hkey hmem => ?_⟩
    · rw [hformula] at hkey
      split_ifs at hkey
      · cases hkey
        exact List.nodup_nil
      · exact h.remembered.nodup key history hkey
    · obtain ⟨history, hhist, hmem⟩ := h.remembered.own window key hkey
      refine ⟨history, ?_, hmem⟩
      rw [hformula, if_neg, hhist]
      rintro rfl
      rw [hnoHistory] at hhist
      cases hhist
    · rw [hformula] at hkey
      split_ifs at hkey
      · cases hkey
        cases hmem
      · exact h.remembered.others window key history hkey hmem
  · refine ⟨fun key hle => ?_, fun window hle hmem => ?_⟩
    · have hlt : s.nextEntity < key := hle
      rw [hname, if_neg hlt.ne']
      exact h.fresh.workspaces key hlt.le
    · have hlt : s.nextEntity < window := hle
      exact h.fresh.windows window hlt.le hmem

theorem rename (workspace : Entity) (name : String) :
    Sound (s.rename workspace name).1 unnotified := by
  unfold World.rename
  split_ifs with hrejected
  · exact h
  · simp only [not_or] at hrejected
    split
    · exact h
    · rename_i state hstate
      have hold : s.nameOf workspace = some state.name := by
        unfold World.nameOf
        rw [hstate]
        rfl
      have hformula := nameOf_rename s name hstate
      refine ⟨h.named.update workspace (some name) hformula ?_ ?_, ?_, ?_⟩
      · intro other
        rw [Finset.mem_insert, Finset.mem_erase, hold]
        simp only [Option.some.injEq, ne_eq, eq_comm (a := other)]
        tauto
      · rintro other heq
        cases heq
        exact hrejected
      · refine h.remembered.congr (funext fun key => ?_) rfl
        have hhistory := s.historyOf_setWorkspace workspace (g := id)
          (f := fun state => { state with name }) (fun _ => rfl) key
        rw [Option.map_id, id, ite_self] at hhistory
        exact hhistory
      · refine ⟨fun key hle => ?_, h.fresh.windows⟩
        have hnone := h.fresh.workspaces key hle
        refine (hformula key).trans ?_
        rw [if_neg, hnone]
        rintro rfl
        rw [hold] at hnone
        cases hnone

/-- A workspace that is removed has no members, and its name is free again. -/
theorem removeEmpty (workspace : Entity) :
    Sound (s.request (.removeEmpty workspace)).1 unnotified := by
  simp only [World.request]
  split
  · exact h
  · rename_i state hstate
    split_ifs with hrejected
    · exact h
    · simp only [not_or, not_exists, not_and] at hrejected
      have hempty : ∀ window, s.memberOf window ≠ some workspace := by
        intro window hmember
        obtain ⟨found, hfound⟩ := s.mem_windows_of_memberOf hmember
        exact hrejected.2.2 window (mem_keys_of_lookup hfound) hmember
      have hold : s.nameOf workspace = some state.name := by
        unfold World.nameOf
        rw [hstate]
        rfl
      have hremoved : s.removed workspace =
          { s with
            names := s.names.erase state.name
            selected := if s.selected = some workspace then none else s.selected } := by
        unfold World.removed
        rw [hstate]
      rw [hremoved]
      refine ⟨h.named.update workspace none ?_ ?_ ?_, ?_, ?_⟩
      · intro key
        unfold World.nameOf
        rw [lookup_erase_eq]
        split_ifs
        · rfl
        · rfl
      · intro other
        rw [Finset.mem_erase, hold]
        simp only [Option.some.injEq, ne_eq, reduceCtorEq, false_or, eq_comm (a := other)]
        tauto
      · rintro other heq
        cases heq
      · have hformula : ∀ key,
            (({ s with workspaces := s.workspaces.erase workspace } : World)).historyOf key =
            if key = workspace then none else s.historyOf key := by
          intro key
          unfold World.historyOf
          rw [lookup_erase_eq]
          split_ifs
          · rfl
          · rfl
        have hremembered :
            Remembered { s with workspaces := s.workspaces.erase workspace } unnotified := by
          refine ⟨fun key history hkey => ?_, fun window key hkey => ?_,
            fun window key history hkey hmem => ?_⟩
          · rw [hformula] at hkey
            split_ifs at hkey
            exact h.remembered.nodup key history hkey
          · rw [hformula, if_neg]
            · exact h.remembered.own window key hkey
            · rintro rfl
              exact hempty window hkey
          · rw [hformula] at hkey
            split_ifs at hkey
            exact h.remembered.others window key history hkey hmem
        exact hremembered.congr rfl rfl
      · refine ⟨fun key hle => ?_, h.fresh.windows⟩
        unfold World.nameOf
        rw [lookup_erase_eq]
        split_ifs
        · rfl
        · exact h.fresh.workspaces key hle

theorem request (asked : WorkspaceRequest) : Sound (s.request asked).1 unnotified := by
  by_cases hremoves : ∃ workspace, asked = .removeEmpty workspace
  · obtain ⟨workspace, rfl⟩ := hremoves
    exact h.removeEmpty workspace
  · obtain ⟨hframe, hhistory, hmember⟩ :=
      request_keeps s fun workspace heq => hremoves ⟨workspace, heq⟩
    exact h.frame hframe (h.remembered.congr hhistory hmember)

theorem rememberFocus (window : Option Entity) : Sound (s.rememberFocus window).1 unnotified :=
  h.frame (Frame.rememberFocus s window) (h.remembered.rememberFocus window)

/-! ### Members -/

/-- The move that an insertion makes, which is not known yet. -/
theorem insertMember (window workspace : Entity) {f : ManagedWindow → ManagedWindow}
    (hf : ∀ state, (f state).member = some workspace) (hwindow : window ∈ s.windows)
    (hworkspace : workspace ∈ s.workspaces) (hmore : unnotified ⊆ more) (hleft : ∀ previous,
      s.memberOf window = some previous → previous ≠ workspace → (window, previous) ∈ more) :
    Sound (({ s with windows := s.windows.modify window f } : World).memberInserted window) more := by
  refine h.frame (Frame.insertMember s window f) ?_
  obtain ⟨state, hstate⟩ := mem_keys_iff.mp (mem_keys.mp hwindow)
  obtain ⟨there, hthere⟩ := mem_keys_iff.mp (mem_keys.mp hworkspace)
  refine h.remembered.memberInserted rfl (fun other => ?_) ⟨there.history, ?_⟩ hmore hleft
  · rw [World.memberOf_modify, hstate, Option.bind_some, hf]
  · unfold World.historyOf
    rw [hthere]
    rfl

theorem memberMoved (window previous workspace : Entity)
    (hmember : s.memberOf window = some workspace) :
    Sound (s.memberMoved window previous) (unnotified.erase (window, previous)) :=
  h.frame (Frame.memberMoved s window previous) (h.remembered.memberMoved hmember)

/-- A window that is moved leaves nothing behind. -/
theorem transfer (workspace window : Entity) : Sound (s.transfer workspace window) unnotified := by
  unfold World.transfer
  split
  · rename_i previous id name visible history output hprevious hworkspace
    by_cases hsame : previous = workspace
    · rw [if_pos hsame]
      exact h
    · rw [if_neg hsame]
      obtain ⟨state, hstate⟩ := s.mem_windows_of_memberOf hprevious
      have hinserted := h.insertMember window workspace (f := fun state =>
          { state with
            member := some workspace
            output := some output
            visibility := if visible then .visible else .hidden })
        (fun _ => rfl) (mem_of_lookup hstate)
        (mem_of_lookup hworkspace)
        (Finset.subset_insert (window, previous) unnotified) (by
          intro other hother _
          rw [hprevious] at hother
          cases hother
          exact Finset.mem_insert_self _ _)
      have hmoved := hinserted.memberMoved window previous workspace (by
        rw [World.memberOf_memberInserted, World.memberOf_modify, if_pos rfl, hstate]
        rfl)
      have hnothing : (insert (window, previous) unnotified).erase (window, previous) ⊆
          unnotified := by
        rw [Finset.erase_insert_eq_erase]
        exact Finset.erase_subset _ _
      exact ⟨hmoved.named, hmoved.remembered.mono hnothing, hmoved.fresh⟩
  · exact h

theorem removeMember (window : Entity) : Sound (s.removeMember window) unnotified := by
  refine h.frame (Frame.removeMember s window) (h.remembered.memberRemoved rfl fun other => ?_)
  unfold World.removeMember World.setMember
  rw [World.memberOf_modify, World.memberOf_memberRemoved]
  split_ifs
  · cases (s.memberRemoved window).windows.lookup window with
    | none | some => rfl
  · rfl

/-! ### Entities -/

theorem despawnWindow (window : Entity) : Sound (s.despawnWindow window) unnotified := by
  refine h.frame (Frame.despawnWindow s window) (h.remembered.memberRemoved rfl fun other => ?_)
  unfold World.despawnWindow World.memberOf
  rw [lookup_erase_eq]
  split_ifs
  · rfl
  · exact congrFun (s.memberOf_memberRemoved window) other

theorem spawnWindow : Sound s.spawnWindow unnotified := by
  have hmember : s.spawnWindow.memberOf = s.memberOf := by
    funext window
    unfold World.memberOf World.spawnWindow
    rw [lookup_insert_eq]
    split_ifs with hnew
    · have hnone := lookup_eq_none.mpr (h.fresh.windows window hnew.ge)
      rw [hnone]
      rfl
    · rfl
  refine ⟨⟨h.named.indexed, h.named.nonempty, h.named.distinct⟩, h.remembered.congr rfl hmember, ?_⟩
  refine ⟨fun key hle => ?_, fun window hle hmem => ?_⟩
  · have hlt : s.nextEntity < key := hle
    exact h.fresh.workspaces key hlt.le
  · have hlt : s.nextEntity < window := hle
    rcases (mem_insert _).mp hmem with hnew | hold
    · exact hlt.ne' hnew
    · exact h.fresh.windows window hlt.le hold

theorem spawnOutput : Sound s.spawnOutput unnotified := by
  refine ⟨⟨h.named.indexed, h.named.nonempty, h.named.distinct⟩, h.remembered.congr rfl rfl, ?_⟩
  refine ⟨fun key hle => ?_, fun window hle => ?_⟩
  · have hlt : s.nextEntity < key := hle
    exact h.fresh.workspaces key hlt.le
  · have hlt : s.nextEntity < window := hle
    exact h.fresh.windows window hlt.le

theorem despawnOutput (output : Entity) : Sound (s.despawnOutput output) unnotified := by
  refine h.frame (Frame.despawnOutput s output)
    (h.remembered.congr (funext fun key => ?_) (s.memberOf_mapValues _ fun key window => ?_))
  · unfold World.historyOf World.despawnOutput
    rw [lookup_mapValues]
    cases s.workspaces.lookup key with
    | none => rfl
    | some state => simp [apply_ite Workspace.history]
  · split_ifs
    · rfl
    · rfl

omit h

end Sound

/-! ### Runs -/

/-- The world, and the moves that have not been made known: who moved, and from where. -/
structure Observed where
  world : World := {}
  unnotified : Finset (Entity × Entity) := ∅

/-- An insertion that takes a window from another workspace is to be made known.  The notice counts
if the window is in a workspace when it arrives; a transfer comes with its own. -/
def unnotifiedAfter (s : World) (unnotified : Finset (Entity × Entity)) :
    Label → Finset (Entity × Entity)
  | .insertMember window workspace =>
      match s.memberOf window with
      | none => unnotified
      | some previous =>
          if previous = workspace ∨ workspace ∉ s.workspaces then unnotified
          else insert (window, previous) unnotified
  | .memberMoved window previous =>
      match s.memberOf window with
      | none => unnotified
      | some _ => unnotified.erase (window, previous)
  | _ => unnotified

def observe (o : Observed) (label : Label) : Observed :=
  ⟨step o.world label, unnotifiedAfter o.world o.unnotified label⟩

/-- The request is turned down. -/
def rejects (s : World) : Label → Bool
  | .create name output => (s.create name output).isNone
  | .rename workspace name => !(s.rename workspace name).2.2
  | .request asked => !(s.request asked).2.2
  | _ => false

theorem Sound.initial : Sound {} ∅ := by
  refine ⟨⟨fun name => ?_, fun workspace => ?_, fun a b name ha => ?_⟩,
    ⟨fun workspace history h => ?_, fun window workspace h => ?_,
      fun window workspace history h => ?_⟩, ⟨fun _ _ => rfl, fun window _ h => ?_⟩⟩
  · constructor
    · intro h
      cases h
    · rintro ⟨workspace, h⟩
      cases h
  · intro h
    cases h
  · cases ha
  · cases h
  · cases h
  · cases h
  · cases h

/-- **Every step keeps the books.** -/
theorem Sound.observe {o : Observed} (h : Sound o.world o.unnotified) (label : Label) :
    Sound (observe o label).world (observe o label).unnotified := by
  obtain ⟨s, unnotified⟩ := o
  unfold Workspaces.observe
  cases label with
  | create name output =>
      simp only [step, unnotifiedAfter]
      cases hcreate : s.create name output with
      | none => exact h
      | some created => exact h.create hcreate
  | rename workspace name => exact h.rename workspace name
  | request asked => exact h.request asked
  | focusChanged window =>
      have hfocus : Sound { s with focus := window } unnotified :=
        ⟨⟨h.named.indexed, h.named.nonempty, h.named.distinct⟩, h.remembered.congr rfl rfl,
          ⟨h.fresh.workspaces, h.fresh.windows⟩⟩
      exact hfocus.rememberFocus window
  | insertMember window workspace =>
      simp only [step, unnotifiedAfter, World.insertMember]
      by_cases hlive : window ∈ s.windows ∧ workspace ∈ s.workspaces
      · rw [if_pos hlive]
        refine h.insertMember window workspace (f := fun state =>
          { state with member := some workspace }) (fun _ => rfl) hlive.1 hlive.2 ?_ ?_
        · split
          · exact Finset.Subset.refl _
          · split_ifs
            · exact Finset.Subset.refl _
            · exact Finset.subset_insert _ _
        · intro previous hprevious hne
          simp only [hprevious, hne, hlive.2, false_or, not_true_eq_false, if_false]
          exact Finset.mem_insert_self _ _
      · rw [if_neg hlive]
        have hnothing : unnotified = (match s.memberOf window with
            | none => unnotified
            | some previous =>
                if previous = workspace ∨ workspace ∉ s.workspaces then unnotified
                else insert (window, previous) unnotified) := by
          split
          · rfl
          · rename_i previous hprevious
            obtain ⟨state, hstate⟩ := s.mem_windows_of_memberOf hprevious
            have hwindow : window ∈ s.windows := mem_of_lookup hstate
            have hgone : workspace ∉ s.workspaces := fun hthere => hlive ⟨hwindow, hthere⟩
            rw [if_pos (Or.inr hgone)]
        rw [← hnothing]
        exact h
  | removeMember window => exact h.removeMember window
  | transfer windows workspace =>
      simp only [step, unnotifiedAfter]
      induction windows generalizing s with
      | nil => exact h
      | cons window windows ih => exact ih (s.transfer workspace window) (h.transfer workspace window)
  | memberMoved window previous =>
      simp only [step, unnotifiedAfter]
      cases hmember : s.memberOf window with
      | none =>
          have hsame : s.memberMoved window previous = s := by
            unfold World.memberMoved
            rw [hmember]
          rw [hsame]
          exact h
      | some workspace => exact h.memberMoved window previous workspace hmember
  | spawnOutput => exact h.spawnOutput
  | despawnOutput output => exact h.despawnOutput output
  | spawnWindow => exact h.spawnWindow
  | despawnWindow window => exact h.despawnWindow window

theorem sound_exec (run : List Label) :
    Sound (Transition.exec observe {} run).world (Transition.exec observe {} run).unnotified :=
  Transition.exec_invariant (P := fun o : Observed => Sound o.world o.unnotified)
    (fun _ label h => h.observe label) Sound.initial run

/-! ### What can be relied on -/

/-- Only a request removes a workspace. -/
theorem only_removeEmpty_removes (hthere : s.nameOf workspace ≠ none)
    (hgone : (step s label).nameOf workspace = none) : label = .request (.removeEmpty workspace) := by
  have hframe : ∀ s', Frame s s' → s'.nameOf workspace ≠ none := by
    intro s' hframe
    rw [hframe.nameOf]
    exact hthere
  cases label with
  | create name output =>
      simp only [step] at hgone
      cases hcreate : s.create name output with
      | none =>
          rw [hcreate] at hgone
          exact absurd hgone hthere
      | some created =>
          rw [hcreate] at hgone
          simp only [Option.map_some, Option.getD_some] at hgone
          rw [nameOf_create hcreate] at hgone
          split_ifs at hgone
          exact absurd hgone hthere
  | rename other name =>
      simp only [step, World.rename] at hgone
      split_ifs at hgone
      · exact absurd hgone hthere
      · split at hgone
        · exact absurd hgone hthere
        · rename_i state hstate
          have hname := (nameOf_rename s name hstate workspace).symm.trans hgone
          split_ifs at hname
          exact absurd hname hthere
  | request asked =>
      by_cases hremoves : ∃ other, asked = .removeEmpty other
      · obtain ⟨other, rfl⟩ := hremoves
        by_cases hother : other = workspace
        · rw [hother]
        · exfalso
          simp only [step, World.request] at hgone
          split at hgone
          · exact hthere hgone
          · split_ifs at hgone
            · exact hthere hgone
            · unfold World.nameOf at hgone hthere
              rw [lookup_erase_eq, if_neg fun heq => hother heq.symm] at hgone
              exact hthere hgone
      · exact absurd hgone (hframe _ (request_keeps s fun other heq => hremoves ⟨other, heq⟩).1)
  | focusChanged window =>
      exact absurd hgone (by
        simp only [step]
        rw [(Frame.rememberFocus { s with focus := window } window).nameOf]
        exact hthere)
  | insertMember window other =>
      refine absurd hgone ?_
      simp only [step, World.insertMember]
      split_ifs
      · exact hframe _ (Frame.insertMember s window _)
      · exact hthere
  | removeMember window => exact absurd hgone (hframe _ (Frame.removeMember s window))
  | transfer windows other =>
      refine absurd hgone (hframe _ ?_)
      clear hgone hframe hthere
      simp only [step]
      induction windows generalizing s with
      | nil => exact Frame.refl s
      | cons window windows ih => exact (Frame.transfer s other window).trans ih
  | memberMoved window previous => exact absurd hgone (hframe _ (Frame.memberMoved s window previous))
  | spawnOutput => exact absurd hgone hthere
  | despawnOutput output => exact absurd hgone (hframe _ (Frame.despawnOutput s output))
  | spawnWindow => exact absurd hgone hthere
  | despawnWindow window => exact absurd hgone (hframe _ (Frame.despawnWindow s window))

/-- A workspace that is removed is not shown, not selected, and has no members. -/
theorem removed_is_idle (hstate : s.workspaces.lookup workspace = some state)
    (hgone : (step s (.request (.removeEmpty workspace))).nameOf workspace = none) :
    state.visible = false ∧ s.selected ≠ some workspace ∧
      ∀ window, s.memberOf window ≠ some workspace := by
  simp only [step, World.request, hstate] at hgone
  split_ifs at hgone with hrejected
  · unfold World.nameOf at hgone
    rw [hstate] at hgone
    cases hgone
  · simp only [not_or, not_exists, not_and, Bool.not_eq_true] at hrejected
    refine ⟨hrejected.1, hrejected.2.1, fun window hmember => ?_⟩
    obtain ⟨found, hfound⟩ := s.mem_windows_of_memberOf hmember
    exact hrejected.2.2 window (mem_keys_of_lookup hfound) hmember

/-- What is turned down changes nothing. -/
theorem step_of_rejects (h : rejects s label = true) : step s label = s := by
  cases label with
  | create name output =>
      have hnone := Option.isNone_iff_eq_none.mp h
      simp only [step]
      rw [hnone]
      rfl
  | rename workspace name =>
      simp only [rejects, World.rename] at h
      simp only [step, World.rename]
      split_ifs at h ⊢
      · rfl
      · split at h
        · rfl
        · cases h
  | request asked =>
      simp only [rejects] at h
      simp only [step]
      cases asked with
      | assign workspace output =>
          simp only [World.request] at h ⊢
          split_ifs at h ⊢
          · rfl
          · cases h
      | setVisible workspace visible =>
          simp only [World.request] at h ⊢
          split at h
          · rfl
          · split_ifs at h ⊢
            · rfl
            · rfl
            · cases h
            · cases h
      | focus workspace =>
          simp only [World.request] at h ⊢
          split at h
          · rfl
          · split_ifs at h ⊢
            · rfl
            · cases h
      | select workspace window =>
          simp only [World.request] at h ⊢
          split at h
          · rfl
          · split_ifs at h ⊢
            · rfl
            · rfl
            · cases h
      | removeEmpty workspace =>
          simp only [World.request] at h ⊢
          split at h
          · rfl
          · split_ifs at h ⊢
            · rfl
            · cases h
  | _ => cases h

/-- **The books are right after every run.** -/
theorem workspaces_stay_consistent (run : List Label) :
    let o := Transition.exec observe {} run
    let s := o.world
    (∀ name, name ∈ s.names ↔ ∃ workspace, s.nameOf workspace = some name) ∧
    (∀ workspace, s.nameOf workspace ≠ some "") ∧
    (∀ a b name, s.nameOf a = some name → s.nameOf b = some name → a = b) ∧
    (∀ workspace history, s.historyOf workspace = some history → history.Nodup) ∧
    (∀ window workspace, s.memberOf window = some workspace →
      (∃ history, s.historyOf workspace = some history ∧ history.count window = 1) ∧
      ∀ other history, other ≠ workspace → s.historyOf other = some history → window ∈ history →
        (window, other) ∈ o.unnotified) ∧
    (∀ label, rejects s label = true → step s label = s) ∧
    (∀ label workspace state, s.workspaces.lookup workspace = some state →
      workspace ∉ (step s label).workspaces → label = .request (.removeEmpty workspace) ∧
      state.visible = false ∧ s.selected ≠ some workspace ∧
      ∀ window, s.memberOf window ≠ some workspace) := by
  have h := sound_exec run
  refine ⟨h.named.indexed, h.named.nonempty, h.named.distinct, h.remembered.nodup, ?_,
    fun label => step_of_rejects, ?_⟩
  · intro window workspace hmember
    constructor
    · obtain ⟨history, hhistory, hmem⟩ := h.remembered.own window workspace hmember
      exact ⟨history, hhistory,
        List.count_eq_one_of_mem (h.remembered.nodup workspace history hhistory) hmem⟩
    · intro other history hother hhistory hmem
      rcases h.remembered.others window other history hhistory hmem with hown | hleft
      · rw [hmember] at hown
        exact absurd (Option.some.inj hown).symm hother
      · exact hleft
  · intro label workspace state hstate hgone
    have hthere : (Transition.exec observe {} run).world.nameOf workspace ≠ none := by
      unfold World.nameOf
      rw [hstate]
      exact Option.some_ne_none _
    have hnone : (step (Transition.exec observe {} run).world label).nameOf workspace = none := by
      unfold World.nameOf
      rw [lookup_eq_none.mpr hgone]
      rfl
    obtain rfl := only_removeEmpty_removes hthere hnone
    exact ⟨rfl, removed_is_idle hstate hnone⟩

end Workspaces
