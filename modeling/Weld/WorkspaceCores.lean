/-
**What the requests make of a workspace.**

Apart from its history, a workspace has an identifier, a name, an output, and is visible or not.  This
module says once what each operation does to that, to the selection and to the memberships.

Main definitions: `Core`, `World.coreOf`, `Changes`.

Main results:

* `request_setVisible`, `request_assign`, `request_select`, `request_focus`,
  `request_removeEmpty` — the requests;
* `rememberFocus_changes`, `transfer_changes`, `memberOf_transfer` — focus and moves.
-/

import Weld.WorkspaceBookkeeping

namespace Workspaces

/-! ### Workspaces without their histories -/

@[ext] structure Core where
  id : ℕ
  name : String
  visible : Bool
  output : Option Entity
  deriving DecidableEq, Repr

def Workspace.core (state : Workspace) : Core :=
  ⟨state.id, state.name, state.visible, state.output⟩

variable {state : Workspace}

namespace World

def coreOf (s : World) (workspace : Entity) : Option Core :=
  (s.workspaces.lookup workspace).map Workspace.core

theorem coreOf_of_lookup {s : World} {workspace : Entity}
    (h : s.workspaces.lookup workspace = some state) : s.coreOf workspace = some state.core := by
  rw [coreOf, h]
  rfl

theorem lookup_of_coreOf {s : World} {workspace : Entity} {core : Core}
    (h : s.coreOf workspace = some core) :
    ∃ state, s.workspaces.lookup workspace = some state ∧ state.core = core :=
  Option.map_eq_some_iff.mp h

theorem coreOf_eq_none {s : World} {workspace : Entity} :
    s.coreOf workspace = none ↔ workspace ∉ s.workspaces := by
  rw [coreOf, Option.map_eq_none_iff, AList.lookup_eq_none]

theorem coreOf_name {s : World} {workspace : Entity} :
    s.nameOf workspace = (s.coreOf workspace).map Core.name := by
  rw [nameOf, coreOf, Option.map_map]
  rfl

end World

open World

/-! ### Changes -/

/-- Every workspace is changed by a function, and the outputs stay as they are. -/
structure Changes (s t : World) (f : Entity → Core → Core) : Prop where
  cores : ∀ workspace, t.coreOf workspace = (s.coreOf workspace).map (f workspace)
  outputs : t.outputs = s.outputs
  nextId : t.nextId = s.nextId
  nextEntity : t.nextEntity = s.nextEntity

open Changes

namespace Changes

variable {s t u : World} {f g : Entity → Core → Core}

theorem refl (s : World) : Changes s s fun _ core => core :=
  ⟨fun workspace => by rw [Option.map_id'], rfl, rfl, rfl⟩

theorem trans (h : Changes s t f) (h' : Changes t u g) :
    Changes s u fun workspace core => g workspace (f workspace core) where
  cores workspace := by
    rw [h'.cores, h.cores, Option.map_map]
    rfl
  outputs := h'.outputs.trans h.outputs
  nextId := h'.nextId.trans h.nextId
  nextEntity := h'.nextEntity.trans h.nextEntity

/-- Only what is done to the workspaces that are there counts. -/
theorem congr (h : Changes s t f)
    (heq : ∀ workspace core, s.coreOf workspace = some core → f workspace core = g workspace core) :
    Changes s t g where
  cores workspace := by
    rw [h.cores]
    cases hcore : s.coreOf workspace with
    | none => rfl
    | some core => rw [Option.map_some, Option.map_some, heq workspace core hcore]
  outputs := h.outputs
  nextId := h.nextId
  nextEntity := h.nextEntity

theorem mem_iff (h : Changes s t f) (workspace : Entity) :
    workspace ∈ t.workspaces ↔ workspace ∈ s.workspaces := by
  rw [← not_iff_not, ← coreOf_eq_none, ← coreOf_eq_none, h.cores, Option.map_eq_none_iff]

/-- Changing one workspace. -/
theorem setWorkspace (s : World) (workspace : Entity) {f : Workspace → Workspace}
    {g : Core → Core} (hf : ∀ state, (f state).core = g state.core) :
    Changes s (s.setWorkspace workspace f)
      fun other core => if other = workspace then g core else core where
  cores other := by
    rw [World.coreOf, World.setWorkspace, AList.lookup_modify, World.coreOf]
    by_cases h : other = workspace
    · rw [if_pos h]
      cases s.workspaces.lookup other with
      | none => rfl
      | some state => simp [h, hf]
    · rw [if_neg h]
      cases s.workspaces.lookup other with
      | none => rfl
      | some state => simp [h]
  outputs := rfl
  nextId := rfl
  nextEntity := rfl

/-- Changing a history only. -/
theorem history (s : World) (workspace : Entity) {f : Workspace → Workspace}
    (hf : ∀ state, (f state).core = state.core) :
    Changes s (s.setWorkspace workspace f) fun _ core => core :=
  (setWorkspace s workspace (g := id) hf).congr fun other core _ => by simp

theorem memberInserted (s : World) (window : Entity) :
    Changes s (s.memberInserted window) fun _ core => core := by
  rw [World.memberInserted]
  split
  · exact refl s
  · exact history s _ fun _ => rfl

theorem memberRemoved (s : World) (window : Entity) :
    Changes s (s.memberRemoved window) fun _ core => core := by
  rw [World.memberRemoved]
  split
  · exact refl s
  · exact history s _ fun _ => rfl

theorem memberMoved (s : World) (window previous : Entity) :
    Changes s (s.memberMoved window previous) fun _ core => core := by
  rw [World.memberMoved]
  split
  · exact refl s
  · split
    · exact refl s
    · refine trans (history s previous ?_) (history _ _ ?_) <;> exact fun _ => rfl

/-- Windows do not matter. -/
theorem ofWindows (s : World) (windows : Dict Entity ManagedWindow) :
    Changes s { s with windows } fun _ core => core :=
  ⟨fun workspace => by rw [Option.map_id']; rfl, rfl, rfl, rfl⟩

end Changes

/-! ### Requests -/

section
variable (s : World) (workspace : Entity)

/-- The output of a workspace is there. -/
def Core.presentable (outputs : Finset Entity) (core : Core) : Prop :=
  ∃ output, core.output = some output ∧ output ∈ outputs

theorem presentable_iff {s : World} :
    s.presentable state = true ↔ state.core.presentable s.outputs := by
  rw [presentable, Core.presentable, Workspace.core]
  cases state.output with
  | none | some => simp

open Classical in
/-- A workspace is hidden, or shown if its output is there. -/
theorem request_setVisible (visible : Bool) :
    Changes s (s.request (.setVisible workspace visible)).1 (fun other core =>
      if other = workspace ∧ (visible = false ∨ core.presentable s.outputs) then
        { core with visible } else core) ∧
      (s.request (.setVisible workspace visible)).1.selected = s.selected ∧
      (s.request (.setVisible workspace visible)).1.memberOf = s.memberOf := by
  have hmember : (s.request (.setVisible workspace visible)).1.memberOf = s.memberOf :=
    (request_keeps s fun _ heq => by cases heq).2.2
  refine ⟨?_, ?_, hmember⟩
  · rw [request]
    cases hstate : s.workspaces.lookup workspace with
    | none =>
        refine (refl s).congr fun other core hcore => ?_
        have hne : other ≠ workspace := by
          rintro rfl
          rw [World.coreOf, hstate] at hcore
          cases hcore
        rw [if_neg (fun h => hne h.1)]
    | some state =>
        have hcore := coreOf_of_lookup hstate
        dsimp only
        by_cases hrefused : visible = true ∧ s.presentable state = false
        · rw [if_pos hrefused]
          refine (refl s).congr fun other core hother => ?_
          rw [if_neg]
          rintro ⟨rfl, hfalse | hpresentable⟩
          · rw [hrefused.1] at hfalse
            cases hfalse
          · rw [hcore] at hother
            cases hother
            rw [presentable_iff.mpr hpresentable] at hrefused
            exact absurd hrefused.2 (by decide)
        · rw [if_neg hrefused]
          have haccepted : visible = false ∨ state.core.presentable s.outputs := by
            rw [not_and_or] at hrefused
            rcases hrefused with hfalse | hpresentable
            · exact .inl (by simpa using hfalse)
            · exact .inr (presentable_iff.mp (by simpa using hpresentable))
          by_cases hsame : state.visible = visible
          · rw [if_pos hsame]
            refine (refl s).congr fun other core hother => ?_
            by_cases heq : other = workspace
            · subst heq
              rw [hcore] at hother
              cases hother
              rw [if_pos ⟨rfl, haccepted⟩, ← hsame]
              rfl
            · rw [if_neg fun h => heq h.1]
          · rw [if_neg hsame]
            refine (((setWorkspace s workspace (g := fun core => { core with visible })
              fun _ => rfl).trans (Changes.ofWindows _ _))).congr fun other core hother => ?_
            by_cases heq : other = workspace
            · subst heq
              rw [hcore] at hother
              cases hother
              rw [if_pos rfl, if_pos ⟨rfl, haccepted⟩]
            · rw [if_neg heq, if_neg fun h => heq h.1]
  · rw [request]
    split
    · rfl
    · split_ifs
      · rfl
      · rfl
      · rfl
      · rfl

theorem request_assign (output : Entity) :
    Changes s (s.request (.assign workspace output)).1 (fun other core =>
      if other = workspace ∧ output ∈ s.outputs then { core with output := some output }
      else core) ∧
      (s.request (.assign workspace output)).1.selected = s.selected ∧
      (s.request (.assign workspace output)).1.memberOf = s.memberOf := by
  have hmember : (s.request (.assign workspace output)).1.memberOf = s.memberOf :=
    (request_keeps s fun _ heq => by cases heq).2.2
  refine ⟨?_, ?_, hmember⟩
  · rw [request]
    by_cases hrefused : workspace ∉ s.workspaces ∨ output ∉ s.outputs
    · rw [if_pos hrefused]
      refine (refl s).congr fun other core hother => ?_
      rw [if_neg]
      rintro ⟨rfl, hlive⟩
      rcases hrefused with hnone | hdead
      · rw [coreOf_eq_none.mpr hnone] at hother
        cases hother
      · exact hdead hlive
    · rw [if_neg hrefused]
      have hlive : output ∈ s.outputs := by
        by_contra hdead
        exact hrefused (.inr hdead)
      refine ((setWorkspace s workspace (g := fun core => { core with output := some output })
        fun _ => rfl).trans (Changes.ofWindows _ _)).congr fun other core hother => ?_
      by_cases heq : other = workspace
      · rw [if_pos heq, if_pos ⟨heq, hlive⟩]
      · rw [if_neg heq, if_neg fun h => heq h.1]
  · rw [request]
    split_ifs
    · rfl
    · rfl

/-- The workspace can be selected. -/
def World.Selectable (workspace : Entity) : Prop :=
  ∃ core, s.coreOf workspace = some core ∧ core.visible = true ∧ core.presentable s.outputs

theorem selectable_iff {s : World} {workspace : Entity}
    (h : s.workspaces.lookup workspace = some state) :
    s.Selectable workspace ↔ ¬(state.visible = false ∨ s.presentable state = false) := by
  rw [Selectable, coreOf_of_lookup h, not_or, Bool.not_eq_false, Bool.not_eq_false, presentable_iff]
  simp only [Option.some.injEq, exists_eq_left']
  rfl

open Classical in
/-- A visible workspace is selected, with a member of it or with none. -/
theorem request_select (window : Option Entity) :
    Changes s (s.request (.select workspace window)).1 (fun _ core => core) ∧
      (s.request (.select workspace window)).1.selected =
        (if s.Selectable workspace ∧ ∀ w ∈ window, s.memberOf w = some workspace then
          some workspace else s.selected) ∧
      (s.request (.select workspace window)).1.memberOf = s.memberOf := by
  rw [request]
  cases hstate : s.workspaces.lookup workspace with
  | none =>
      have hnot : ¬s.Selectable workspace := by
        rintro ⟨core, hcore, -⟩
        rw [World.coreOf, hstate] at hcore
        cases hcore
      exact ⟨refl s, (if_neg fun h => hnot h.1).symm, rfl⟩
  | some state =>
      dsimp only
      by_cases hrefused : state.visible = false ∨ s.presentable state = false
      · rw [if_pos hrefused]
        refine ⟨refl s, ?_, rfl⟩
        rw [if_neg]
        exact fun h => (selectable_iff hstate).mp h.1 hrefused
      · rw [if_neg hrefused]
        have hselectable := (selectable_iff hstate).mpr hrefused
        by_cases hmember : ∀ w ∈ window, s.memberOf w = some workspace
        · rw [if_neg, if_pos ⟨hselectable, hmember⟩]
          · exact ⟨⟨fun e => by rw [Option.map_id']; rfl, rfl, rfl, rfl⟩, rfl, rfl⟩
          · cases window with
            | none => simp
            | some w => simpa using hmember w rfl
        · rw [if_pos, if_neg fun h => hmember h.2]
          · exact ⟨refl s, rfl, rfl⟩
          · cases window with
            | none => simp at hmember
            | some w => simpa using hmember

open Classical in
theorem request_focus :
    Changes s (s.request (.focus workspace)).1 (fun _ core => core) ∧
      (s.request (.focus workspace)).1.selected =
        (if s.Selectable workspace then some workspace else s.selected) ∧
      (s.request (.focus workspace)).1.memberOf = s.memberOf := by
  rw [request]
  cases hstate : s.workspaces.lookup workspace with
  | none =>
      have hnot : ¬s.Selectable workspace := by
        rintro ⟨core, hcore, -⟩
        rw [World.coreOf, hstate] at hcore
        cases hcore
      exact ⟨refl s, (if_neg hnot).symm, rfl⟩
  | some state =>
      dsimp only
      by_cases hrefused : state.visible = false ∨ s.presentable state = false
      · rw [if_pos hrefused, if_neg fun h => (selectable_iff hstate).mp h hrefused]
        exact ⟨refl s, rfl, rfl⟩
      · rw [if_neg hrefused, if_pos ((selectable_iff hstate).mpr hrefused)]
        exact ⟨⟨fun e => by rw [Option.map_id']; rfl, rfl, rfl, rfl⟩, rfl, rfl⟩

/-- A workspace is removed if it is hidden, not selected, and has no windows. -/
theorem request_removeEmpty :
    (s.request (.removeEmpty workspace)).1.outputs = s.outputs ∧
      (s.request (.removeEmpty workspace)).1.nextId = s.nextId ∧
      (s.request (.removeEmpty workspace)).1.nextEntity = s.nextEntity ∧
      (s.request (.removeEmpty workspace)).1.selected = s.selected ∧
      (s.request (.removeEmpty workspace)).1.memberOf = s.memberOf ∧
      ((∀ other, (s.request (.removeEmpty workspace)).1.coreOf other = s.coreOf other) ∨
        (∀ core, s.coreOf workspace = some core → core.visible = false) ∧
          s.selected ≠ some workspace ∧ (∀ window, s.memberOf window ≠ some workspace) ∧
          ∀ other, (s.request (.removeEmpty workspace)).1.coreOf other =
            if other = workspace then none else s.coreOf other) := by
  rw [request]
  cases hstate : s.workspaces.lookup workspace with
  | none => exact ⟨rfl, rfl, rfl, rfl, rfl, .inl fun _ => rfl⟩
  | some state =>
      dsimp only
      split_ifs with hrefused
      · exact ⟨rfl, rfl, rfl, rfl, rfl, .inl fun _ => rfl⟩
      · simp only [not_or, not_exists, not_and, Bool.not_eq_true] at hrefused
        obtain ⟨hvisible, hselected, hmembers⟩ := hrefused
        have hremoved : s.removed workspace = { s with names := s.names.erase state.name } := by
          rw [removed, hstate]
          rw [if_neg hselected]
        rw [hremoved]
        refine ⟨rfl, rfl, rfl, rfl, rfl, .inr ⟨?_, hselected, ?_, ?_⟩⟩
        · intro core hcore
          rw [coreOf_of_lookup hstate] at hcore
          cases hcore
          exact hvisible
        · intro window hmember
          obtain ⟨found, hfound⟩ := s.mem_windows_of_memberOf hmember
          exact hmembers window (AList.mem_keys_of_lookup hfound) hmember
        · intro other
          rw [World.coreOf, AList.lookup_erase_eq]
          split_ifs
          · rfl
          · rfl

variable {name : String} {output : Entity}

theorem create_eq_some {s t : World} {created : Entity} {events : List Event}
    (h : s.create name output = some (t, created, events)) :
    name ≠ "" ∧ output ∈ s.outputs ∧ name ∉ s.names ∧ s.nextId + 1 ≤ u64Max ∧
      created = s.nextEntity ∧ events = [.created created] ∧
      t = { s with
        nextId := s.nextId + 1
        names := insert name s.names
        workspaces := s.workspaces.insert s.nextEntity
          { id := s.nextId, name, output := some output }
        nextEntity := s.nextEntity + 1 } := by
  rw [create] at h
  split_ifs at h with hrefused hexhausted
  cases h
  simp only [not_or, not_not] at hrefused
  exact ⟨hrefused.1, hrefused.2.1, hrefused.2.2, Nat.not_lt.mp hexhausted, rfl, rfl, rfl⟩

/-- Nothing but the end of the identifiers is in the way of a new name. -/
theorem create_isSome {s : World} (hname : name ≠ "")
    (houtput : output ∈ s.outputs) (hnew : name ∉ s.names) (hids : s.nextId < u64Max) :
    ∃ t created events, s.create name output = some (t, created, events) := by
  rw [create, if_neg, if_neg (Nat.not_lt.mpr hids)]
  · exact ⟨_, _, _, rfl⟩
  · simp [hname, houtput, hnew]

theorem coreOf_create {s t : World} {created : Entity} {events : List Event}
    (h : s.create name output = some (t, created, events)) (other : Entity) :
    t.coreOf other =
      if other = created then some ⟨s.nextId, name, false, some output⟩ else s.coreOf other := by
  obtain ⟨-, -, -, -, rfl, -, rfl⟩ := create_eq_some h
  rw [World.coreOf, AList.lookup_insert_eq]
  split_ifs
  · rfl
  · rfl

/-- A workspace that is renamed keeps everything else. -/
theorem rename_changes (name : String) :
    (s.rename workspace name).1 = s ∨
      name ∉ s.names ∧ Changes s (s.rename workspace name).1 (fun other core =>
        if other = workspace then { core with name } else core) ∧
        (s.rename workspace name).1.selected = s.selected ∧
        (s.rename workspace name).1.memberOf = s.memberOf := by
  rw [rename]
  split_ifs with hrefused
  · exact .inl rfl
  · simp only [not_or] at hrefused
    cases hstate : s.workspaces.lookup workspace with
    | none => exact .inl rfl
    | some state =>
        have hset := setWorkspace s workspace (f := fun state => { state with name })
          (g := fun core => { core with name }) fun _ => rfl
        exact .inr ⟨hrefused.2, ⟨hset.cores, hset.outputs, hset.nextId, hset.nextEntity⟩, rfl, rfl⟩

end

/-! ### Focus and members -/

section
variable (s : World) (workspace window : Entity)

/-- The focus selects a visible workspace, or changes nothing but a history. -/
theorem rememberFocus_changes (focused : Option Entity) :
    Changes s (s.rememberFocus focused).1 (fun _ core => core) ∧
      (s.rememberFocus focused).1.memberOf = s.memberOf ∧
      ((s.rememberFocus focused).1.selected = s.selected ∨
        ∃ workspace core, s.coreOf workspace = some core ∧ core.visible = true ∧
          (s.rememberFocus focused).1.selected = some workspace) := by
  cases focused with
  | none => exact ⟨refl s, rfl, .inl rfl⟩
  | some window =>
      rw [rememberFocus.eq_def]
      dsimp only
      cases s.memberOf window with
      | none => exact ⟨refl s, rfl, .inl rfl⟩
      | some workspace =>
          dsimp only
          cases hstate : s.workspaces.lookup workspace with
          | none => exact ⟨refl s, rfl, .inl rfl⟩
          | some state =>
              have hset := history s workspace (f := fun state =>
                { state with
                  history := window :: state.history.filter fun other =>
                    other ≠ window ∧ s.memberOf other = some workspace }) fun _ => rfl
              dsimp only
              by_cases hvisible : state.visible = true
              · rw [if_pos hvisible]
                exact ⟨⟨hset.cores, hset.outputs, hset.nextId, hset.nextEntity⟩, rfl,
                  .inr ⟨workspace, _, coreOf_of_lookup hstate, hvisible, rfl⟩⟩
              · rw [if_neg hvisible]
                exact ⟨hset, rfl, .inl rfl⟩

theorem selected_memberInserted : (s.memberInserted window).selected = s.selected := by
  rw [World.memberInserted]
  split
  · rfl
  · rfl

theorem selected_memberMoved (previous : Entity) :
    (s.memberMoved window previous).selected = s.selected := by
  rw [World.memberMoved]
  split
  · rfl
  · split
    · rfl
    · rfl

theorem memberOf_memberMoved (previous : Entity) :
    (s.memberMoved window previous).memberOf = s.memberOf := by
  rw [World.memberMoved]
  split
  · rfl
  · split
    · rfl
    · rfl

/-- A move changes no workspace. -/
theorem transfer_changes :
    Changes s (s.transfer workspace window) (fun _ core => core) ∧
      (s.transfer workspace window).selected = s.selected := by
  rw [transfer]
  split
  · split
    · exact ⟨refl s, rfl⟩
    · refine ⟨((Changes.ofWindows s _).trans (memberInserted _ window)).trans
        (memberMoved _ window _), ?_⟩
      rw [selected_memberMoved, selected_memberInserted]
  · exact ⟨refl s, rfl⟩

open Classical in
/-- A window of a workspace is moved to one that has an output; the others stay where they are. -/
theorem memberOf_transfer (other : Entity) :
    (s.transfer workspace window).memberOf other =
      if other = window ∧ (∃ previous, s.memberOf window = some previous) ∧
          (∃ core output, s.coreOf workspace = some core ∧ core.output = some output) then
        some workspace else s.memberOf other := by
  rw [transfer]
  split
  · rename_i previous id name visible history output hprevious hworkspace
    have hcore : ∃ core output, s.coreOf workspace = some core ∧ core.output = some output :=
      ⟨_, output, coreOf_of_lookup hworkspace, rfl⟩
    by_cases hsame : previous = workspace
    · rw [if_pos hsame]
      split_ifs with h
      · rw [h.1, hprevious, hsame]
      · rfl
    · rw [if_neg hsame, memberOf_memberMoved, memberOf_memberInserted, memberOf_modify]
      obtain ⟨state, hstate⟩ := s.mem_windows_of_memberOf hprevious
      by_cases hother : other = window
      · have hall : other = window ∧ (∃ previous, s.memberOf window = some previous) ∧
            ∃ core output, s.coreOf workspace = some core ∧ core.output = some output :=
          ⟨hother, ⟨previous, hprevious⟩, hcore⟩
        rw [if_pos hother, if_pos hall, hstate]
        rfl
      · rw [if_neg hother, if_neg fun h => hother h.1]
  · rename_i hnot
    rw [if_neg]
    rintro ⟨-, ⟨previous, hprevious⟩, core, output, hcore, houtput⟩
    obtain ⟨⟨id, name, visible, history, found⟩, hstate, rfl⟩ := lookup_of_coreOf hcore
    cases houtput
    exact hnot previous id name visible history output hprevious hstate

theorem insertMember_changes :
    Changes s (s.insertMember window workspace) (fun _ core => core) ∧
      (s.insertMember window workspace).selected = s.selected := by
  rw [insertMember]
  split
  · refine ⟨(Changes.ofWindows s _).trans (memberInserted _ window), ?_⟩
    rw [selected_memberInserted]
    rfl
  · exact ⟨refl s, rfl⟩

theorem memberOf_insertMember (hwindow : window ∈ s.windows) (hworkspace : workspace ∈ s.workspaces)
    (other : Entity) :
    (s.insertMember window workspace).memberOf other =
      if other = window then some workspace else s.memberOf other := by
  obtain ⟨state, hstate⟩ := AList.mem_keys_iff.mp (AList.mem_keys.mp hwindow)
  rw [insertMember, if_pos ⟨hwindow, hworkspace⟩, memberOf_memberInserted,
    setMember, memberOf_modify, hstate]
  rfl

theorem despawnWindow_changes :
    Changes s (s.despawnWindow window) (fun _ core => core) ∧
      (s.despawnWindow window).selected = s.selected ∧
      ∀ other, (s.despawnWindow window).memberOf other =
        if other = window then none else s.memberOf other := by
  refine ⟨(Changes.memberRemoved s window).trans (Changes.ofWindows _ _), ?_, ?_⟩
  · rw [despawnWindow]
    rw [World.memberRemoved]
    split
    · rfl
    · rfl
  · intro other
    rw [despawnWindow, memberOf, AList.lookup_erase_eq]
    split_ifs
    · rfl
    · exact congrFun (s.memberOf_memberRemoved window) other

end

end Workspaces
