/-
**The histories of the workspaces.**

A window that comes to a workspace joins the end of its history, and one that is focused or moved
there goes to the front.  A window that is removed is forgotten.  Which windows belong to a workspace
is said by the windows themselves, so a history may be behind: a layout that moves a window changes
its membership first and says so afterwards.

Main definitions: `Remembered`, `Frame`.

Main results:

* `Remembered.memberInserted`, `memberRemoved`, `memberMoved`, `rememberFocus` — every
  observer keeps this.
-/

import Weld.Workspaces

namespace Workspaces

/-! ### What is seen of the world -/

namespace World

variable (s : World)

def nameOf (workspace : Entity) : Option String := (s.workspaces.lookup workspace).map (·.name)

def historyOf (workspace : Entity) : Option (List Entity) :=
  (s.workspaces.lookup workspace).map (·.history)

@[simp] theorem memberOf_setWorkspace (workspace : Entity) (f : Workspace → Workspace) :
    (s.setWorkspace workspace f).memberOf = s.memberOf := rfl

@[simp] theorem names_setWorkspace (workspace : Entity) (f : Workspace → Workspace) :
    (s.setWorkspace workspace f).names = s.names := rfl

/-- Who is where depends on nothing else of a window. -/
theorem memberOf_mapValues (f : Entity → ManagedWindow → ManagedWindow)
    (hf : ∀ key window, (f key window).member = window.member) :
    ({ s with windows := s.windows.mapValues f } : World).memberOf = s.memberOf := by
  funext window
  unfold memberOf
  simp only [AList.lookup_mapValues]
  cases s.windows.lookup window with
  | none => rfl
  | some state => simp [hf]

@[simp] theorem memberOf_setMembers (workspace : Entity) {f : ManagedWindow → ManagedWindow}
    (hf : ∀ window, (f window).member = window.member) :
    (s.setMembers workspace f).memberOf = s.memberOf := by
  refine s.memberOf_mapValues _ fun key window => ?_
  split_ifs
  · exact hf window
  · rfl

theorem memberOf_modify (window : Entity) (f : ManagedWindow → ManagedWindow) (other : Entity) :
    ({ s with windows := s.windows.modify window f } : World).memberOf other =
      if other = window then (s.windows.lookup window).bind fun state => (f state).member
      else s.memberOf other := by
  unfold memberOf
  rw [AList.lookup_modify]
  by_cases hother : other = window
  · subst hother
    cases s.windows.lookup other with
    | none | some => simp
  · simp [hother]

variable {window workspace : Entity} {f : Workspace → Workspace}

theorem mem_windows_of_memberOf
    (h : s.memberOf window = some workspace) : ∃ state, s.windows.lookup window = some state := by
  obtain ⟨state, hstate, -⟩ := Option.bind_eq_some_iff.mp h
  exact ⟨state, hstate⟩

theorem nameOf_setWorkspace (hf : ∀ state, (f state).name = state.name) (key : Entity) :
    (s.setWorkspace workspace f).nameOf key = s.nameOf key := by
  unfold nameOf setWorkspace
  rw [AList.lookup_modify]
  split_ifs with hkey
  · cases s.workspaces.lookup key with
    | none => rfl
    | some state => simp [hf]
  · rfl

theorem historyOf_setWorkspace (workspace : Entity)
    {g : List Entity → List Entity} (hf : ∀ state, (f state).history = g state.history)
    (key : Entity) : (s.setWorkspace workspace f).historyOf key =
      if key = workspace then (s.historyOf key).map g else s.historyOf key := by
  unfold historyOf setWorkspace
  rw [AList.lookup_modify]
  split_ifs with hkey
  · cases s.workspaces.lookup key with
    | none => rfl
    | some state => simp [hf]
  · rfl

/-! ### What the observers make of a history -/

@[simp] theorem memberOf_memberInserted (window : Entity) :
    (s.memberInserted window).memberOf = s.memberOf := by
  unfold memberInserted
  split
  · rfl
  · rfl

theorem historyOf_memberInserted (window key : Entity) :
    (s.memberInserted window).historyOf key =
      if s.memberOf window = some key then
        (s.historyOf key).map fun history =>
          let kept := history.filter fun other => s.memberOf other = some key
          if window ∈ kept then kept else kept ++ [window]
      else s.historyOf key := by
  unfold memberInserted
  cases h : s.memberOf window with
  | none => simp
  | some workspace =>
      rw [s.historyOf_setWorkspace _ (g := fun history =>
        let kept := history.filter fun other => s.memberOf other = some workspace
        if window ∈ kept then kept else kept ++ [window]) (fun _ => rfl)]
      by_cases hkey : key = workspace
      · subst hkey
        simp
      · have hne : ¬ workspace = key := fun heq => hkey heq.symm
        simp [hkey, hne]

@[simp] theorem memberOf_memberRemoved (window : Entity) :
    (s.memberRemoved window).memberOf = s.memberOf := by
  unfold memberRemoved
  split
  · rfl
  · rfl

theorem historyOf_memberRemoved (window key : Entity) :
    (s.memberRemoved window).historyOf key =
      if s.memberOf window = some key then (s.historyOf key).map (·.filter (· ≠ window))
      else s.historyOf key := by
  unfold memberRemoved
  cases h : s.memberOf window with
  | none => simp
  | some workspace =>
      rw [s.historyOf_setWorkspace _ (fun _ => rfl)]
      by_cases hkey : key = workspace
      · subst hkey
        simp
      · have hne : ¬ workspace = key := fun heq => hkey heq.symm
        simp [hkey, hne]

@[simp] theorem memberOf_memberMoved (window previous : Entity) :
    (s.memberMoved window previous).memberOf = s.memberOf := by
  unfold memberMoved
  split
  · rfl
  · split_ifs
    · rfl
    · rfl

/-- A window that was moved is the first in its workspace, and no longer in the previous one. -/
theorem historyOf_memberMoved {previous : Entity} (h : s.memberOf window = some workspace)
    (hne : workspace ≠ previous) (key : Entity) :
    (s.memberMoved window previous).historyOf key =
      if key = workspace then (s.historyOf key).map fun history =>
        window :: history.filter (· ≠ window)
      else if key = previous then (s.historyOf key).map (·.filter (· ≠ window))
      else s.historyOf key := by
  unfold memberMoved
  simp only [h, hne, if_false]
  rw [historyOf_setWorkspace _ _ (g := fun history => window :: history.filter (· ≠ window))
      (fun _ => rfl),
    historyOf_setWorkspace _ _ (g := fun history => history.filter (· ≠ window)) (fun _ => rfl)]
  by_cases hkey : key = workspace
  · subst hkey
    simp [hne]
  · simp [hkey]

end World

/-! ### Invariants -/

/-- The index holds the names of the workspaces, and these are different. -/
structure Named (s : World) : Prop where
  indexed : ∀ name, name ∈ s.names ↔ ∃ workspace, s.nameOf workspace = some name
  nonempty : ∀ workspace, s.nameOf workspace ≠ some ""
  distinct : ∀ a b name, s.nameOf a = some name → s.nameOf b = some name → a = b

/-- A window is in the history of its workspace, and in those it left without notice. -/
structure Remembered (s : World) (unnotified : Finset (Entity × Entity)) : Prop where
  nodup : ∀ workspace history, s.historyOf workspace = some history → history.Nodup
  own : ∀ window workspace, s.memberOf window = some workspace →
    ∃ history, s.historyOf workspace = some history ∧ window ∈ history
  others : ∀ window workspace history, s.historyOf workspace = some history → window ∈ history →
    s.memberOf window = some workspace ∨ (window, workspace) ∈ unnotified

/-- The next entity is a new one. -/
structure Fresh (s : World) : Prop where
  workspaces : ∀ workspace, s.nextEntity ≤ workspace → s.nameOf workspace = none
  windows : ∀ window, s.nextEntity ≤ window → window ∉ s.windows

structure Sound (s : World) (unnotified : Finset (Entity × Entity)) : Prop where
  named : Named s
  remembered : Remembered s unnotified
  fresh : Fresh s

/-- What most of the observers leave alone. -/
structure Frame (s s' : World) : Prop where
  nameOf : s'.nameOf = s.nameOf
  names : s'.names = s.names
  nextEntity : s'.nextEntity = s.nextEntity
  windows : ∀ window, window ∈ s'.windows → window ∈ s.windows

namespace Frame

variable {s s' s'' : World}

theorem refl (s : World) : Frame s s := ⟨rfl, rfl, rfl, fun _ h => h⟩

theorem trans (h : Frame s s') (h' : Frame s' s'') : Frame s s'' :=
  ⟨h'.nameOf.trans h.nameOf, h'.names.trans h.names, h'.nextEntity.trans h.nextEntity,
    fun window hmem => h.windows window (h'.windows window hmem)⟩

theorem setWorkspace (s : World) (workspace : Entity) {f : Workspace → Workspace}
    (hf : ∀ state, (f state).name = state.name) : Frame s (s.setWorkspace workspace f) :=
  ⟨funext (s.nameOf_setWorkspace hf), rfl, rfl, fun _ h => h⟩

/-- Windows may change as long as none is new. -/
theorem setWindows (s : World) {windows : Dict Entity ManagedWindow}
    (hkeys : windows.keys = s.windows.keys) : Frame s { s with windows } := by
  refine ⟨rfl, rfl, rfl, fun window h => ?_⟩
  rw [AList.mem_keys] at h ⊢
  rwa [← hkeys]

theorem memberInserted (s : World) (window : Entity) : Frame s (s.memberInserted window) := by
  unfold World.memberInserted
  split
  · exact refl s
  · exact setWorkspace s _ fun _ => rfl

theorem memberRemoved (s : World) (window : Entity) : Frame s (s.memberRemoved window) := by
  unfold World.memberRemoved
  split
  · exact refl s
  · exact setWorkspace s _ fun _ => rfl

theorem memberMoved (s : World) (window previous : Entity) :
    Frame s (s.memberMoved window previous) := by
  unfold World.memberMoved
  split
  · exact refl s
  · split_ifs
    · exact refl s
    · refine trans (setWorkspace s previous ?_) (setWorkspace _ _ ?_) <;> exact fun _ => rfl

theorem rememberFocus (s : World) (window : Option Entity) :
    Frame s (s.rememberFocus window).1 := by
  unfold World.rememberFocus
  split
  · exact refl s
  · rename_i window
    split
    · exact refl s
    · rename_i workspace _
      split
      · exact refl s
      · rename_i state _
        by_cases hvisible : state.visible = true
        · simp only [hvisible, if_true]
          have hframe := setWorkspace s workspace (f := fun state =>
            { state with
              history := window :: state.history.filter fun other =>
                other ≠ window ∧ s.memberOf other = some workspace }) fun _ => rfl
          exact ⟨hframe.nameOf, hframe.names, hframe.nextEntity, hframe.windows⟩
        · simp only [hvisible]
          exact setWorkspace s workspace fun _ => rfl

/-- A window changes, and the workspace it is in then is told. -/
theorem insertMember (s : World) (window : Entity) (f : ManagedWindow → ManagedWindow) :
    Frame s (({ s with windows := s.windows.modify window f } : World).memberInserted window) :=
  (setWindows s (AList.keys_modify _ _ _)).trans (memberInserted _ window)

theorem transfer (s : World) (workspace window : Entity) :
    Frame s (s.transfer workspace window) := by
  unfold World.transfer
  split
  · rename_i previous id name visible history output hprevious hworkspace
    by_cases hsame : previous = workspace
    · rw [if_pos hsame]
      exact refl s
    · rw [if_neg hsame]
      exact (insertMember s window _).trans (memberMoved _ window previous)
  · exact refl s

theorem removeMember (s : World) (window : Entity) : Frame s (s.removeMember window) :=
  (memberRemoved s window).trans (setWindows _ (AList.keys_modify _ _ _))

theorem despawnWindow (s : World) (window : Entity) : Frame s (s.despawnWindow window) := by
  have hframe := memberRemoved s window
  exact ⟨hframe.nameOf, hframe.names, hframe.nextEntity,
    fun other hmem => hframe.windows other (AList.mem_erase.mp hmem).2⟩

theorem despawnOutput (s : World) (output : Entity) : Frame s (s.despawnOutput output) := by
  refine ⟨funext fun key => ?_, rfl, rfl, fun window hmem => ?_⟩
  · unfold World.nameOf World.despawnOutput
    rw [AList.lookup_mapValues]
    cases s.workspaces.lookup key with
    | none => rfl
    | some state => simp [apply_ite Workspace.name]
  · rw [AList.mem_keys] at hmem ⊢
    exact (AList.keys_mapValues _ _) ▸ hmem

theorem named (h : Frame s s') (hs : Named s) : Named s' :=
  ⟨by rw [h.names, h.nameOf]; exact hs.indexed, by rw [h.nameOf]; exact hs.nonempty,
    by rw [h.nameOf]; exact hs.distinct⟩

theorem fresh (h : Frame s s') (hs : Fresh s) : Fresh s' := by
  constructor
  · rw [h.nextEntity, h.nameOf]
    exact hs.workspaces
  · intro window hle hmem
    rw [h.nextEntity] at hle
    exact hs.windows window hle (h.windows window hmem)

end Frame

/-- Histories and memberships are all that counts for the histories. -/
theorem Remembered.congr {s s' : World} {unnotified : Finset (Entity × Entity)}
    (h : Remembered s unnotified) (hhistory : s'.historyOf = s.historyOf)
    (hmember : s'.memberOf = s.memberOf) : Remembered s' unnotified :=
  ⟨by rw [hhistory]; exact h.nodup, by rw [hhistory, hmember]; exact h.own,
    by rw [hhistory, hmember]; exact h.others⟩

/-! ### Members -/

namespace Remembered

variable {s : World} {unnotified : Finset (Entity × Entity)}
  {more : Finset (Entity × Entity)} {window workspace : Entity}

section

variable (h : Remembered s unnotified)
include h

theorem mono (hmore : unnotified ⊆ more) : Remembered s more := by
  refine ⟨h.nodup, h.own, fun window workspace history hhistory hmem => ?_⟩
  rcases h.others window workspace history hhistory hmem with hown | hleft
  · exact Or.inl hown
  · exact Or.inr (hmore hleft)

/-- A window comes to a workspace.  In the one it comes from it stays for now. -/
theorem memberInserted {s' : World} (hhistory : s'.historyOf = s.historyOf) (hmember : ∀ other,
      s'.memberOf other = if other = window then some workspace else s.memberOf other)
    (hthere : ∃ history, s.historyOf workspace = some history) (hmore : unnotified ⊆ more) (hleft :
      ∀ previous, s.memberOf window = some previous → previous ≠ workspace → (window, previous) ∈
      more) : Remembered (s'.memberInserted window) more := by
  have hself : s'.memberOf window = some workspace := by rw [hmember, if_pos rfl]
  have hformula : ∀ key, (s'.memberInserted window).historyOf key =
      if workspace = key then (s.historyOf key).map fun history =>
        let kept := history.filter fun other => s'.memberOf other = some key
        if window ∈ kept then kept else kept ++ [window]
      else s.historyOf key := by
    intro key
    rw [s'.historyOf_memberInserted, hself, hhistory]
    simp
  refine ⟨fun key history hkey => ?_, fun other key hkey => ?_, fun other key history hkey hmem => ?_⟩
  · rw [hformula] at hkey
    split_ifs at hkey with hworkspace
    · obtain ⟨before, hbefore, rfl⟩ := Option.map_eq_some_iff.mp hkey
      have hkept := (h.nodup key before hbefore).filter fun other =>
        decide (s'.memberOf other = some key)
      dsimp only
      split_ifs with hin
      · exact hkept
      · exact List.nodup_append.mpr ⟨hkept, List.nodup_singleton _, by
          intro a ha b hb heq
          rw [List.mem_singleton] at hb
          exact hin (hb ▸ heq ▸ ha)⟩
    · exact h.nodup key history hkey
  · -- the window itself was put there, everyone else was there and is kept
    rw [World.memberOf_memberInserted] at hkey
    rw [hformula]
    have hwas : other = window ∨ ∃ history, s.historyOf key = some history ∧ other ∈ history := by
      rw [hmember] at hkey
      split_ifs at hkey with hother
      · exact Or.inl hother
      · exact Or.inr (h.own other key hkey)
    split_ifs with hworkspace
    · subst hworkspace
      obtain ⟨before, hbefore⟩ := hthere
      refine ⟨_, by rw [hbefore]; rfl, ?_⟩
      dsimp only
      rcases hwas with rfl | ⟨history, hhist, hmem⟩
      · split_ifs with hin
        · exact hin
        · simp
      · rw [hbefore] at hhist
        cases hhist
        have hkept : other ∈ before.filter fun other =>
            decide (s'.memberOf other = some workspace) :=
          List.mem_filter.mpr ⟨hmem, by simpa using hkey⟩
        split_ifs
        · exact hkept
        · exact List.mem_append_left _ hkept
    · rcases hwas with rfl | hwas
      · rw [hself] at hkey
        exact absurd (Option.some.inj hkey) hworkspace
      · exact hwas
  · rw [World.memberOf_memberInserted]
    rw [hformula] at hkey
    split_ifs at hkey with hworkspace
    · subst hworkspace
      obtain ⟨before, hbefore, rfl⟩ := Option.map_eq_some_iff.mp hkey
      left
      dsimp only at hmem
      have hcases : other ∈ before.filter (fun other =>
          decide (s'.memberOf other = some workspace)) ∨ other = window := by
        split_ifs at hmem with hin
        · exact Or.inl hmem
        · simpa using hmem
      rcases hcases with hkept | rfl
      · simpa using (List.mem_filter.mp hkept).2
      · exact hself
    · rcases h.others other key history hkey hmem with hown | hpending
      · by_cases hother : other = window
        · subst hother
          exact Or.inr (hleft key hown fun heq => hworkspace heq.symm)
        · left
          rw [hmember, if_neg hother]
          exact hown
      · exact Or.inr (hmore hpending)

/-- A window that leaves its workspace is forgotten there. -/
theorem memberRemoved {s' : World} (hhistory : s'.historyOf = (s.memberRemoved window).historyOf)
    (hmember : ∀ other, s'.memberOf other = if other = window then none else s.memberOf other) :
    Remembered s' unnotified := by
  refine ⟨fun key history hkey => ?_, fun other key hkey => ?_, fun other key history hkey hmem => ?_⟩
  · rw [hhistory, s.historyOf_memberRemoved] at hkey
    split_ifs at hkey
    · obtain ⟨before, hbefore, rfl⟩ := Option.map_eq_some_iff.mp hkey
      exact (h.nodup key before hbefore).filter _
    · exact h.nodup key history hkey
  · rw [hmember] at hkey
    split_ifs at hkey with hother
    obtain ⟨history, hhist, hmem⟩ := h.own other key hkey
    rw [hhistory, s.historyOf_memberRemoved, hhist]
    split_ifs
    · exact ⟨_, rfl, List.mem_filter.mpr ⟨hmem, by simpa using hother⟩⟩
    · exact ⟨history, rfl, hmem⟩
  · rw [hmember]
    rw [hhistory, s.historyOf_memberRemoved] at hkey
    split_ifs at hkey with hown
    · obtain ⟨before, hbefore, rfl⟩ := Option.map_eq_some_iff.mp hkey
      obtain ⟨hbefore', hne⟩ := List.mem_filter.mp hmem
      rw [if_neg (by simpa using hne)]
      exact h.others other key before hbefore hbefore'
    · rcases h.others other key history hkey hmem with hthere | hpending
      · have hother : other ≠ window := by
          rintro rfl
          exact hown hthere
        rw [if_neg hother]
        exact Or.inl hthere
      · exact Or.inr hpending

/-- Once a move is known, nothing of the window is left where it was. -/
theorem memberMoved {previous : Entity} (hmember : s.memberOf window = some workspace) :
    Remembered (s.memberMoved window previous) (unnotified.erase (window, previous)) := by
  by_cases hne : workspace = previous
  · subst hne
    have hsame : s.memberMoved window workspace = s := by
      unfold World.memberMoved
      simp [hmember]
    rw [hsame]
    refine ⟨h.nodup, h.own, fun other key history hkey hmem => ?_⟩
    rcases h.others other key history hkey hmem with hown | hpending
    · exact Or.inl hown
    · by_cases heq : (other, key) = (window, workspace)
      · obtain ⟨rfl, rfl⟩ := Prod.mk.inj heq
        exact Or.inl hmember
      · exact Or.inr (Finset.mem_erase.mpr ⟨heq, hpending⟩)
  · refine ⟨fun key history hkey => ?_, fun other key hkey => ?_,
      fun other key history hkey hmem => ?_⟩
    · rw [s.historyOf_memberMoved hmember hne] at hkey
      split_ifs at hkey
      · obtain ⟨before, hbefore, rfl⟩ := Option.map_eq_some_iff.mp hkey
        exact List.nodup_cons.mpr ⟨by simp, (h.nodup key before hbefore).filter _⟩
      · obtain ⟨before, hbefore, rfl⟩ := Option.map_eq_some_iff.mp hkey
        exact (h.nodup key before hbefore).filter _
      · exact h.nodup key history hkey
    · rw [World.memberOf_memberMoved] at hkey
      obtain ⟨history, hhist, hmem⟩ := h.own other key hkey
      rw [s.historyOf_memberMoved hmember hne, hhist]
      by_cases hother : other = window
      · subst hother
        rw [hmember] at hkey
        rw [if_pos (Option.some.inj hkey).symm]
        exact ⟨_, rfl, List.mem_cons_self⟩
      · have hkept : other ∈ history.filter (· ≠ window) :=
          List.mem_filter.mpr ⟨hmem, by simpa using hother⟩
        split_ifs
        · exact ⟨_, rfl, List.mem_cons_of_mem _ hkept⟩
        · exact ⟨_, rfl, hkept⟩
        · exact ⟨history, rfl, hmem⟩
    · rw [World.memberOf_memberMoved]
      have hback : ∀ before, s.historyOf key = some before → other ∈ before →
          (other = window → key ≠ previous) → s.memberOf other = some key ∨
          (other, key) ∈ unnotified.erase (window, previous) := by
        intro before hbefore hin hkeep
        rcases h.others other key before hbefore hin with hown | hpending
        · exact Or.inl hown
        · refine Or.inr (Finset.mem_erase.mpr ⟨fun heq => ?_, hpending⟩)
          obtain ⟨hother, hkey⟩ := Prod.mk.inj heq
          exact hkeep hother hkey
      rw [s.historyOf_memberMoved hmember hne] at hkey
      split_ifs at hkey with hto hfrom
      · subst hto
        obtain ⟨before, hbefore, rfl⟩ := Option.map_eq_some_iff.mp hkey
        rcases List.mem_cons.mp hmem with rfl | hkept
        · exact Or.inl hmember
        · exact hback before hbefore (List.mem_of_mem_filter hkept) fun _ => hne
      · obtain ⟨before, hbefore, rfl⟩ := Option.map_eq_some_iff.mp hkey
        obtain ⟨hin, hother⟩ := List.mem_filter.mp hmem
        exact hback before hbefore hin fun heq => absurd heq (by simpa using hother)
      · exact hback history hkey hmem fun _ => hfrom

/-- A window that is focused comes first in its workspace. -/
theorem rememberFocus (window : Option Entity) :
    Remembered (s.rememberFocus window).1 unnotified := by
  unfold World.rememberFocus
  split
  · exact h
  · rename_i window
    split
    · exact h
    · rename_i workspace hmember
      split
      · exact h
      · rename_i state hstate
        have hfocused : Remembered (s.setWorkspace workspace fun state =>
            { state with
              history := window :: state.history.filter fun other =>
                other ≠ window ∧ s.memberOf other = some workspace }) unnotified := by
          have hformula := s.historyOf_setWorkspace workspace
            (g := fun history => window :: history.filter fun other =>
              other ≠ window ∧ s.memberOf other = some workspace)
            (f := fun state =>
              { state with
                history := window :: state.history.filter fun other =>
                  other ≠ window ∧ s.memberOf other = some workspace }) fun _ => rfl
          refine ⟨fun key history hkey => ?_, fun other key hkey => ?_,
            fun other key history hkey hmem => ?_⟩
          · rw [hformula] at hkey
            split_ifs at hkey
            · obtain ⟨before, hbefore, rfl⟩ := Option.map_eq_some_iff.mp hkey
              exact List.nodup_cons.mpr ⟨by simp, (h.nodup key before hbefore).filter _⟩
            · exact h.nodup key history hkey
          · obtain ⟨history, hhist, hmem⟩ := h.own other key hkey
            rw [hformula, hhist]
            split_ifs with hworkspace
            · subst hworkspace
              refine ⟨_, rfl, ?_⟩
              by_cases hother : other = window
              · exact hother ▸ List.mem_cons_self
              · exact List.mem_cons_of_mem _
                  (List.mem_filter.mpr ⟨hmem, by simpa [hother] using hkey⟩)
            · exact ⟨history, rfl, hmem⟩
          · rw [hformula] at hkey
            split_ifs at hkey with hworkspace
            · subst hworkspace
              obtain ⟨before, hbefore, rfl⟩ := Option.map_eq_some_iff.mp hkey
              rcases List.mem_cons.mp hmem with rfl | hkept
              · exact Or.inl hmember
              · have hown := (List.mem_filter.mp hkept).2
                simp only [decide_eq_true_eq] at hown
                exact Or.inl hown.2
            · exact h.others other key history hkey hmem
        by_cases hvisible : state.visible = true
        · simp only [hvisible, if_true]
          exact hfocused.congr rfl rfl
        · simp only [hvisible]
          exact hfocused

end

end Remembered

end Workspaces
