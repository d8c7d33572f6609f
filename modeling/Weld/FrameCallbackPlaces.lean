/-
**Where the callbacks of a surface are.**

A callback that was asked for is done, staged, with the timer, in the current state of its surface, or
dropped.  This module says what the operations of `Weld.FrameCallbacks` do to these five lists of
one surface; the loops of the server get a closed form here, and no later proof unfolds them.

Main definitions: `callbacksOf`, `Server.doneOf`, `stagedOf`, `independentOf`, `currentOf`,
`droppedOf`.

Main results:

* `Server.completeAll_eq`, `restoreAll_eq`, `completeFrameCallbacks_eq`,
  `takeCallbacks_surfaces`, `stageRoots_surfaces` — the loops in closed form;
* `Server.independentOf_of_home` — what waits for the timer waits at its own root.
-/

import Weld.FrameCallbacks

namespace FrameCallbacks

open Client

/-! ### The callbacks of one surface -/

/-- The callbacks of one surface in a list of groups, in order. -/
def callbacksOf (w : WlSurface) (groups : List SurfaceCallbacks) : List WlCallback :=
  groups.flatMap fun group => if group.surface = w then group.callbacks else []

@[simp] theorem callbacksOf_nil (w : WlSurface) : callbacksOf w [] = [] := rfl

@[simp] theorem callbacksOf_cons (w : WlSurface) (group : SurfaceCallbacks)
    (groups : List SurfaceCallbacks) :
    callbacksOf w (group :: groups) =
      (if group.surface = w then group.callbacks else []) ++ callbacksOf w groups := by
  rw [callbacksOf, List.flatMap_cons, callbacksOf]

@[simp] theorem callbacksOf_append (w : WlSurface) (groups more : List SurfaceCallbacks) :
    callbacksOf w (groups ++ more) = callbacksOf w groups ++ callbacksOf w more := by
  rw [callbacksOf, List.flatMap_append, callbacksOf, callbacksOf]

variable {w : WlSurface} {groups : List SurfaceCallbacks}

theorem callbacksOf_eq_nil
    (h : ∀ group ∈ groups, group.surface ≠ w) : callbacksOf w groups = [] := by
  rw [callbacksOf, List.flatMap_eq_nil_iff]
  intro group hgroup
  rw [if_neg (h group hgroup)]

variable {p : SurfaceCallbacks → Bool}

/-- A filter that all groups of a surface pass. -/
theorem callbacksOf_filter_of_pass (h : ∀ group ∈ groups, group.surface = w → p group = true) :
    callbacksOf w (groups.filter p) = callbacksOf w groups := by
  induction groups with
  | nil => rfl
  | cons group groups ih =>
      have hrest := ih fun other hother => h other (List.mem_cons_of_mem _ hother)
      by_cases hp : p group = true
      · rw [List.filter_cons_of_pos hp, callbacksOf_cons, callbacksOf_cons, hrest]
      · have hne : group.surface ≠ w := by
          intro heq
          exact hp (h group List.mem_cons_self heq)
        rw [List.filter_cons_of_neg hp, callbacksOf_cons, if_neg hne, List.nil_append, hrest]

/-- A filter that none of them passes. -/
theorem callbacksOf_filter_of_stop (h : ∀ group ∈ groups, group.surface = w → p group = false) :
    callbacksOf w (groups.filter p) = [] := by
  refine callbacksOf_eq_nil ?_
  intro group hgroup heq
  obtain ⟨hmem, hp⟩ := List.mem_filter.mp hgroup
  rw [h group hmem heq] at hp
  exact Bool.false_ne_true hp

/-- The groups that are staged, from the front of the queue. -/
def stagedGroups (staged : List (ℕ × List SurfaceCallbacks)) : List SurfaceCallbacks :=
  staged.flatMap Prod.snd

@[simp] theorem stagedGroups_cons (entry : ℕ × List SurfaceCallbacks)
    (staged : List (ℕ × List SurfaceCallbacks)) :
    stagedGroups (entry :: staged) = entry.2 ++ stagedGroups staged :=
  List.flatMap_cons

variable (staged : List (ℕ × List SurfaceCallbacks))

@[simp] theorem stagedGroups_append (more : List (ℕ × List SurfaceCallbacks)) :
    stagedGroups (staged ++ more) = stagedGroups staged ++ stagedGroups more :=
  List.flatMap_append

@[simp] theorem stagedGroups_singleton (id : ℕ) (groups : List SurfaceCallbacks) :
    stagedGroups [(id, groups)] = groups := by
  rw [stagedGroups, List.flatMap_singleton]

theorem stagedGroups_filter (p : SurfaceCallbacks → Bool) :
    stagedGroups (staged.map fun entry => (entry.1, entry.2.filter p)) =
      (stagedGroups staged).filter p := by
  rw [stagedGroups, List.flatMap_map, stagedGroups, List.filter_flatMap]

theorem flatMap_filter_staged (p : SurfaceCallbacks → Bool) :
    (staged.flatMap fun entry => entry.2.filter p) = (stagedGroups staged).filter p := by
  rw [stagedGroups, List.filter_flatMap]

namespace Server

/-! ### The five places -/

def doneOf (s : Server) (w : WlSurface) : List WlCallback :=
  s.completions.filterMap fun done => if done.surface = w then some done.callback else none

def stagedOf (s : Server) (w : WlSurface) : List WlCallback :=
  callbacksOf w (stagedGroups s.stagedFrameCallbacks)

def independentOf (s : Server) (w : WlSurface) : List WlCallback :=
  callbacksOf w (s.independentCallbacks.entries.flatMap fun entry => entry.2)

def currentOf (s : Server) (w : WlSurface) : List WlCallback := (s.surfaces w).frameCallbacks

def droppedOf (s : Server) (w : WlSurface) : List WlCallback :=
  s.losses.filterMap fun loss => if loss.surface = w then some loss.callback else none

/-- What was done of a surface and what waits, in the order in which it is completed. -/
def line (s : Server) (w : WlSurface) : List WlCallback :=
  s.doneOf w ++ s.stagedOf w ++ s.independentOf w ++ s.currentOf w

variable {s : Server} {surfaces : WlSurface → SurfaceState}

/-- If the groups of a surface are all kept for its root, they are what waits for the timer. -/
theorem independentOf_of_home (h : ∀ id groups, s.independentCallbacks.lookup id = some groups → ∀
      group ∈ groups, s.homes group.surface = some id) {id : SurfaceId}
    (hhome : s.homes w = some id) :
    s.independentOf w = callbacksOf w ((s.independentCallbacks.lookup id).getD []) := by
  rw [independentOf, callbacksOf, List.flatMap_assoc]
  have hentries := AList.flatMap_entries (d := s.independentCallbacks) (f := callbacksOf w) (k := id)
    (by
      intro other groups hlookup hne
      refine callbacksOf_eq_nil ?_
      intro group hgroup heq
      have hother := h other groups hlookup group hgroup
      rw [heq, hhome] at hother
      exact hne (Option.some.inj hother).symm)
  refine hentries.trans ?_
  cases s.independentCallbacks.lookup id with
  | none | some => rfl

/-- Nothing of a surface without a root waits for the timer. -/
theorem independentOf_of_homeless (h : ∀ id groups, s.independentCallbacks.lookup id = some groups →
      ∀ group ∈ groups, s.homes group.surface = some id) (hhome : s.homes w = none) :
    s.independentOf w = [] := by
  refine callbacksOf_eq_nil ?_
  intro group hgroup heq
  obtain ⟨entry, hentry, hmem⟩ := List.mem_flatMap.mp hgroup
  have hother := h entry.1 entry.2 (AList.mem_entries_iff.mp hentry) group hmem
  rw [heq, hhome] at hother
  cases hother

/-! ### Completing -/

/-- The groups whose surface is alive. -/
def living (s : Server) (groups : List SurfaceCallbacks) : List SurfaceCallbacks :=
  groups.filter fun group => (s.surfaces group.surface).alive

/-- The groups whose surface is dead. -/
def orphaned (s : Server) (groups : List SurfaceCallbacks) : List SurfaceCallbacks :=
  groups.filter fun group => !(s.surfaces group.surface).alive

theorem callbacksOf_living (s : Server) (w : WlSurface) (groups : List SurfaceCallbacks) :
    callbacksOf w (s.living groups) = if (s.surfaces w).alive then callbacksOf w groups else [] := by
  by_cases h : (s.surfaces w).alive = true
  · rw [if_pos h]
    refine callbacksOf_filter_of_pass ?_
    intro group _ heq
    rw [heq, h]
  · rw [if_neg h]
    refine callbacksOf_filter_of_stop ?_
    intro group _ heq
    rw [heq]
    exact Bool.eq_false_iff.mpr h

theorem callbacksOf_orphaned (s : Server) (w : WlSurface) (groups : List SurfaceCallbacks) :
    callbacksOf w (s.orphaned groups) =
      if (s.surfaces w).alive then [] else callbacksOf w groups := by
  by_cases h : (s.surfaces w).alive = true
  · rw [if_pos h]
    refine callbacksOf_filter_of_stop ?_
    intro group _ heq
    rw [heq, h]
    rfl
  · rw [if_neg h]
    refine callbacksOf_filter_of_pass ?_
    intro group _ heq
    rw [heq, Bool.eq_false_iff.mpr h]
    rfl

theorem completeAll_eq (s : Server) (consumer : Consumer) (groups : List SurfaceCallbacks) :
    s.completeAll consumer groups =
      { s with
        completions := s.completions ++ (s.living groups).flatMap (s.completionsOf consumer)
        losses := s.losses ++ (s.orphaned groups).flatMap lossesOf } := by
  induction groups generalizing s with
  | nil =>
      show s = _
      simp only [living, orphaned, List.filter_nil, List.flatMap_nil, List.append_nil]
  | cons group groups ih =>
      show (s.complete consumer group).completeAll consumer groups = _
      rw [ih]
      by_cases h : (s.surfaces group.surface).alive = true
      · rw [complete, if_pos h]
        simp only [living, orphaned, List.filter_cons, h, Bool.not_true, Bool.false_eq_true,
          if_true, if_false, List.flatMap_cons, List.append_assoc]
        rfl
      · rw [complete, if_neg h]
        simp only [living, orphaned, List.filter_cons, Bool.eq_false_iff.mpr h, Bool.not_false,
          Bool.false_eq_true, if_true, if_false, List.flatMap_cons, List.append_assoc]
        rfl

theorem completeAll_append (s : Server) (consumer : Consumer) (groups more : List SurfaceCallbacks) :
    s.completeAll consumer (groups ++ more) =
      (s.completeAll consumer groups).completeAll consumer more :=
  List.foldl_append

/-- What completing groups adds to the log, seen from one surface. -/
theorem filterMap_completionsOf (s : Server) (consumer : Consumer) (w : WlSurface)
    (groups : List SurfaceCallbacks) :
    (groups.flatMap (s.completionsOf consumer)).filterMap
        (fun done => if done.surface = w then some done.callback else none) =
      callbacksOf w groups := by
  induction groups with
  | nil => rfl
  | cons group groups ih =>
      rw [List.flatMap_cons, List.filterMap_append, ih, callbacksOf_cons]
      congr 1
      rw [completionsOf, List.filterMap_map]
      by_cases h : group.surface = w
      · simp [h]
      · simp [h]

theorem filterMap_lossesOf (w : WlSurface) (groups : List SurfaceCallbacks) :
    (groups.flatMap lossesOf).filterMap
        (fun loss => if loss.surface = w then some loss.callback else none) =
      callbacksOf w groups := by
  induction groups with
  | nil => rfl
  | cons group groups ih =>
      rw [List.flatMap_cons, List.filterMap_append, ih, callbacksOf_cons]
      congr 1
      rw [lossesOf, List.filterMap_map]
      by_cases h : group.surface = w
      · simp [h]
      · simp [h]

theorem doneOf_completeAll (s : Server) (consumer : Consumer) (groups : List SurfaceCallbacks)
    (w : WlSurface) :
    (s.completeAll consumer groups).doneOf w =
      s.doneOf w ++ if (s.surfaces w).alive then callbacksOf w groups else [] := by
  rw [completeAll_eq]
  simp only [doneOf]
  rw [List.filterMap_append, filterMap_completionsOf, callbacksOf_living]

theorem droppedOf_completeAll (s : Server) (consumer : Consumer) (groups : List SurfaceCallbacks)
    (w : WlSurface) :
    (s.completeAll consumer groups).droppedOf w =
      s.droppedOf w ++ if (s.surfaces w).alive then [] else callbacksOf w groups := by
  rw [completeAll_eq]
  simp only [droppedOf]
  rw [List.filterMap_append, filterMap_lossesOf, callbacksOf_orphaned]

/-- What is completed is the front of the queue, and the rest stays. -/
theorem completeFrameCallbacks_eq (s : Server) (presentationId : ℕ) :
    s.completeFrameCallbacks presentationId =
      { s.completeAll .nativePresentation
          (stagedGroups (s.stagedFrameCallbacks.takeWhile fun entry => entry.1 ≤ presentationId)) with
        stagedFrameCallbacks :=
          s.stagedFrameCallbacks.dropWhile fun entry => entry.1 ≤ presentationId } := by
  unfold completeFrameCallbacks
  generalize s.stagedFrameCallbacks = staged
  induction staged generalizing s with
  | nil => rfl
  | cons entry staged ih =>
      obtain ⟨id, groups⟩ := entry
      by_cases h : id ≤ presentationId
      · rw [completeStaged, if_pos h, ih, List.takeWhile_cons_of_pos (by simpa using h),
          List.dropWhile_cons_of_pos (by simpa using h), stagedGroups_cons, completeAll_append]
      · rw [completeStaged, if_neg h, List.takeWhile_cons_of_neg (by simpa using h),
          List.dropWhile_cons_of_neg (by simpa using h)]
        rfl

/-! ### Restoring -/

/-- The surfaces after groups were put in front of their current callbacks. -/
def refilled (s : Server) (groups : List SurfaceCallbacks) : WlSurface → SurfaceState := fun w =>
  if (s.surfaces w).alive then
    { s.surfaces w with frameCallbacks := callbacksOf w groups ++ (s.surfaces w).frameCallbacks }
  else
    s.surfaces w

@[simp] theorem refilled_alive (s : Server) (groups : List SurfaceCallbacks) (w : WlSurface) :
    (s.refilled groups w).alive = (s.surfaces w).alive := by
  simp only [refilled]
  split <;> rfl

theorem restoreAll_eq (s : Server) (groups : List SurfaceCallbacks) :
    groups.foldr (fun group s => s.restore group) s =
      { s with
        surfaces := s.refilled groups
        losses := s.losses ++ (s.orphaned groups).reverse.flatMap lossesOf } := by
  induction groups with
  | nil =>
      have hsame : s.refilled [] = s.surfaces := by
        funext w
        simp [refilled]
      show s = _
      rw [hsame]
      simp only [orphaned, List.filter_nil, List.reverse_nil, List.flatMap_nil, List.append_nil]
  | cons group groups ih =>
      rw [List.foldr_cons, ih]
      by_cases h : (s.surfaces group.surface).alive = true
      · rw [restore, if_pos (by rw [refilled_alive]; exact h)]
        have hsurfaces : Function.update (s.refilled groups) group.surface
            { s.refilled groups group.surface with
              frameCallbacks :=
                group.callbacks ++ (s.refilled groups group.surface).frameCallbacks } =
            s.refilled (group :: groups) := by
          funext w
          by_cases hw : w = group.surface
          · subst hw
            rw [Function.update_self]
            simp only [refilled, h, if_true, callbacksOf_cons, List.append_assoc]
          · rw [Function.update_of_ne hw]
            simp only [refilled, callbacksOf_cons, if_neg (Ne.symm hw), List.nil_append]
        simp only [hsurfaces, orphaned, List.filter_cons, h, Bool.not_true, Bool.false_eq_true,
          if_false]
      · rw [restore, if_neg (by rw [refilled_alive]; exact h)]
        have hsurfaces : s.refilled (group :: groups) = s.refilled groups := by
          funext w
          by_cases hw : w = group.surface
          · subst hw
            simp only [refilled, h, Bool.false_eq_true, if_false]
          · simp only [refilled, callbacksOf_cons, if_neg (Ne.symm hw), List.nil_append]
        rw [hsurfaces]
        simp only [orphaned, List.filter_cons, Bool.eq_false_iff.mpr h, Bool.not_false, if_true,
          List.reverse_cons, List.flatMap_append, List.flatMap_singleton, List.append_assoc]

/-- The order of the groups decides the order of the callbacks, and nothing else. -/
theorem callbacksOf_reverse (w : WlSurface) (groups : List SurfaceCallbacks) :
    (callbacksOf w groups.reverse).Perm (callbacksOf w groups) :=
  (List.reverse_perm groups).flatMap_right _

/-- The state after the groups of a root were restored. -/
def restored (s : Server) (surface : SurfaceId) (groups : List SurfaceCallbacks) : Server :=
  { s with
    independentCallbacks := s.independentCallbacks.erase surface
    surfaces := s.refilled groups
    losses := s.losses ++ (s.orphaned groups).reverse.flatMap lossesOf }

variable {surface : SurfaceId} {group : SurfaceCallbacks} {found : SurfaceId × FrameRoot}

theorem restoreIndependent_eq (h : s.independentCallbacks.lookup surface = some groups) :
    s.restoreIndependent surface = s.restored surface groups := by
  rw [restoreIndependent, h]
  exact restoreAll_eq { s with independentCallbacks := s.independentCallbacks.erase surface } groups

theorem currentOf_restored (s : Server) (surface : SurfaceId) (groups : List SurfaceCallbacks)
    (w : WlSurface) :
    (s.restored surface groups).currentOf w =
      if (s.surfaces w).alive then callbacksOf w groups ++ s.currentOf w else s.currentOf w := by
  simp only [currentOf, restored, refilled]
  split <;> rfl

theorem droppedOf_restored (s : Server) (surface : SurfaceId) (groups : List SurfaceCallbacks)
    (w : WlSurface) :
    (s.restored surface groups).droppedOf w =
      s.droppedOf w ++ callbacksOf w (s.orphaned groups).reverse := by
  simp only [droppedOf, restored]
  rw [List.filterMap_append, filterMap_lossesOf]

/-! ### Taking -/

/-- The surfaces after the current callbacks of some live ones were taken. -/
def emptied (taken : WlSurface → Bool) (surfaces : WlSurface → SurfaceState) :
    WlSurface → SurfaceState := fun w =>
  if taken w && (surfaces w).alive then { surfaces w with frameCallbacks := [] } else surfaces w

@[simp] theorem emptied_alive (taken : WlSurface → Bool) (surfaces : WlSurface → SurfaceState)
    (w : WlSurface) : (emptied taken surfaces w).alive = (surfaces w).alive := by
  simp only [emptied]
  split <;> rfl

theorem emptied_frameCallbacks (taken : WlSurface → Bool) (surfaces : WlSurface → SurfaceState)
    (w : WlSurface) :
    (emptied taken surfaces w).frameCallbacks =
      if taken w && (surfaces w).alive then [] else (surfaces w).frameCallbacks := by
  simp only [emptied]
  split <;> rfl

theorem emptied_emptied (first second : WlSurface → Bool) (surfaces : WlSurface → SurfaceState) :
    emptied second (emptied first surfaces) = emptied (fun w => first w || second w) surfaces := by
  funext w
  simp only [emptied]
  cases first w <;> cases second w <;> cases h : (surfaces w).alive <;> simp [h]

/-- Taking the callbacks of one live surface. -/
theorem update_eq_emptied {surface : WlSurface} (halive : (surfaces surface).alive = true) :
    Function.update surfaces surface { surfaces surface with frameCallbacks := [] } =
      emptied (fun w => decide (w = surface)) surfaces := by
  funext w
  by_cases h : w = surface
  · subst h
    rw [Function.update_self]
    simp [emptied, halive]
  · rw [Function.update_of_ne h]
    simp [emptied, h]

/-- A surface that is dead or has no callbacks is left as it is. -/
theorem emptied_cons_of_idle {surface : WlSurface}
    (hidle : ¬((surfaces surface).alive && !(surfaces surface).frameCallbacks.isEmpty) = true)
    (tree : List WlSurface) :
    emptied (fun w => decide (w ∈ surface :: tree)) surfaces =
      emptied (fun w => decide (w ∈ tree)) surfaces := by
  funext w
  by_cases h : w = surface
  · subst h
    cases hw : surfaces w with
    | mk alive frameCallbacks =>
        simp only [hw, Bool.and_eq_true, Bool.not_eq_true', List.isEmpty_eq_false_iff, not_and,
          not_not] at hidle
        cases alive with
        | false => simp [emptied, hw]
        | true => simp [emptied, hw, hidle rfl]
  · simp [emptied, h]

theorem takeCallbacks_surfaces (root : SurfaceId) (tree : List WlSurface)
    (surfaces : WlSurface → SurfaceState) :
    (takeCallbacks root tree surfaces).2 = emptied (fun w => decide (w ∈ tree)) surfaces := by
  induction tree generalizing surfaces with
  | nil =>
      funext w
      simp [takeCallbacks, emptied]
  | cons surface tree ih =>
      by_cases h : ((surfaces surface).alive && !(surfaces surface).frameCallbacks.isEmpty) = true
      · have halive := (Bool.and_eq_true_iff.mp h).1
        rw [takeCallbacks, if_pos h]
        show (takeCallbacks root tree _).2 = _
        rw [ih, update_eq_emptied halive, emptied_emptied]
        simp only [List.mem_cons, Bool.decide_or]
      · rw [takeCallbacks, if_neg h, ih, emptied_cons_of_idle h]

theorem callbacksOf_takeCallbacks (root : SurfaceId) (tree : List WlSurface)
    (surfaces : WlSurface → SurfaceState) (w : WlSurface) :
    callbacksOf w (takeCallbacks root tree surfaces).1 =
      if decide (w ∈ tree) && (surfaces w).alive then (surfaces w).frameCallbacks else [] := by
  induction tree generalizing surfaces with
  | nil => simp [takeCallbacks]
  | cons surface tree ih =>
      by_cases h : ((surfaces surface).alive && !(surfaces surface).frameCallbacks.isEmpty) = true
      · have halive := (Bool.and_eq_true_iff.mp h).1
        rw [takeCallbacks, if_pos h]
        show callbacksOf w (_ :: (takeCallbacks root tree _).1) = _
        rw [callbacksOf_cons, ih, update_eq_emptied halive, emptied_alive, emptied_frameCallbacks]
        by_cases hw : w = surface
        · subst hw
          simp [halive]
        · simp [hw, Ne.symm hw]
      · rw [takeCallbacks, if_neg h, ih]
        by_cases hw : w = surface
        · subst hw
          cases hs : surfaces w with
          | mk alive frameCallbacks =>
              simp only [hs, Bool.and_eq_true, Bool.not_eq_true', List.isEmpty_eq_false_iff,
                not_and, not_not] at h
              cases alive with
              | false => simp
              | true => simp [h rfl]
        · simp [hw]

theorem mem_takeCallbacks {root : SurfaceId} {tree : List WlSurface}
    (h : group ∈ (takeCallbacks root tree surfaces).1) :
    group.root = root ∧ group.surface ∈ tree := by
  induction tree generalizing surfaces with
  | nil => cases h
  | cons surface tree ih =>
      simp only [takeCallbacks] at h
      split at h
      · rcases List.mem_cons.mp h with rfl | hrest
        · exact ⟨rfl, List.mem_cons_self⟩
        · exact ⟨(ih hrest).1, List.mem_cons_of_mem _ (ih hrest).2⟩
      · exact ⟨(ih h).1, List.mem_cons_of_mem _ (ih h).2⟩

/-- Whether a surface is in the tree of a native one among some roots. -/
def stages (s : Server) (roots : List (SurfaceId × FrameRoot)) (w : WlSurface) : Bool :=
  roots.any fun found => s.presentationClaims.native found.1 && decide (w ∈ found.2.tree)

theorem stages_cons_native
    (h : s.presentationClaims.native found.1 = true) (roots : List (SurfaceId × FrameRoot)) :
    s.stages (found :: roots) = fun w => decide (w ∈ found.2.tree) || s.stages roots w := by
  funext w
  rw [stages, List.any_cons, h, Bool.true_and]
  rfl

theorem stages_cons_other (h : ¬s.presentationClaims.native found.1 = true)
    (roots : List (SurfaceId × FrameRoot)) : s.stages (found :: roots) = s.stages roots := by
  funext w
  rw [stages, List.any_cons, Bool.eq_false_iff.mpr h, Bool.false_and, Bool.false_or]
  rfl

theorem stageRoots_surfaces (s : Server) (roots : List (SurfaceId × FrameRoot))
    (surfaces : WlSurface → SurfaceState) :
    (s.stageRoots roots surfaces).2 = emptied (s.stages roots) surfaces := by
  induction roots generalizing surfaces with
  | nil =>
      funext w
      simp [stageRoots, emptied, stages]
  | cons found roots ih =>
      by_cases h : s.presentationClaims.native found.1 = true
      · rw [stageRoots, if_pos h]
        show (s.stageRoots roots _).2 = _
        rw [ih, takeCallbacks_surfaces, emptied_emptied, stages_cons_native h]
      · rw [stageRoots, if_neg h, ih, stages_cons_other h]

theorem callbacksOf_stageRoots (s : Server) (roots : List (SurfaceId × FrameRoot))
    (surfaces : WlSurface → SurfaceState) (w : WlSurface) :
    callbacksOf w (s.stageRoots roots surfaces).1 =
      if s.stages roots w && (surfaces w).alive then (surfaces w).frameCallbacks else [] := by
  induction roots generalizing surfaces with
  | nil => simp [stageRoots, stages]
  | cons found roots ih =>
      by_cases h : s.presentationClaims.native found.1 = true
      · rw [stageRoots, if_pos h]
        show callbacksOf w ((takeCallbacks found.1 found.2.tree surfaces).1 ++ _) = _
        rw [callbacksOf_append, ih, callbacksOf_takeCallbacks, takeCallbacks_surfaces,
          emptied_alive, emptied_frameCallbacks, stages_cons_native h]
        by_cases htree : w ∈ found.2.tree
        · by_cases halive : (surfaces w).alive = true
          · simp [htree, halive]
          · simp [halive]
        · simp [htree]
      · rw [stageRoots, if_neg h, ih, stages_cons_other h]

theorem mem_stageRoots {roots : List (SurfaceId × FrameRoot)}
    (h : group ∈ (s.stageRoots roots surfaces).1) :
    ∃ found ∈ roots, s.presentationClaims.native found.1 = true ∧ group.root = found.1 ∧
      group.surface ∈ found.2.tree := by
  induction roots generalizing surfaces with
  | nil => cases h
  | cons found roots ih =>
      by_cases hnative : s.presentationClaims.native found.1 = true
      · rw [stageRoots, if_pos hnative] at h
        rcases List.mem_append.mp h with htaken | hrest
        · obtain ⟨hroot, htree⟩ := mem_takeCallbacks htaken
          exact ⟨found, List.mem_cons_self, hnative, hroot, htree⟩
        · obtain ⟨other, hmem, hother⟩ := ih hrest
          exact ⟨other, List.mem_cons_of_mem _ hmem, hother⟩
      · rw [stageRoots, if_neg hnative] at h
        obtain ⟨other, hmem, hother⟩ := ih h
        exact ⟨other, List.mem_cons_of_mem _ hmem, hother⟩

/-! ### Handing over to the timer -/

theorem lookup_pushIndependent (independent : Dict SurfaceId (List SurfaceCallbacks))
    (surface : SurfaceId) (groups : List SurfaceCallbacks) (id : SurfaceId) :
    (pushIndependent independent surface groups).lookup id =
      if id = surface ∧ groups ≠ [] then
        some ((independent.lookup surface).getD [] ++ groups)
      else
        independent.lookup id := by
  induction groups generalizing independent with
  | nil => simp [pushIndependent]
  | cons group groups ih =>
      show (pushIndependent (independent.insert surface _) surface groups).lookup id = _
      rw [ih]
      by_cases hid : id = surface
      · subst hid
        cases groups <;> simp
      · simp [hid]

/-- What is staged for a root. -/
def stagedFor (s : Server) (surface : SurfaceId) : List SurfaceCallbacks :=
  (stagedGroups s.stagedFrameCallbacks).filter fun group => group.root = surface

theorem stagedGroups_extractStaged (s : Server) (surface : SurfaceId) :
    stagedGroups (s.extractStaged surface).stagedFrameCallbacks =
      (stagedGroups s.stagedFrameCallbacks).filter fun group => group.root ≠ surface :=
  stagedGroups_filter _ _

theorem lookup_extractStaged (h : s.independentCallbacks.lookup surface = none) (id : SurfaceId) :
    (s.extractStaged surface).independentCallbacks.lookup id =
      if id = surface ∧ s.stagedFor surface ≠ [] then some (s.stagedFor surface)
      else s.independentCallbacks.lookup id := by
  refine (lookup_pushIndependent ..).trans ?_
  rw [flatMap_filter_staged, h, Option.getD_none, List.nil_append]
  rfl

end Server

end FrameCallbacks
