/-
**Every frame callback is completed once, by the owner of its root.**

The callbacks of a surface pass through its current state, the staged queue or the list of the timer,
and are done.  They are done in the order of the commits, each of them once, and dropped only with
their surface or with their root.  Native presentation completes callbacks of native roots and the
timer those of the others.

The timer of a mapped root with callbacks is never set further ahead than one interval of any of the
active claims on it.

Main definitions: `CompletedByOwner`.

Main results:

* `Sound.step` — every step preserves the invariant;
* `callbacks_are_completed_by_their_owner` — the statement for every run.
-/

import Weld.FrameCallbackAccount
import Weld.Transition

namespace FrameCallbacks

open Client PresentationClaims

variable {now : Instant} {claims : PresentationClaims}

namespace Server

variable {s : Server}

/-! ### Roots -/

variable {o : IterationOrder SurfaceId} {found : SurfaceId × FrameRoot}

theorem mem_mappedFrameRoots
    (h : found ∈ s.mappedFrameRoots o) : s.roots.lookup found.1 = some found.2 := by
  obtain ⟨id, -, hfound⟩ := List.mem_filterMap.mp h
  obtain ⟨root, hlookup, hpresented⟩ := Option.bind_eq_some_iff.mp hfound
  split at hpresented
  · cases hpresented
    exact hlookup
  · cases hpresented

theorem mem_independentFrameRoots :
    found ∈ s.independentFrameRoots o ↔ found.1 ∈ s.presentationClaims.roots.keys ∧
      s.roots.lookup found.1 = some found.2 ∧ found.2.kind ≠ .layer ∧ s.presented found.2 = true := by
  obtain ⟨id, root⟩ := found
  simp only [independentFrameRoots, List.mem_filterMap, IterationOrder.mem_arrange,
    Option.bind_eq_some_iff]
  constructor
  · rintro ⟨other, hkey, found, hlookup, hpresented⟩
    split at hpresented
    · rename_i hboth
      cases hpresented
      obtain ⟨hkind, hpresented⟩ := Bool.and_eq_true_iff.mp hboth
      exact ⟨hkey, hlookup, of_decide_eq_true hkind, hpresented⟩
    · cases hpresented
  · rintro ⟨hkey, hlookup, hkind, hpresented⟩
    refine ⟨id, hkey, root, hlookup, ?_⟩
    rw [if_pos]
    exact Bool.and_eq_true_iff.mpr ⟨decide_eq_true hkind, hpresented⟩

/-- A root whose timer runs is not native. -/
theorem native_of_timeout {surface : SurfaceId} {fallback : PresentationRate} {delay : Duration}
    (h : claims.timeout surface fallback now = some delay) : claims.native surface = false := by
  rw [timeout] at h
  by_cases hnative : claims.native surface = true
  · rw [if_pos hnative] at h
    cases h
  · exact Bool.eq_false_iff.mpr hnative

theorem mem_due (h : found ∈ s.due o now) :
    s.roots.lookup found.1 = some found.2 ∧ s.presentationClaims.native found.1 = false := by
  obtain ⟨hmem, hdue⟩ := List.mem_filter.mp h
  obtain ⟨-, htimeout⟩ := Bool.and_eq_true_iff.mp hdue
  exact ⟨(mem_independentFrameRoots.mp hmem).2.1, native_of_timeout (of_decide_eq_true htimeout)⟩

/-- The state once what is due of a root was taken out. -/
def opened (s : Server) (found : SurfaceId × FrameRoot) : Server :=
  { s with
    independentCallbacks := s.independentCallbacks.erase found.1
    surfaces := (takeCallbacks found.1 found.2.tree s.surfaces).2 }

/-- What is due of a root, oldest first. -/
def dueGroups (s : Server) (found : SurfaceId × FrameRoot) : List SurfaceCallbacks :=
  (s.independentCallbacks.lookup found.1).getD [] ++
    (takeCallbacks found.1 found.2.tree s.surfaces).1

theorem serviceRoot_eq (s : Server) (now : Instant) (found : SurfaceId × FrameRoot) :
    s.serviceRoot now found =
      { (s.opened found).completeAll .independentTimer (s.dueGroups found) with
        presentationClaims := ((s.opened found).completeAll .independentTimer
          (s.dueGroups found)).presentationClaims.completed found.1 now } := rfl

/-- What waits for a root, staged or with the timer. -/
def forgottenGroups (s : Server) (id : SurfaceId) : List SurfaceCallbacks :=
  (s.independentCallbacks.lookup id).getD [] ++ s.stagedFor id

/-- The state once a root was destroyed. -/
def retired (s : Server) (id : SurfaceId) : Server :=
  { s with
    roots := s.roots.erase id
    homes := fun surface => if s.homes surface = some id then none else s.homes surface
    forgotten := insert id s.forgotten }.forgetPresentation id

end Server

open Server

namespace Sound

variable {s : Server}

/-! ### Native presentation -/

variable (h : Sound s)
include h

theorem home_of_stages {o : IterationOrder SurfaceId} {w : WlSurface}
    (hstages : s.stages (s.mappedFrameRoots o) w = true) :
    ∃ id, s.homes w = some id ∧ s.presentationClaims.native id = true := by
  obtain ⟨found, hmem, hboth⟩ := List.any_eq_true.mp hstages
  obtain ⟨hnative, htree⟩ := Bool.and_eq_true_iff.mp hboth
  exact ⟨found.1, h.placed.trees _ _ (mem_mappedFrameRoots hmem) w (of_decide_eq_true htree),
    hnative⟩

theorem stageFrameCallbacks (o : IterationOrder SurfaceId) : Sound (s.stageFrameCallbacks o).2 := by
  have hstaged : stagedGroups (s.stageFrameCallbacks o).2.stagedFrameCallbacks =
      stagedGroups s.stagedFrameCallbacks ++ (s.stageRoots (s.mappedFrameRoots o) s.surfaces).1 := by
    simp only [Server.stageFrameCallbacks, stagedGroups_append, stagedGroups_singleton]
  have hsurfaces : (s.stageFrameCallbacks o).2.surfaces =
      emptied (s.stages (s.mappedFrameRoots o)) s.surfaces :=
    stageRoots_surfaces s _ s.surfaces
  have hline : ∀ w, (s.stageFrameCallbacks o).2.line w = s.line w := by
    intro w
    have hcurrent : (s.stageFrameCallbacks o).2.currentOf w =
        if s.stages (s.mappedFrameRoots o) w && (s.surfaces w).alive then [] else s.currentOf w := by
      rw [Server.currentOf, hsurfaces, emptied_frameCallbacks]
      rfl
    have htaken := callbacksOf_stageRoots s (s.mappedFrameRoots o) s.surfaces w
    rw [line, line, hcurrent, stagedOf, hstaged, callbacksOf_append, htaken]
    show s.doneOf w ++ (s.stagedOf w ++ _) ++ s.independentOf w ++ _ = _
    by_cases htakes : (s.stages (s.mappedFrameRoots o) w && (s.surfaces w).alive) = true
    · obtain ⟨id, hhome, hnative⟩ := h.home_of_stages (Bool.and_eq_true_iff.mp htakes).1
      rw [if_pos htakes, if_pos htakes, h.placed.independentOf_of_native hhome hnative]
      simp only [List.append_nil, List.append_assoc]
      rfl
    · rw [if_neg htakes, if_neg htakes, List.append_nil]
  refine ⟨⟨h.placed.trees, ?_, h.placed.independent⟩,
    h.accounted.keep (Keeps.of_eq rfl hline fun _ => rfl),
    ⟨?_, h.justified.completions, h.justified.timely, h.justified.claimable⟩⟩
  · intro group hgroup
    rw [hstaged] at hgroup
    rcases List.mem_append.mp hgroup with hold | hnew
    · exact h.placed.staged group hold
    · obtain ⟨found, hmem, hnative, hroot, htree⟩ := mem_stageRoots hnew
      rw [hroot]
      exact ⟨h.placed.trees _ _ (mem_mappedFrameRoots hmem) _ htree, hnative⟩
  · intro loss hloss
    rw [hsurfaces, emptied_alive]
    exact h.justified.losses loss hloss

/-- The front of the queue is completed: what its surfaces have staged in the rest comes later. -/
theorem completeFrameCallbacks (presentationId : ℕ) :
    Sound (s.completeFrameCallbacks presentationId) := by
  rw [completeFrameCallbacks_eq]
  generalize hfront : stagedGroups
    (s.stagedFrameCallbacks.takeWhile fun entry => entry.1 ≤ presentationId) = front
  generalize hrest : s.stagedFrameCallbacks.dropWhile (fun entry => entry.1 ≤ presentationId) = rest
  have hsplit : stagedGroups s.stagedFrameCallbacks = front ++ stagedGroups rest := by
    rw [← hfront, ← hrest, ← stagedGroups_append, List.takeWhile_append_dropWhile]
  have howner : ∀ group ∈ front, (s.presentationClaims.native group.root = true ↔
      Consumer.nativePresentation = .nativePresentation) := by
    intro group hgroup
    refine ⟨fun _ => rfl, fun _ => (h.placed.staged group ?_).2⟩
    rw [hsplit]
    exact List.mem_append_left _ hgroup
  have hjustified := h.justified.completeAll .nativePresentation front howner
  have hdone := doneOf_completeAll s .nativePresentation front
  have hdropped := droppedOf_completeAll s .nativePresentation front
  rw [completeAll_eq] at hjustified hdone hdropped ⊢
  refine ⟨⟨h.placed.trees, ?_, h.placed.independent⟩, h.accounted.keep ?_,
    ⟨hjustified.losses, hjustified.completions, h.justified.timely, h.justified.claimable⟩⟩
  · intro group hgroup
    refine h.placed.staged group ?_
    rw [hsplit]
    exact List.mem_append_right _ hgroup
  · refine Keeps.of_front rfl (fun w => !(s.surfaces w).alive) (fun w => callbacksOf w front) ?_ ?_ ?_
    · intro w
      rw [stagedOf, hsplit, callbacksOf_append]
      simp only [List.append_assoc]
      rfl
    · intro w
      refine (hdone w).trans ?_
      cases (s.surfaces w).alive <;> rfl
    · intro w
      refine (List.Perm.of_eq (hdropped w)).trans ?_
      cases (s.surfaces w).alive <;> exact List.Perm.refl _

/-! ### The timer -/

variable {found : SurfaceId × FrameRoot}

/-- What a root has with the timer and in its tree, seen from one surface. -/
theorem serviced_split (hroot : s.roots.lookup found.1 = some found.2)
    (hnative : s.presentationClaims.native found.1 = false) (w : WlSurface) :
    (s.homes w = some found.1 ∧ s.stagedOf w = [] ∧
        s.independentOf w = callbacksOf w ((s.independentCallbacks.lookup found.1).getD [])) ∨
      (s.homes w ≠ some found.1 ∧ w ∉ found.2.tree ∧
        callbacksOf w ((s.independentCallbacks.lookup found.1).getD []) = []) := by
  by_cases hhome : s.homes w = some found.1
  · exact .inl ⟨hhome, h.placed.stagedOf_of_other hhome hnative, h.placed.independentOf_eq hhome⟩
  · refine .inr ⟨hhome, ?_, ?_⟩
    · intro htree
      exact hhome (h.placed.trees _ _ hroot w htree)
    · refine callbacksOf_eq_nil ?_
      intro group hgroup heq
      cases hlookup : s.independentCallbacks.lookup found.1 with
      | none =>
          rw [hlookup] at hgroup
          cases hgroup
      | some groups =>
          rw [hlookup] at hgroup
          have hown := h.placed.homes_of_independent _ _ hlookup group hgroup
          rw [heq] at hown
          exact hhome hown

omit h in
/-- What is taken from the tree and what stays there are the current callbacks. -/
theorem taken_append_current (root : SurfaceId) (tree : List WlSurface)
    (surfaces : WlSurface → SurfaceState) (w : WlSurface) :
    callbacksOf w (takeCallbacks root tree surfaces).1 ++
        ((takeCallbacks root tree surfaces).2 w).frameCallbacks =
      (surfaces w).frameCallbacks := by
  rw [callbacksOf_takeCallbacks, takeCallbacks_surfaces, emptied_frameCallbacks]
  split
  · rw [List.append_nil]
  · rw [List.nil_append]

theorem root_of_dueGroups {group : SurfaceCallbacks} (hgroup : group ∈ s.dueGroups found) :
    group.root = found.1 := by
  rcases List.mem_append.mp hgroup with hwaiting | hnew
  · cases hlookup : s.independentCallbacks.lookup found.1 with
    | none =>
        rw [hlookup] at hwaiting
        cases hwaiting
    | some groups =>
        rw [hlookup] at hwaiting
        exact ((h.placed.independent _ _ hlookup).2 group hwaiting).1
  · exact (mem_takeCallbacks hnew).1

theorem placed_opened (found : SurfaceId × FrameRoot) : Placed (s.opened found) := by
  refine ⟨h.placed.trees, h.placed.staged, ?_⟩
  intro id groups hlookup
  simp only [opened, AList.lookup_erase_eq] at hlookup
  by_cases hid : id = found.1
  · rw [if_pos hid] at hlookup
    cases hlookup
  · rw [if_neg hid] at hlookup
    exact h.placed.independent id groups hlookup

omit h in
theorem opened_alive (s : Server) (found : SurfaceId × FrameRoot) (w : WlSurface) :
    ((s.opened found).surfaces w).alive = (s.surfaces w).alive := by
  simp only [opened]
  rw [takeCallbacks_surfaces, emptied_alive]

/-- What is due of a surface is the front of its line. -/
theorem front_of_opened (hroot : s.roots.lookup found.1 = some found.2)
    (hnative : s.presentationClaims.native found.1 = false) (w : WlSurface) :
    s.stagedOf w ++ s.independentOf w ++ s.currentOf w =
      callbacksOf w (s.dueGroups found) ++ ((s.opened found).stagedOf w ++
        (s.opened found).independentOf w ++ (s.opened found).currentOf w) := by
  have hplaced := h.placed_opened found
  have htaken : callbacksOf w (takeCallbacks found.1 found.2.tree s.surfaces).1 ++
      (s.opened found).currentOf w = s.currentOf w :=
    taken_append_current found.1 found.2.tree s.surfaces w
  have hstaged : (s.opened found).stagedOf w = s.stagedOf w := rfl
  rw [hstaged, dueGroups, callbacksOf_append]
  rcases h.serviced_split hroot hnative w with ⟨hhome, hempty, hwaiting⟩ | ⟨hhome, htree, hempty⟩
  · have hnothing : (s.opened found).independentOf w = [] := by
      rw [hplaced.independentOf_eq hhome]
      simp [opened]
    rw [hempty, hwaiting, hnothing, List.nil_append, List.nil_append, List.nil_append,
      List.append_assoc, htaken]
  · have hsame : (s.opened found).independentOf w = s.independentOf w := by
      refine h.placed.independentOf_congr hplaced rfl ?_
      intro id hid
      have hne : id ≠ found.1 := by
        rintro rfl
        exact hhome hid
      simp [opened, hne]
    have hnone : callbacksOf w (takeCallbacks found.1 found.2.tree s.surfaces).1 = [] := by
      rw [callbacksOf_takeCallbacks, if_neg (by simp [htree])]
    rw [hnone, List.nil_append] at htaken
    rw [hempty, hnone, hsame, htaken, List.nil_append, List.nil_append]

theorem serviceRoot (hroot : s.roots.lookup found.1 = some found.2)
    (hnative : s.presentationClaims.native found.1 = false) :
    Sound (s.serviceRoot s.clock found) := by
  have hopened : Justified (s.opened found) := by
    refine ⟨?_, h.justified.completions, h.justified.timely, h.justified.claimable⟩
    intro loss hloss
    rw [opened_alive]
    exact h.justified.losses loss hloss
  have hjustified := hopened.completeAll .independentTimer (s.dueGroups found) (by
      intro group hgroup
      rw [h.root_of_dueGroups hgroup]
      show s.presentationClaims.native found.1 = true ↔ _
      rw [hnative]
      exact ⟨fun hfalse => Bool.noConfusion hfalse, fun hfalse => Consumer.noConfusion hfalse⟩)
  have hdone := doneOf_completeAll (s.opened found) .independentTimer (s.dueGroups found)
  have hdropped := droppedOf_completeAll (s.opened found) .independentTimer (s.dueGroups found)
  have hplaced := h.placed_opened found
  rw [serviceRoot_eq]
  rw [completeAll_eq] at hjustified hdone hdropped ⊢
  refine ⟨⟨hplaced.trees, ?_, ?_⟩, h.accounted.keep ?_,
    ⟨hjustified.losses, hjustified.completions, h.justified.timely.completed found.1, ?_⟩⟩
  · intro group hgroup
    rw [native_completed]
    exact hplaced.staged group hgroup
  · intro id groups hlookup
    rw [native_completed]
    exact hplaced.independent id groups hlookup
  · refine Keeps.of_front rfl (fun w => !(s.surfaces w).alive)
      (fun w => callbacksOf w (s.dueGroups found)) (h.front_of_opened hroot hnative) ?_ ?_
    · intro w
      refine (hdone w).trans ?_
      rw [opened_alive]
      cases (s.surfaces w).alive <;> rfl
    · intro w
      refine (List.Perm.of_eq (hdropped w)).trans ?_
      rw [opened_alive]
      cases (s.surfaces w).alive <;> exact List.Perm.refl _
  · intro id demand hlookup
    simp only [completed, AList.lookup_modify] at hlookup
    by_cases hid : id = found.1
    · rw [if_pos hid] at hlookup
      obtain ⟨old, hold, -⟩ := Option.map_eq_some_iff.mp hlookup
      exact h.justified.claimable id old hold
    · rw [if_neg hid] at hlookup
      exact h.justified.claimable id demand hlookup

omit h in
/-- Servicing one root leaves the others to whom they belong. -/
theorem serviceRoot_frame (s : Server) (now : Instant) (found : SurfaceId × FrameRoot) :
    (s.serviceRoot now found).roots = s.roots ∧ (s.serviceRoot now found).clock = s.clock ∧
      ∀ id, (s.serviceRoot now found).presentationClaims.native id =
        s.presentationClaims.native id := by
  rw [serviceRoot_eq, completeAll_eq]
  exact ⟨rfl, rfl, fun id => native_completed _ _ _ id⟩

theorem serviceAll {due : List (SurfaceId × FrameRoot)} (hdue : ∀ found ∈ due, s.roots.lookup
      found.1 = some found.2 ∧ s.presentationClaims.native found.1 = false) :
    Sound (due.foldl (fun t found => t.serviceRoot s.clock found) s) := by
  generalize hnow : s.clock = now
  induction due generalizing s with
  | nil => exact h
  | cons found due ih =>
      obtain ⟨hroot, hnative⟩ := hdue found List.mem_cons_self
      obtain ⟨hroots, hclock, hnatives⟩ := serviceRoot_frame s now found
      have hserved := h.serviceRoot hroot hnative
      rw [hnow] at hserved
      refine ih hserved ?_ (hclock.trans hnow)
      intro other hother
      rw [hroots, hnatives]
      exact hdue other (List.mem_cons_of_mem _ hother)

theorem serviceIndependentCallbacks (o : IterationOrder SurfaceId) :
    Sound (s.serviceIndependentCallbacks o s.clock) :=
  h.serviceAll fun _ hfound => mem_due hfound

/-! ### Destruction -/

theorem placed_retired (id : SurfaceId) : Placed (s.retired id) := by
  have hhomes : ∀ w other, other ≠ id → s.homes w = some other →
      (s.retired id).homes w = some other := by
    intro w other hne hhome
    show (if s.homes w = some id then none else s.homes w) = some other
    rw [if_neg, hhome]
    rw [hhome]
    exact fun heq => hne (Option.some.inj heq)
  refine ⟨?_, ?_, ?_⟩
  · intro other root hlookup w hw
    simp only [retired, forgetPresentation, AList.lookup_erase_eq] at hlookup
    by_cases hid : other = id
    · rw [if_pos hid] at hlookup
      cases hlookup
    · rw [if_neg hid] at hlookup
      exact hhomes w other hid (h.placed.trees other root hlookup w hw)
  · intro group hgroup
    rw [show stagedGroups (s.retired id).stagedFrameCallbacks =
      (stagedGroups s.stagedFrameCallbacks).filter fun group => group.root ≠ id from
        stagedGroups_filter _ _] at hgroup
    obtain ⟨hmem, hne⟩ := List.mem_filter.mp hgroup
    have hroot : group.root ≠ id := by simpa using hne
    obtain ⟨hhome, hnative⟩ := h.placed.staged group hmem
    exact ⟨hhomes _ _ hroot hhome, (native_forget_ne hroot).trans hnative⟩
  · intro other groups hlookup
    simp only [retired, forgetPresentation, AList.lookup_erase_eq] at hlookup
    by_cases hid : other = id
    · rw [if_pos hid] at hlookup
      cases hlookup
    · rw [if_neg hid] at hlookup
      obtain ⟨hnative, hgroups⟩ := h.placed.independent other groups hlookup
      refine ⟨(native_forget_ne hid).trans hnative, ?_⟩
      intro group hgroup
      exact ⟨(hgroups group hgroup).1, hhomes _ _ hid (hgroups group hgroup).2⟩

/-- What waits of a surface at a root that is destroyed is at the front of its line. -/
theorem front_of_retired (id : SurfaceId) (w : WlSurface) :
    s.stagedOf w ++ s.independentOf w ++ s.currentOf w =
      callbacksOf w (s.forgottenGroups id) ++ ((s.retired id).stagedOf w ++
        (s.retired id).independentOf w ++ (s.retired id).currentOf w) := by
  have hplaced := h.placed_retired id
  have hstaged : (s.retired id).stagedOf w =
      callbacksOf w ((stagedGroups s.stagedFrameCallbacks).filter fun group => group.root ≠ id) := by
    rw [stagedOf]
    exact congrArg _ (stagedGroups_filter _ _)
  have hcurrent : (s.retired id).currentOf w = s.currentOf w := rfl
  have hroot : ∀ group ∈ stagedGroups s.stagedFrameCallbacks, group.surface = w →
      s.homes w = some group.root := by
    intro group hgroup heq
    rw [← heq]
    exact (h.placed.staged group hgroup).1
  rw [hstaged, hcurrent, forgottenGroups, callbacksOf_append, stagedFor]
  by_cases hhome : s.homes w = some id
  · have hown : ∀ group ∈ stagedGroups s.stagedFrameCallbacks, group.surface = w →
        group.root = id := by
      intro group hgroup heq
      have hgroupHome := hroot group hgroup heq
      rw [hhome] at hgroupHome
      exact (Option.some.inj hgroupHome).symm
    have hnothing : (s.retired id).independentOf w = [] := by
      refine hplaced.independentOf_homeless ?_
      show (if s.homes w = some id then none else s.homes w) = none
      rw [if_pos hhome]
    rw [callbacksOf_filter_of_pass fun group hgroup heq => decide_eq_true (hown group hgroup heq),
      callbacksOf_filter_of_stop fun group hgroup heq => by simp [hown group hgroup heq],
      ← h.placed.independentOf_eq hhome, hnothing]
    show s.stagedOf w ++ _ ++ _ = s.independentOf w ++ s.stagedOf w ++ _
    -- a root waits for one of the two consumers only
    cases hnative : s.presentationClaims.native id with
    | true => rw [h.placed.independentOf_of_native hhome hnative]; simp
    | false => rw [h.placed.stagedOf_of_other hhome hnative]; simp
  · have hother : ∀ group ∈ stagedGroups s.stagedFrameCallbacks, group.surface = w →
        group.root ≠ id := by
      intro group hgroup heq hid
      rw [← hid] at hhome
      exact hhome (hroot group hgroup heq)
    have hsame : (s.retired id).independentOf w = s.independentOf w := by
      refine h.placed.independentOf_congr hplaced ?_ ?_
      · show (if s.homes w = some id then none else s.homes w) = s.homes w
        rw [if_neg hhome]
      · intro other hotherHome
        have hne : other ≠ id := by
          rintro rfl
          exact hhome hotherHome
        simp [retired, forgetPresentation, hne]
    have hempty : callbacksOf w ((s.independentCallbacks.lookup id).getD []) = [] := by
      refine callbacksOf_eq_nil ?_
      intro group hgroup heq
      cases hlookup : s.independentCallbacks.lookup id with
      | none =>
          rw [hlookup] at hgroup
          cases hgroup
      | some groups =>
          rw [hlookup] at hgroup
          have hown := h.placed.homes_of_independent _ _ hlookup group hgroup
          rw [heq] at hown
          exact hhome hown
    rw [callbacksOf_filter_of_stop fun group hgroup heq =>
        decide_eq_false (hother group hgroup heq),
      callbacksOf_filter_of_pass fun group hgroup heq => decide_eq_true (hother group hgroup heq),
      hsame, hempty]
    rfl

omit h in
theorem losses_retired (s : Server) (id : SurfaceId) :
    (s.retired id).losses = s.losses ++ (s.forgottenGroups id).flatMap lossesOf := by
  simp only [retired, forgetPresentation, forgottenGroups]
  rw [flatMap_filter_staged]
  rfl

theorem retire (id : SurfaceId) : Sound (s.retire id) := by
  simp only [Server.retire]
  split
  · show Sound (s.retired id)
    refine ⟨h.placed_retired id, h.accounted.keep ?_, ⟨?_, h.justified.completions, ?_, ?_⟩⟩
    · refine Keeps.of_front rfl (fun _ => true) (fun w => callbacksOf w (s.forgottenGroups id))
        (h.front_of_retired id) ?_ ?_
      · intro w
        exact (List.append_nil _).symm
      · intro w
        rw [if_pos rfl, Server.droppedOf, losses_retired, List.filterMap_append, filterMap_lossesOf]
        exact List.Perm.refl _
    · intro loss hloss
      rw [losses_retired] at hloss
      rcases List.mem_append.mp hloss with hold | hnew
      · rcases h.justified.losses loss hold with hdead | ⟨other, hforgotten, hroot⟩
        · exact .inl hdead
        · exact .inr ⟨other, Finset.mem_insert_of_mem hforgotten, hroot⟩
      · obtain ⟨group, hgroup, hroot, -⟩ := mem_lossesOf hnew
        refine .inr ⟨id, Finset.mem_insert_self .., ?_⟩
        rw [hroot]
        rcases List.mem_append.mp hgroup with hwaiting | hstaged
        · cases hlookup : s.independentCallbacks.lookup id with
          | none =>
              rw [hlookup] at hwaiting
              cases hwaiting
          | some groups =>
              rw [hlookup] at hwaiting
              rw [((h.placed.independent _ _ hlookup).2 group hwaiting).1]
        · rw [of_decide_eq_true (List.mem_filter.mp hstaged).2]
    · exact h.justified.timely.erase id _ _
    · intro other demand hlookup
      simp only [retired, forgetPresentation, forget, AList.lookup_erase_eq] at hlookup ⊢
      by_cases hid : other = id
      · rw [if_pos hid] at hlookup
        cases hlookup
      · rw [if_neg hid] at hlookup ⊢
        exact h.justified.claimable other demand hlookup
  · exact h

theorem kill (surface : WlSurface) : Sound (s.kill surface) := by
  have hcurrent : ∀ w, (s.kill surface).currentOf w = if w = surface then [] else s.currentOf w := by
    intro w
    simp only [Server.currentOf, Server.kill, Function.update_apply]
    split <;> rfl
  have hdropped : ∀ w, (s.kill surface).droppedOf w =
      s.droppedOf w ++ if w = surface then s.currentOf surface else [] := by
    intro w
    simp only [Server.droppedOf, Server.kill]
    rw [List.filterMap_append, List.filterMap_map]
    by_cases hw : w = surface
    · subst hw
      simp [Server.currentOf]
    · simp [hw, Ne.symm hw]
  refine ⟨⟨h.placed.trees, h.placed.staged, h.placed.independent⟩, h.accounted.keep ⟨rfl, ?_, ?_⟩,
    ⟨?_, h.justified.completions, h.justified.timely, h.justified.claimable⟩⟩
  · intro w
    rw [line, line, hcurrent]
    refine List.Sublist.append_left ?_ _
    split
    · exact List.nil_sublist _
    · exact List.Sublist.refl _
  · intro w
    rw [line, line, hcurrent, hdropped]
    by_cases hw : w = surface
    · subst hw
      rw [if_pos rfl, if_pos rfl]
      refine List.perm_iff_count.mpr fun callback => ?_
      show List.count callback (s.doneOf w ++ s.stagedOf w ++ s.independentOf w ++ [] ++ _) = _
      simp only [List.count_append, List.count_nil]
      omega
    · rw [if_neg hw, if_neg hw, List.append_nil]
      exact List.Perm.refl _
  · intro loss hloss
    simp only [Server.kill, Function.update_apply]
    by_cases hsurface : loss.surface = surface
    · rw [if_pos hsurface]
      exact .inl rfl
    · rw [if_neg hsurface]
      rcases List.mem_append.mp hloss with hold | hnew
      · exact h.justified.losses loss hold
      · obtain ⟨callback, -, rfl⟩ := List.mem_map.mp hnew
        exact absurd rfl hsurface

/-! ### Commits -/

/-- New callbacks have the next numbers and come last. -/
theorem commit (surface : WlSurface) (callbacks : ℕ) : Sound (s.commit surface callbacks) := by
  by_cases halive : (s.surfaces surface).alive = true
  · rw [Server.commit, if_pos halive]
    generalize ht : ({ s with
      surfaces := Function.update s.surfaces surface
        { s.surfaces surface with
          frameCallbacks := (s.surfaces surface).frameCallbacks ++
            List.range' (s.committed surface) callbacks }
      committed := Function.update s.committed surface (s.committed surface + callbacks) } :
        Server) = t
    have hline : ∀ w, t.line w = s.line w ++
        if w = surface then List.range' (s.committed w) callbacks else [] := by
      intro w
      subst ht
      have hcurrent : (Function.update s.surfaces surface
          { s.surfaces surface with
            frameCallbacks := (s.surfaces surface).frameCallbacks ++
              List.range' (s.committed surface) callbacks } w).frameCallbacks =
          s.currentOf w ++ if w = surface then List.range' (s.committed w) callbacks else [] := by
        by_cases hw : w = surface
        · subst hw
          rw [Function.update_self, if_pos rfl]
          rfl
        · rw [Function.update_of_ne hw, if_neg hw, List.append_nil]
          rfl
      rw [line, Server.currentOf, hcurrent, line, List.append_assoc _ (s.currentOf w)]
      rfl
    have hcommitted : ∀ w, t.committed w =
        s.committed w + if w = surface then callbacks else 0 := by
      intro w
      subst ht
      by_cases hw : w = surface
      · subst hw
        simp
      · simp [hw]
    have hdropped : ∀ w, t.droppedOf w = s.droppedOf w := by
      intro w
      subst ht
      rfl
    refine ⟨?_, ⟨?_, ?_⟩, ?_⟩
    · subst ht
      exact ⟨h.placed.trees, h.placed.staged, h.placed.independent⟩
    · intro w
      rw [hline]
      by_cases hw : w = surface
      · rw [if_pos hw]
        refine List.pairwise_append.mpr ⟨h.accounted.ordered w, List.pairwise_lt_range', ?_⟩
        intro old hold new hnew
        have hbelow := (h.accounted.account w).mem_iff.mp (List.mem_append_left _ hold)
        have habove := List.mem_range'_1.mp hnew
        rw [List.mem_range] at hbelow
        exact lt_of_lt_of_le hbelow habove.1
      · rw [if_neg hw, List.append_nil]
        exact h.accounted.ordered w
    · intro w
      have haccount := List.perm_iff_count.mp (h.accounted.account w)
      rw [hline, hdropped, hcommitted]
      refine List.perm_iff_count.mpr fun callback => ?_
      have hcount := haccount callback
      by_cases hw : w = surface
      · rw [if_pos hw, if_pos hw, List.range_eq_range', ← List.range'_append_1, Nat.zero_add,
          ← List.range_eq_range']
        simp only [List.count_append] at hcount ⊢
        omega
      · rw [if_neg hw, if_neg hw, List.append_nil, Nat.add_zero]
        exact hcount
    · subst ht
      refine ⟨?_, h.justified.completions, h.justified.timely, h.justified.claimable⟩
      intro loss hloss
      refine (h.justified.losses loss hloss).imp_left ?_
      intro hdead
      by_cases hsurface : loss.surface = surface
      · rw [hsurface, halive] at hdead
        cases hdead
      · simp only [Function.update_of_ne hsurface]
        exact hdead
  · rw [Server.commit, if_neg halive]
    exact h

omit h

end Sound

/-! ### Every step -/

namespace Sound

variable {s : Server}

/-- A step that changes the roots, the outputs or the handoffs only. -/
theorem restructured (h : Sound s) {s' : Server}
    (heq : s' = { s with
      roots := s'.roots
      homes := s'.homes
      outputs := s'.outputs
      presentationClaims :=
        { s.presentationClaims with localHandoffs := s'.presentationClaims.localHandoffs } })
    (hhomes : ∀ w id, s.homes w = some id → s'.homes w = some id)
    (htrees : ∀ id root, s'.roots.lookup id = some root → ∀ w ∈ root.tree, s'.homes w = some id)
    (hkinds : ∀ id root, s.roots.lookup id = some root → root.kind ≠ .layer →
      ∃ root', s'.roots.lookup id = some root' ∧ root'.kind ≠ .layer) : Sound s' := by
  have hclaimable : Claimable s' := by
    intro id demand hlookup
    rw [heq] at hlookup
    obtain ⟨root, hroot, hkind⟩ := h.justified.claimable id demand hlookup
    exact hkinds id root hroot hkind
  generalize s'.roots = roots at heq htrees hkinds
  generalize s'.homes = homes at heq hhomes htrees
  generalize s'.outputs = outputs at heq
  generalize s'.presentationClaims.localHandoffs = localHandoffs at heq
  subst heq
  exact h.undisturbed ⟨rfl, rfl, rfl, rfl, rfl, rfl, rfl, fun _ => rfl, hhomes, htrees,
    h.justified.timely, hclaimable⟩

/-- One root changes; its tree gains no surface, and it stays a layer or none. -/
theorem modified (h : Sound s) (id : SurfaceId) (f : FrameRoot → FrameRoot)
    (htree : ∀ root, ∀ w ∈ (f root).tree, w ∈ root.tree)
    (hkind : ∀ root : FrameRoot, root.kind ≠ .layer → (f root).kind ≠ .layer) :
    Sound { s with roots := s.roots.modify id f } := by
  refine h.restructured rfl (fun _ _ hhome => hhome) ?_ ?_
  · intro other root hlookup w hw
    simp only [AList.lookup_modify] at hlookup
    by_cases hid : other = id
    · rw [if_pos hid] at hlookup
      obtain ⟨old, hold, rfl⟩ := Option.map_eq_some_iff.mp hlookup
      exact h.placed.trees other old hold w (htree old w hw)
    · rw [if_neg hid] at hlookup
      exact h.placed.trees other root hlookup w hw
  · intro other root hlookup hlayer
    by_cases hid : other = id
    · subst hid
      exact ⟨f root, by simp [hlookup], hkind root hlayer⟩
    · exact ⟨root, by simp [hid, hlookup], hlayer⟩

theorem create (h : Sound s) (id : SurfaceId) (kind : RootKind) (surface : WlSurface) :
    Sound (s.create id kind surface) := by
  simp only [Server.create]
  split
  · rename_i hfresh
    obtain ⟨hroot, -, hhome⟩ := hfresh
    have hnone : s.roots.lookup id = none := AList.lookup_eq_none.mpr hroot
    refine h.restructured rfl ?_ ?_ ?_
    · intro w other hother
      have hne : w ≠ surface := by
        rintro rfl
        rw [hhome] at hother
        cases hother
      simp [Function.update_of_ne hne, hother]
    · intro other root hlookup w hw
      simp only [AList.lookup_insert_eq] at hlookup
      by_cases hid : other = id
      · rw [if_pos hid] at hlookup
        cases hlookup
        rw [List.mem_singleton.mp hw, hid]
        simp
      · rw [if_neg hid] at hlookup
        have hother := h.placed.trees other root hlookup w hw
        have hne : w ≠ surface := by
          rintro rfl
          rw [hhome] at hother
          cases hother
        simp [Function.update_of_ne hne, hother]
    · intro other root hlookup hlayer
      have hne : other ≠ id := by
        rintro rfl
        exact Option.some_ne_none root (hlookup.symm.trans hnone)
      exact ⟨root, by simp [hne, hlookup], hlayer⟩
  · exact h

theorem attach (h : Sound s) (id : SurfaceId) (surface : WlSurface) :
    Sound (s.attach id surface) := by
  simp only [Server.attach]
  split
  · rename_i hallowed
    obtain ⟨-, hhome⟩ := hallowed
    have hkept : ∀ w other, s.homes w = some other →
        Function.update s.homes surface (some id) w = some other := by
      intro w other hother
      by_cases hw : w = surface
      · subst hw
        rw [Function.update_self]
        rcases hhome with hnone | hsome
        · rw [hnone] at hother
          cases hother
        · exact hsome.symm.trans hother
      · rw [Function.update_of_ne hw]
        exact hother
    refine h.restructured rfl hkept ?_ ?_
    · intro other root hlookup w hw
      simp only [AList.lookup_modify] at hlookup
      by_cases hid : other = id
      · rw [if_pos hid] at hlookup
        obtain ⟨old, hold, rfl⟩ := Option.map_eq_some_iff.mp hlookup
        rcases List.mem_append.mp hw with hmem | hnew
        · exact hkept w other (h.placed.trees other old hold w hmem)
        · rw [List.mem_singleton.mp hnew, hid]
          simp
      · rw [if_neg hid] at hlookup
        exact hkept w other (h.placed.trees other root hlookup w hw)
    · intro other root hlookup hlayer
      by_cases hid : other = id
      · subst hid
        exact ⟨{ root with tree := root.tree ++ [surface] }, by simp [hlookup], hlayer⟩
      · exact ⟨root, by simp [hid, hlookup], hlayer⟩
  · exact h

/-- **Every step preserves the invariant.** -/
theorem step (h : Sound s) (event : Event) : Sound (step s event) := by
  have htrees := h.placed.trees
  cases event with
  | commit surface callbacks => exact h.commit surface callbacks
  | claim owner update => exact h.applyPresentationClaim owner update
  | setLocal surface rate => exact h.setLocalPresentation surface rate
  | takeLocalDemand =>
      exact h.restructured rfl (fun _ _ hhome => hhome) htrees
        fun _ root hlookup hlayer => ⟨root, hlookup, hlayer⟩
  | stage order => exact h.stageFrameCallbacks order
  | complete presentationId => exact h.completeFrameCallbacks presentationId
  | service elapsed order =>
      have hlater : Sound { s with clock := s.clock + elapsed } :=
        h.undisturbed ⟨rfl, rfl, rfl, rfl, rfl, rfl, rfl, fun _ => rfl, fun _ _ hhome => hhome,
          htrees, h.justified.timely.mono (Nat.le_add_right _ _), h.justified.claimable⟩
      exact hlater.serviceIndependentCallbacks order
  | create id kind surface => exact h.create id kind surface
  | attach id surface => exact h.attach id surface
  | detach id surface =>
      exact h.modified id _ (fun _ _ hw => (List.mem_filter.mp hw).1) fun _ hlayer => hlayer
  | setMapped id clientMapped => exact h.modified id _ (fun _ _ hw => hw) fun _ hlayer => hlayer
  | setPreferred id preferred =>
      refine h.modified id _ ?_ ?_
      · intro root w hw
        rw [FrameRoot.setPreferred] at hw
        split at hw <;> exact hw
      · intro root hlayer
        rw [FrameRoot.setPreferred]
        split
        · exact RootKind.noConfusion
        · exact hlayer
  | setMode | removeOutput =>
      exact h.restructured rfl (fun _ _ hhome => hhome) htrees
        fun _ root hlookup hlayer => ⟨root, hlookup, hlayer⟩
  | closeRole id => exact h.modified id _ (fun _ _ hw => hw) fun _ hlayer => hlayer
  | retire id => exact h.retire id
  | kill surface => exact h.kill surface

end Sound

/-! ### The timer is set in time -/

theorem fastest_spec {rates : List PresentationRate} {rate : PresentationRate} (h : rate ∈ rates) :
    ∃ top, fastest rates = some top ∧ ∀ other ∈ rates, other.millihertz ≤ top.millihertz := by
  induction rates generalizing rate with
  | nil => cases h
  | cons first rates ih =>
      cases rates with
      | nil => exact ⟨first, rfl, fun other hother => by rw [List.mem_singleton.mp hother]⟩
      | cons second rates =>
          obtain ⟨top, htop, hall⟩ := ih List.mem_cons_self
          refine ⟨if top.millihertz < first.millihertz then first else top, ?_, ?_⟩
          · rw [fastest, htop]
          · intro other hother
            rcases List.mem_cons.mp hother with rfl | hrest
            · split <;> omega
            · have hle := hall other hrest
              split <;> omega

variable {demand : Demand} {owner : ClientSourceId} {rate : Option PresentationRate}

/-- An active claim is among the rates. -/
theorem Demand.mem_rates (h : demand.owners.lookup owner = some (.active rate))
    (fallback : PresentationRate) : rate.getD fallback ∈ demand.rates fallback :=
  List.mem_filterMap.mpr ⟨⟨owner, .active rate⟩, AList.mem_entries_iff.mpr h, rfl⟩

/-- The timer of one root. -/
theorem PresentationClaims.timeout_le {id : SurfaceId} {clock : Instant}
    (htimely : claims.Timely clock) (hnow : clock ≤ now) (hnative : claims.native id = false)
    (hlookup : claims.roots.lookup id = some demand)
    (hactive : demand.owners.lookup owner = some (.active rate)) (fallback : PresentationRate) :
    ∃ delay, claims.timeout id fallback now = some delay ∧
      ∀ other otherRate, demand.owners.lookup other = some (.active otherRate) →
        delay ≤ (otherRate.getD fallback).interval := by
  obtain ⟨top, htop, hall⟩ := fastest_spec
    (List.mem_append_left (claims.localRates.lookup id).join.toList
      (Demand.mem_rates hactive fallback))
  have hinterval : ∀ other otherRate, demand.owners.lookup other = some (.active otherRate) →
      top.interval ≤ (otherRate.getD fallback).interval := by
    intro other otherRate hother
    exact PresentationRate.interval_le
      (hall _ (List.mem_append_left _ (Demand.mem_rates hother fallback)))
  have htimeout : claims.timeout id fallback now =
      some (demand.last.elim 0 fun last => last + top.interval - now) := by
    rw [timeout, if_neg (by rw [hnative]; exact Bool.false_ne_true), hlookup, Option.bind_some]
    refine (congrArg (Option.map _) htop).trans ?_
    cases demand.last <;> rfl
  refine ⟨_, htimeout, ?_⟩
  intro other otherRate hother
  have hle := hinterval other otherRate hother
  cases hlast : demand.last with
  | none => exact Nat.zero_le _
  | some last =>
      have hpast := (htimely id demand last hlookup hlast).trans hnow
      have hwait : last + top.interval - now ≤ top.interval := by
        rw [Nat.sub_le_iff_le_add, Nat.add_comm]
        exact Nat.add_le_add_left hpast _
      exact hwait.trans hle

/-! ### The statement -/

/-- Every callback of every surface is in exactly one of its five places, so it is done at most once;
those that are done were done in the order of the commits; one is dropped only with its surface or
with its root; it is completed by the owner that its root had at that moment; and a mapped root that
is not native, has callbacks and is actively claimed has the timer set at most one interval of any
active claim ahead, so of the fastest one. -/
structure CompletedByOwner (s : Server) : Prop where
  once : ∀ w, (s.doneOf w ++ s.stagedOf w ++ s.independentOf w ++ s.currentOf w ++
    s.droppedOf w).Perm (List.range (s.committed w))
  inOrder : ∀ w, (s.doneOf w).Pairwise (· < ·)
  dropped : ∀ loss ∈ s.losses, (s.surfaces loss.surface).alive = false ∨
    ∃ id ∈ s.forgotten, loss.root = some id
  byOwner : ∀ done ∈ s.completions, (done.rootNative = true ↔ done.consumer = .nativePresentation)
  inTime : ∀ (o : IterationOrder SurfaceId) (now : Instant) (id : SurfaceId) (root : FrameRoot)
    (demand : Demand) (owner : ClientSourceId) (rate : Option PresentationRate),
    s.clock ≤ now → s.roots.lookup id = some root → s.presented root = true →
    s.presentationClaims.native id = false → s.rootHasCallbacks id root = true →
    s.presentationClaims.roots.lookup id = some demand →
    demand.owners.lookup owner = some (.active rate) →
    ∃ delay, s.independentCallbackTimeout o now = some delay ∧
      ∀ other otherRate, demand.owners.lookup other = some (.active otherRate) →
        delay ≤ (otherRate.getD (s.fallbackPresentationRate id)).interval

/-- The timer of the server is that of the root that is due first. -/
theorem Sound.inTime {s : Server} (h : Sound s) (o : IterationOrder SurfaceId) {id : SurfaceId}
    {root : FrameRoot} (hnow : s.clock ≤ now) (hroot : s.roots.lookup id = some root)
    (hpresented : s.presented root = true) (hnative : s.presentationClaims.native id = false)
    (hwaits : s.rootHasCallbacks id root = true)
    (hclaimed : s.presentationClaims.roots.lookup id = some demand)
    (hactive : demand.owners.lookup owner = some (.active rate)) :
    ∃ delay, s.independentCallbackTimeout o now = some delay ∧
      ∀ other otherRate, demand.owners.lookup other = some (.active otherRate) →
        delay ≤ (otherRate.getD (s.fallbackPresentationRate id)).interval := by
  obtain ⟨own, htimeout, hbound⟩ := timeout_le h.justified.timely hnow hnative
    hclaimed hactive (s.fallbackPresentationRate id)
  obtain ⟨found, hfound, hlayer⟩ := h.justified.claimable id demand hclaimed
  rw [hroot] at hfound
  cases hfound
  have hmem : own ∈ ((s.independentFrameRoots o).filter fun found =>
      s.rootHasCallbacks found.1 found.2).filterMap fun found =>
        s.presentationClaims.timeout found.1 (s.fallbackPresentationRate found.1) now := by
    refine List.mem_filterMap.mpr ⟨(id, root), List.mem_filter.mpr ⟨?_, hwaits⟩, htimeout⟩
    exact mem_independentFrameRoots.mpr
      ⟨AList.mem_keys_of_lookup hclaimed, hroot, hlayer, hpresented⟩
  obtain ⟨delay, hdelay⟩ := Option.isSome_iff_exists.mp (List.isSome_min?_of_mem hmem)
  have hleast := (List.min?_eq_some_iff.mp hdelay).2 own hmem
  exact ⟨delay, hdelay, fun other otherRate hother => hleast.trans (hbound other otherRate hother)⟩

theorem Sound.completedByOwner {s : Server} (h : Sound s) : CompletedByOwner s where
  once := h.accounted.account
  inOrder w := by
    have hordered := h.accounted.ordered w
    rw [line, List.append_assoc, List.append_assoc] at hordered
    exact (List.pairwise_append.mp hordered).1
  dropped := h.justified.losses
  byOwner := h.justified.completions
  inTime o _ _ _ _ _ _ hnow hroot hpresented hnative hwaits hclaimed hactive :=
    h.inTime o hnow hroot hpresented hnative hwaits hclaimed hactive

theorem sound_init (primaryOutput : OutputId) : Sound { primaryOutput } where
  placed := by
    refine ⟨?_, ?_, ?_⟩
    · intro id root hlookup
      cases hlookup
    · intro group hgroup
      cases hgroup
    · intro id groups hlookup
      cases hlookup
  accounted := by
    refine ⟨?_, ?_⟩
    · intro w
      exact List.Pairwise.nil
    · intro w
      exact List.Perm.refl _
  justified := by
    refine ⟨?_, ?_, ?_, ?_⟩
    · intro loss hloss
      cases hloss
    · intro done hdone
      cases hdone
    · intro id demand last hlookup
      cases hlookup
    · intro id demand hlookup
      cases hlookup

end FrameCallbacks
