/-
**The account of frame callbacks, and what a change of the owner leaves of it.**

What is staged belongs to native roots, and what waits for the timer belongs to the others.  The five
places of a surface together hold every callback it asked for once, and all but the dropped ones stand
in the order of the commits.

When the owner of a root changes, what waited for the one consumer is put where the other takes it, in
front of what came later.  As nothing of a root waits for both, the order of its callbacks stays.

Main definitions: `Placed`, `Accounted`, `Justified`, `Sound`, `Keeps`, `Undisturbed`.

Main results:

* `Sound.extractStaged`, `Sound.restoreIndependent` — both ways in which
  the owner of a root changes;
* `Sound.applyPresentationClaim`, `Sound.setLocalPresentation`.
-/

import Weld.FrameCallbackPlaces

namespace FrameCallbacks

open Client

/-! ### Ownership -/

variable {surface : SurfaceId}

namespace PresentationClaims

variable {id : SurfaceId} {claims : PresentationClaims} {now : Instant}

/-- Ownership of a root depends on nothing else. -/
theorem native_congr {claims' : PresentationClaims}
    (hroots : claims'.roots.lookup id = claims.roots.lookup id)
    (hlocal : claims'.localRates.lookup id = claims.localRates.lookup id) :
    claims'.native id = claims.native id := by
  simp only [native, claimed, hroots, hlocal]

theorem lookup_update_ne {owner : ClientSourceId}
    {update : ClientPresentationUpdate} (h : id ≠ update.surface) :
    (claims.update owner update).roots.lookup id = claims.roots.lookup id := by
  obtain ⟨surface, claim⟩ := update
  cases claim with
  | release =>
      simp only [PresentationClaims.update]
      split
      · rfl
      · split <;> simp [h]
  | active | paused => simp [PresentationClaims.update, h]

theorem localRates_update (claims : PresentationClaims) (owner : ClientSourceId)
    (update : ClientPresentationUpdate) :
    (claims.update owner update).localRates = claims.localRates := by
  obtain ⟨surface, claim⟩ := update
  cases claim with
  | release =>
      simp only [PresentationClaims.update]
      split
      · rfl
      · split <;> rfl
  | active | paused => rfl

theorem native_update_ne {owner : ClientSourceId} {update : ClientPresentationUpdate}
    (h : id ≠ update.surface) : (claims.update owner update).native id = claims.native id :=
  native_congr (lookup_update_ne h) (by rw [localRates_update])

/-- Completing a root says when, and changes no claim. -/
theorem native_completed (claims : PresentationClaims) (surface : SurfaceId) (now : Instant)
    (id : SurfaceId) : (claims.completed surface now).native id = claims.native id := by
  simp only [native, claimed, completed, AList.lookup_modify]
  by_cases h : id = surface
  · rw [if_pos h]
    cases claims.roots.lookup id with
    | none | some => rfl
  · rw [if_neg h]

theorem native_forget_ne (h : id ≠ surface) : (claims.forget surface).native id = claims.native id :=
  native_congr (by simp [forget, h]) (by simp [forget, h])

/-- No root was completed later than now. -/
def Timely (claims : PresentationClaims) (now : Instant) : Prop :=
  ∀ id demand last, claims.roots.lookup id = some demand → demand.last = some last → last ≤ now

section

variable (h : claims.Timely now)
include h

theorem Timely.mono {later : Instant} (hle : now ≤ later) : claims.Timely later := by
  intro id demand last hlookup hlast
  exact (h id demand last hlookup hlast).trans hle

theorem Timely.insert {demand : Demand} (hdemand : ∀ last, demand.last = some last → last ≤ now) :
    { claims with roots := claims.roots.insert surface demand }.Timely now := by
  intro id found last hlookup hlast
  simp only [AList.lookup_insert_eq] at hlookup
  by_cases hid : id = surface
  · rw [if_pos hid] at hlookup
    cases hlookup
    exact hdemand last hlast
  · rw [if_neg hid] at hlookup
    exact h id found last hlookup hlast

theorem Timely.erase (surface : SurfaceId) (localRates : Dict SurfaceId (Option PresentationRate))
    (localHandoffs : Finset SurfaceId) :
    PresentationClaims.Timely ⟨claims.roots.erase surface, localRates, localHandoffs⟩ now := by
  intro id found last hlookup hlast
  simp only [AList.lookup_erase_eq] at hlookup
  by_cases hid : id = surface
  · rw [if_pos hid] at hlookup
    cases hlookup
  · rw [if_neg hid] at hlookup
    exact h id found last hlookup hlast

theorem Timely.update (owner : ClientSourceId) (update : ClientPresentationUpdate) :
    (claims.update owner update).Timely now := by
  have hclaim : ∀ last, ((claims.roots.lookup update.surface).getD {}).last = some last →
      last ≤ now := by
    intro last hlast
    cases hfound : claims.roots.lookup update.surface with
    | none =>
        rw [hfound] at hlast
        cases hlast
    | some demand =>
        rw [hfound] at hlast
        exact h _ demand last hfound hlast
  obtain ⟨surface, claim⟩ := update
  cases claim with
  | release =>
      simp only [PresentationClaims.update]
      split
      · exact h
      · rename_i demand hfound
        split
        · exact h.erase surface _ _
        · exact h.insert fun last hlast => h surface demand last hfound hlast
  | active | paused => exact h.insert hclaim

theorem Timely.completed (surface : SurfaceId) : (claims.completed surface now).Timely now := by
  intro id found last hlookup hlast
  simp only [PresentationClaims.completed, AList.lookup_modify] at hlookup
  by_cases hid : id = surface
  · rw [if_pos hid] at hlookup
    obtain ⟨demand, -, rfl⟩ := Option.map_eq_some_iff.mp hlookup
    cases hlast
    exact Nat.le_refl now
  · rw [if_neg hid] at hlookup
    exact h id found last hlookup hlast

end

end PresentationClaims

/-! ### What holds after every step -/

/-- The groups that wait belong to a root of the right owner. -/
structure Placed (s : Server) : Prop where
  trees : ∀ id root, s.roots.lookup id = some root → ∀ w ∈ root.tree, s.homes w = some id
  staged : ∀ group ∈ stagedGroups s.stagedFrameCallbacks,
    s.homes group.surface = some group.root ∧ s.presentationClaims.native group.root = true
  independent : ∀ id groups, s.independentCallbacks.lookup id = some groups →
    s.presentationClaims.native id = false ∧
      ∀ group ∈ groups, group.root = id ∧ s.homes group.surface = some id

/-- Every callback is in one place, and those that are not dropped are in the order of the commits. -/
structure Accounted (s : Server) : Prop where
  ordered : ∀ w, (s.line w).Pairwise (· < ·)
  account : ∀ w, (s.line w ++ s.droppedOf w).Perm (List.range (s.committed w))

/-- Only toplevels and popups are claimed. -/
def Claimable (s : Server) : Prop :=
  ∀ id demand, s.presentationClaims.roots.lookup id = some demand →
    ∃ root, s.roots.lookup id = some root ∧ root.kind ≠ .layer

/-- Why a callback was dropped, who completed one, and what is claimed. -/
structure Justified (s : Server) : Prop where
  losses : ∀ loss ∈ s.losses, (s.surfaces loss.surface).alive = false ∨
    ∃ id ∈ s.forgotten, loss.root = some id
  completions : ∀ done ∈ s.completions,
    (done.rootNative = true ↔ done.consumer = .nativePresentation)
  timely : s.presentationClaims.Timely s.clock
  claimable : Claimable s

structure Sound (s : Server) : Prop where
  placed : Placed s
  accounted : Accounted s
  justified : Justified s

/-- A step that moves callbacks: what leaves the line of a surface without being done is dropped. -/
structure Keeps (s s' : Server) : Prop where
  committed : s'.committed = s.committed
  line : ∀ w, (s'.line w).Sublist (s.line w)
  account : ∀ w, (s'.line w ++ s'.droppedOf w).Perm (s.line w ++ s.droppedOf w)

variable {s s' : Server}

theorem Accounted.keep (h : Accounted s) (hkeeps : Keeps s s') : Accounted s' where
  ordered w := (h.ordered w).sublist (hkeeps.line w)
  account w := by
    rw [hkeeps.committed]
    exact (hkeeps.account w).trans (h.account w)

/-- The line and the dropped callbacks of every surface stay. -/
theorem Keeps.of_eq (hcommitted : s'.committed = s.committed) (hline : ∀ w, s'.line w = s.line w)
    (hdropped : ∀ w, s'.droppedOf w = s.droppedOf w) :
    Keeps s s' where
  committed := hcommitted
  line w := by rw [hline]
  account w := by rw [hline, hdropped]

/-- What waits at the front of the line of a surface is done or dropped. -/
theorem Keeps.of_front (hcommitted : s'.committed = s.committed) (lost : WlSurface → Bool)
    (front : WlSurface → List WlCallback) (hfront : ∀ w, s.stagedOf w ++ s.independentOf w ++
      s.currentOf w = front w ++ (s'.stagedOf w ++ s'.independentOf w ++ s'.currentOf w))
    (hdone : ∀ w, s'.doneOf w = s.doneOf w ++ if lost w then [] else front w)
    (hdropped : ∀ w, (s'.droppedOf w).Perm (s.droppedOf w ++ if lost w then front w else [])) :
    Keeps s s' := by
  have hline : ∀ w, s.line w =
      s.doneOf w ++ (front w ++ (s'.stagedOf w ++ s'.independentOf w ++ s'.currentOf w)) := by
    intro w
    rw [← hfront, Server.line, List.append_assoc, List.append_assoc, List.append_assoc]
  have hline' : ∀ w, s'.line w = s.doneOf w ++ ((if lost w then [] else front w) ++
      (s'.stagedOf w ++ s'.independentOf w ++ s'.currentOf w)) := by
    intro w
    rw [Server.line, hdone]
    simp only [List.append_assoc]
  refine ⟨hcommitted, ?_, ?_⟩
  · intro w
    rw [hline, hline']
    refine List.Sublist.append_left (List.Sublist.append_right ?_ _) _
    split
    · exact List.nil_sublist _
    · exact List.Sublist.refl _
  · intro w
    refine List.perm_iff_count.mpr fun callback => ?_
    have hcount := List.perm_iff_count.mp (hdropped w) callback
    rw [hline, hline']
    by_cases h : lost w = true
    · simp only [h, if_true, List.count_append, List.count_nil] at hcount ⊢
      omega
    · simp only [h, Bool.false_eq_true, if_false, List.count_append, List.count_nil] at hcount ⊢
      omega

namespace Placed

variable {s : Server}

section

variable (h : Placed s)
include h

theorem homes_of_independent :
    ∀ id groups, s.independentCallbacks.lookup id = some groups →
      ∀ group ∈ groups, s.homes group.surface = some id := by
  intro id groups hlookup group hgroup
  exact ((h.independent id groups hlookup).2 group hgroup).2

variable {w : WlSurface} {id : SurfaceId}

theorem independentOf_eq (hhome : s.homes w = some id) :
    s.independentOf w = callbacksOf w ((s.independentCallbacks.lookup id).getD []) :=
  Server.independentOf_of_home h.homes_of_independent hhome

theorem independentOf_homeless (hhome : s.homes w = none) : s.independentOf w = [] :=
  Server.independentOf_of_homeless h.homes_of_independent hhome

/-- A native root has nothing with the timer. -/
theorem lookup_of_native (hnative : s.presentationClaims.native id = true) :
    s.independentCallbacks.lookup id = none := by
  cases hlookup : s.independentCallbacks.lookup id with
  | none => rfl
  | some groups =>
      rw [(h.independent id groups hlookup).1] at hnative
      cases hnative

theorem independentOf_of_native (hhome : s.homes w = some id)
    (hnative : s.presentationClaims.native id = true) : s.independentOf w = [] := by
  rw [h.independentOf_eq hhome, h.lookup_of_native hnative]
  rfl

/-- A root that is not native has nothing staged. -/
theorem stagedOf_of_other (hhome : s.homes w = some id)
    (hnative : s.presentationClaims.native id = false) : s.stagedOf w = [] := by
  refine callbacksOf_eq_nil ?_
  intro group hgroup heq
  obtain ⟨hroot, hstaged⟩ := h.staged group hgroup
  rw [heq, hhome] at hroot
  cases hroot
  rw [hnative] at hstaged
  cases hstaged

/-- Nothing of a root is left with the timer when it is restored. -/
theorem restored (surface : SurfaceId) (groups : List SurfaceCallbacks) :
    Placed (s.restored surface groups) := by
  refine ⟨h.trees, h.staged, ?_⟩
  intro id others hlookup
  simp only [Server.restored, AList.lookup_erase_eq] at hlookup
  by_cases hid : id = surface
  · rw [if_pos hid] at hlookup
    cases hlookup
  · rw [if_neg hid] at hlookup
    exact h.independent id others hlookup

/-- A root with which the timer has nothing to do may become native. -/
theorem reclaim {claims : PresentationClaims} (hnothing : s.independentCallbacks.lookup surface = none)
    (hnative : ∀ id, id ≠ surface → claims.native id = s.presentationClaims.native id)
    (hnow : claims.native surface = true) : Placed { s with presentationClaims := claims } := by
  refine ⟨h.trees, ?_, ?_⟩
  · intro group hgroup
    obtain ⟨hhome, hgroupNative⟩ := h.staged group hgroup
    refine ⟨hhome, ?_⟩
    by_cases hroot : group.root = surface
    · rw [hroot]
      exact hnow
    · exact (hnative group.root hroot).trans hgroupNative
  · intro id groups hlookup
    have hne : id ≠ surface := by
      rintro rfl
      exact Option.some_ne_none groups (hlookup.symm.trans hnothing)
    obtain ⟨hother, hgroups⟩ := h.independent id groups hlookup
    exact ⟨(hnative id hne).trans hother, hgroups⟩

/-- The lists of the timer agree on every root that a surface can belong to. -/
theorem independentOf_congr (h' : Placed s') (hhomes : s'.homes w = s.homes w) (hlookup : ∀ id, s.homes
      w = some id → s'.independentCallbacks.lookup id = s.independentCallbacks.lookup id) :
    s'.independentOf w = s.independentOf w := by
  cases hhome : s.homes w with
  | none =>
      rw [h.independentOf_homeless hhome, h'.independentOf_homeless (hhomes.trans hhome)]
  | some id =>
      rw [h.independentOf_eq hhome, h'.independentOf_eq (hhomes.trans hhome), hlookup id hhome]

end

end Placed

/-! ### Steps that move no callbacks -/

/-- A step that leaves the callbacks where they are and every root with its owner. -/
structure Undisturbed (s s' : Server) : Prop where
  surfaces : s'.surfaces = s.surfaces
  staged : s'.stagedFrameCallbacks = s.stagedFrameCallbacks
  independent : s'.independentCallbacks = s.independentCallbacks
  completions : s'.completions = s.completions
  losses : s'.losses = s.losses
  committed : s'.committed = s.committed
  forgotten : s'.forgotten = s.forgotten
  native : ∀ id, s'.presentationClaims.native id = s.presentationClaims.native id
  homes : ∀ w id, s.homes w = some id → s'.homes w = some id
  trees : ∀ id root, s'.roots.lookup id = some root → ∀ w ∈ root.tree, s'.homes w = some id
  timely : s'.presentationClaims.Timely s'.clock
  claimable : Claimable s'

theorem Undisturbed.keeps (h : Undisturbed s s') : Keeps s s' := by
  refine Keeps.of_eq h.committed ?_ ?_
  · intro w
    simp only [Server.line, Server.doneOf, Server.stagedOf, Server.independentOf, Server.currentOf,
      h.completions, h.staged, h.independent, h.surfaces]
  · intro w
    simp only [Server.droppedOf, h.losses]

theorem Sound.undisturbed (h : Sound s) (hsame : Undisturbed s s') : Sound s' where
  placed := by
    refine ⟨hsame.trees, ?_, ?_⟩
    · intro group hgroup
      rw [hsame.staged] at hgroup
      obtain ⟨hhome, hnative⟩ := h.placed.staged group hgroup
      exact ⟨hsame.homes _ _ hhome, by rw [hsame.native]; exact hnative⟩
    · intro id groups hlookup
      rw [hsame.independent] at hlookup
      obtain ⟨hnative, hgroups⟩ := h.placed.independent id groups hlookup
      refine ⟨by rw [hsame.native]; exact hnative, ?_⟩
      intro group hgroup
      exact ⟨(hgroups group hgroup).1, hsame.homes _ _ (hgroups group hgroup).2⟩
  accounted := h.accounted.keep hsame.keeps
  justified := by
    refine ⟨?_, ?_, hsame.timely, hsame.claimable⟩
    · rw [hsame.losses, hsame.surfaces, hsame.forgotten]
      exact h.justified.losses
    · rw [hsame.completions]
      exact h.justified.completions

/-! ### Completing groups -/

namespace Server

variable {groups : List SurfaceCallbacks}

theorem mem_completionsOf {consumer : Consumer} {done : Completion}
    (h : done ∈ (s.living groups).flatMap (s.completionsOf consumer)) :
    done.consumer = consumer ∧
      ∃ group ∈ groups, done.rootNative = s.presentationClaims.native group.root := by
  obtain ⟨group, hgroup, hdone⟩ := List.mem_flatMap.mp h
  obtain ⟨callback, -, rfl⟩ := List.mem_map.mp hdone
  exact ⟨rfl, group, (List.mem_filter.mp hgroup).1, rfl⟩

theorem mem_lossesOf {loss : Loss} (h : loss ∈ groups.flatMap lossesOf) :
    ∃ group ∈ groups, loss.root = some group.root ∧ loss.surface = group.surface := by
  obtain ⟨group, hgroup, hloss⟩ := List.mem_flatMap.mp h
  obtain ⟨callback, -, rfl⟩ := List.mem_map.mp hloss
  exact ⟨group, hgroup, rfl, rfl⟩

theorem exists_root_of_acceptsClaims (h : s.acceptsClaims surface = true) :
    ∃ root, s.roots.lookup surface = some root ∧ root.kind ≠ .layer := by
  rw [acceptsClaims] at h
  split at h
  · cases h
  · rename_i root hroot
    exact ⟨root, hroot, of_decide_eq_true h⟩

theorem mem_orphaned {group : SurfaceCallbacks} (h : group ∈ s.orphaned groups) :
    (s.surfaces group.surface).alive = false := by
  simpa using (List.mem_filter.mp h).2

end Server

/-- Completing groups whose roots are all owned by the consumer. -/
theorem Justified.completeAll (h : Justified s) (consumer : Consumer) (groups : List SurfaceCallbacks)
      (howner : ∀ group ∈ groups, (s.presentationClaims.native group.root = true ↔ consumer =
      .nativePresentation)) : Justified (s.completeAll consumer groups) := by
  rw [Server.completeAll_eq]
  refine ⟨?_, ?_, h.timely, h.claimable⟩
  · intro loss hloss
    rcases List.mem_append.mp hloss with hold | hnew
    · exact h.losses loss hold
    · obtain ⟨group, hgroup, -, hsurface⟩ := Server.mem_lossesOf hnew
      refine .inl ?_
      rw [hsurface]
      exact Server.mem_orphaned hgroup
  · intro done hdone
    rcases List.mem_append.mp hdone with hold | hnew
    · exact h.completions done hold
    · obtain ⟨hconsumer, group, hgroup, hnative⟩ := Server.mem_completionsOf hnew
      rw [hconsumer, hnative]
      exact howner group hgroup

/-! ### The owner changes -/

/-- What the transition of a root starts from: nothing but the claims on this root has changed. -/
structure Reclaimed (s s' : Server) (surface : SurfaceId) : Prop where
  eq : s' = { s with presentationClaims := s'.presentationClaims }
  native : ∀ id, id ≠ surface → s'.presentationClaims.native id = s.presentationClaims.native id
  timely : s'.presentationClaims.Timely s.clock
  claimable : Claimable s'

namespace Sound

variable {s s' : Server} {surface : SurfaceId}

section

variable (h : Sound s)
include h

section

variable (hclaims : Reclaimed s s' surface)
include hclaims

/-- The owner of the root stays. -/
theorem reclaimed
    (hnative : s'.presentationClaims.native surface = s.presentationClaims.native surface) :
    Sound s' := by
  have hall : ∀ id, s'.presentationClaims.native id = s.presentationClaims.native id := by
    intro id
    by_cases hid : id = surface
    · rw [hid, hnative]
    · exact hclaims.native id hid
  obtain ⟨heq, -, htimely, hclaimable⟩ := hclaims
  rw [heq] at hclaimable ⊢
  exact h.undisturbed ⟨rfl, rfl, rfl, rfl, rfl, rfl, rfl, hall, fun _ _ hhome => hhome,
    h.placed.trees, htimely, hclaimable⟩

/-- The root has become the timer's: what is staged for it waits there now. -/
theorem extractStaged (hwas : s.presentationClaims.native surface = true)
    (hnow : s'.presentationClaims.native surface = false) : Sound (s'.extractStaged surface) := by
  obtain ⟨heq, hnative, htimely, hclaimable⟩ := hclaims
  generalize s'.presentationClaims = claims at heq hnative htimely hnow
  subst heq
  have hnothing := h.placed.lookup_of_native hwas
  have hlookup := Server.lookup_extractStaged (s := { s with presentationClaims := claims }) hnothing
  have hstaged := Server.stagedGroups_extractStaged { s with presentationClaims := claims } surface
  have hplaced : Placed ({ s with presentationClaims := claims }.extractStaged surface) := by
    refine ⟨h.placed.trees, ?_, ?_⟩
    · intro group hgroup
      rw [hstaged] at hgroup
      obtain ⟨hmem, hne⟩ := List.mem_filter.mp hgroup
      obtain ⟨hhome, hgroupNative⟩ := h.placed.staged group hmem
      exact ⟨hhome, (hnative group.root (by simpa using hne)).trans hgroupNative⟩
    · intro id groups hfound
      rw [hlookup] at hfound
      by_cases hid : id = surface ∧ Server.stagedFor { s with presentationClaims := claims } surface ≠ []
      · rw [if_pos hid] at hfound
        cases hfound
        refine ⟨by rw [hid.1]; exact hnow, ?_⟩
        intro group hgroup
        obtain ⟨hmem, hroot⟩ := List.mem_filter.mp hgroup
        have hroot' : group.root = id := (of_decide_eq_true hroot).trans hid.1.symm
        refine ⟨hroot', ?_⟩
        rw [← hroot']
        exact (h.placed.staged group hmem).1
      · rw [if_neg hid] at hfound
        have hne : id ≠ surface := by
          intro heq
          rw [heq] at hfound
          exact Option.some_ne_none groups (hfound.symm.trans hnothing)
        obtain ⟨hother, hgroups⟩ := h.placed.independent id groups hfound
        exact ⟨(hnative id hne).trans hother, hgroups⟩
  have hline : ∀ w, Server.line ({ s with presentationClaims := claims }.extractStaged surface) w =
      s.line w := by
    intro w
    by_cases hhome : s.homes w = some surface
    · -- all that is staged of the surface is staged for this root, and nothing waits for the timer
      have hroot : ∀ group ∈ stagedGroups s.stagedFrameCallbacks, group.surface = w →
          group.root = surface := by
        intro group hgroup heq
        have hown := (h.placed.staged group hgroup).1
        rw [heq, hhome] at hown
        exact (Option.some.inj hown).symm
      have hmoved : callbacksOf w (Server.stagedFor { s with presentationClaims := claims } surface) =
          s.stagedOf w :=
        callbacksOf_filter_of_pass fun group hgroup heq => decide_eq_true (hroot group hgroup heq)
      have hgone : Server.stagedOf
          ({ s with presentationClaims := claims }.extractStaged surface) w = [] := by
        rw [Server.stagedOf, hstaged]
        refine callbacksOf_filter_of_stop ?_
        intro group hgroup heq
        simp [hroot group hgroup heq]
      have hwaits : Server.independentOf
          ({ s with presentationClaims := claims }.extractStaged surface) w = s.stagedOf w := by
        rw [hplaced.independentOf_eq hhome, hlookup]
        by_cases hempty : Server.stagedFor { s with presentationClaims := claims } surface = []
        · rw [if_neg (by simp [hempty]), ← hmoved, hempty]
          show callbacksOf w ((s.independentCallbacks.lookup surface).getD []) = _
          rw [hnothing]
          rfl
        · rw [if_pos ⟨rfl, hempty⟩, Option.getD_some, hmoved]
      rw [Server.line, Server.line, hgone, hwaits, h.placed.independentOf_of_native hhome hwas,
        List.append_nil, List.append_nil]
      rfl
    · have hkept : Server.stagedOf
          ({ s with presentationClaims := claims }.extractStaged surface) w = s.stagedOf w := by
        rw [Server.stagedOf, hstaged]
        refine callbacksOf_filter_of_pass ?_
        intro group hgroup heq
        have hown := (h.placed.staged group hgroup).1
        rw [heq] at hown
        refine decide_eq_true ?_
        rintro hroot
        rw [hroot] at hown
        exact hhome hown
      have hwaits := h.placed.independentOf_congr hplaced (w := w) rfl (by
        intro id hid
        rw [hlookup, if_neg]
        rintro ⟨heq, -⟩
        rw [heq] at hid
        exact hhome hid)
      rw [Server.line, Server.line, hkept, hwaits]
      rfl
  exact ⟨hplaced, h.accounted.keep (Keeps.of_eq rfl hline fun _ => rfl),
    ⟨h.justified.losses, h.justified.completions, htimely, hclaimable⟩⟩

omit hclaims in
/-- The callbacks of the root in front of the current ones: nothing of a surface waits twice. -/
theorem keeps_restored {groups : List SurfaceCallbacks}
    (hfound : s.independentCallbacks.lookup surface = some groups) :
    Keeps s (s.restored surface groups) := by
  have hplaced := h.placed.restored surface groups
  have hgroups := (h.placed.independent surface groups hfound).2
  have hwaits : ∀ w, s.independentOf w =
      callbacksOf w groups ++ (s.restored surface groups).independentOf w ∧
      (callbacksOf w groups = [] ∨ (s.restored surface groups).independentOf w = []) := by
    intro w
    by_cases hhome : s.homes w = some surface
    · have hnone : (s.restored surface groups).independentOf w = [] := by
        rw [hplaced.independentOf_eq hhome]
        simp [Server.restored]
      refine ⟨?_, .inr hnone⟩
      rw [hnone, List.append_nil, h.placed.independentOf_eq hhome, hfound]
      rfl
    · have hnone : callbacksOf w groups = [] := by
        refine callbacksOf_eq_nil ?_
        intro group hgroup heq
        have hown := (hgroups group hgroup).2
        rw [heq] at hown
        exact hhome hown
      refine ⟨?_, .inl hnone⟩
      rw [hnone, List.nil_append]
      refine (h.placed.independentOf_congr hplaced rfl ?_).symm
      intro id hid
      have hne : id ≠ surface := by
        rintro rfl
        exact hhome hid
      simp [Server.restored, hne]
  refine ⟨rfl, ?_, ?_⟩
  · intro w
    obtain ⟨hindependent, hone⟩ := hwaits w
    rw [Server.line, Server.line, Server.currentOf_restored, hindependent]
    show List.Sublist (s.doneOf w ++ s.stagedOf w ++ _ ++ _) _
    by_cases halive : (s.surfaces w).alive = true
    · rw [if_pos halive]
      rcases hone with hnone | hnone <;> simp [hnone]
    · rw [if_neg halive]
      simp
  · intro w
    obtain ⟨hindependent, -⟩ := hwaits w
    have hperm := Server.callbacksOf_reverse w (s.orphaned groups)
    rw [Server.callbacksOf_orphaned] at hperm
    rw [Server.line, Server.line, Server.currentOf_restored, Server.droppedOf_restored,
      hindependent]
    show List.Perm (s.doneOf w ++ s.stagedOf w ++ _ ++ _ ++ _) _
    refine List.perm_iff_count.mpr fun callback => ?_
    have hcount := List.perm_iff_count.mp hperm callback
    by_cases halive : (s.surfaces w).alive = true
    · rw [if_pos halive] at hcount ⊢
      simp only [List.count_append, List.count_nil] at hcount ⊢
      omega
    · rw [if_neg halive] at hcount ⊢
      simp only [List.count_append] at hcount ⊢
      omega

/-- The root has become native: what waited for the timer is current again. -/
theorem restoreIndependent (hnow : s'.presentationClaims.native surface = true) :
    Sound (s'.restoreIndependent surface) := by
  obtain ⟨heq, hnative, htimely, hclaimable⟩ := hclaims
  generalize s'.presentationClaims = claims at heq hnative htimely hnow
  subst heq
  cases hfound : s.independentCallbacks.lookup surface with
  | none =>
      have hsame : Server.restoreIndependent { s with presentationClaims := claims } surface =
          { s with presentationClaims := claims } := by
        rw [Server.restoreIndependent, hfound]
      rw [hsame]
      exact ⟨h.placed.reclaim hfound hnative hnow,
        h.accounted.keep (Keeps.of_eq rfl (fun _ => rfl) fun _ => rfl),
        ⟨h.justified.losses, h.justified.completions, htimely, hclaimable⟩⟩
  | some groups =>
      have hnothing : (s.restored surface groups).independentCallbacks.lookup surface = none := by
        simp [Server.restored]
      have hkept := h.accounted.keep (h.keeps_restored hfound)
      rw [Server.restoreIndependent_eq (s := { s with presentationClaims := claims }) hfound]
      refine ⟨(h.placed.restored surface groups).reclaim hnothing hnative hnow,
        hkept.keep (Keeps.of_eq rfl (fun _ => rfl) fun _ => rfl),
        ⟨?_, h.justified.completions, htimely, hclaimable⟩⟩
      intro loss hloss
      show (s.refilled groups loss.surface).alive = false ∨ _
      rw [Server.refilled_alive]
      rcases List.mem_append.mp hloss with hold | hnew
      · exact h.justified.losses loss hold
      · obtain ⟨group, hgroup, -, hsurface⟩ := Server.mem_lossesOf hnew
        refine .inl ?_
        rw [hsurface]
        exact Server.mem_orphaned (s := s) (List.mem_reverse.mp hgroup)

omit hclaims in
/-- Only the handoffs and the request change. -/
theorem requestHandoff (surface : SurfaceId) : Sound (s.requestHandoff surface) := by
  simp only [Server.requestHandoff]
  split
  · exact h.undisturbed ⟨rfl, rfl, rfl, rfl, rfl, rfl, rfl, fun _ => rfl, fun _ _ hhome => hhome,
      h.placed.trees, h.justified.timely, h.justified.claimable⟩
  · exact h.undisturbed ⟨rfl, rfl, rfl, rfl, rfl, rfl, rfl, fun _ => rfl, fun _ _ hhome => hhome,
      h.placed.trees, h.justified.timely, h.justified.claimable⟩

theorem transitionCallbackOwner :
    Sound (s'.transitionCallbackOwner surface (s.presentationClaims.native surface)) := by
  cases hwas : s.presentationClaims.native surface <;>
    cases hnow : s'.presentationClaims.native surface
  · rw [Server.transitionCallbackOwner, hnow]
    exact h.reclaimed hclaims (hnow.trans hwas.symm)
  · rw [Server.transitionCallbackOwner, hnow]
    exact (h.restoreIndependent hclaims hnow).requestHandoff surface
  · rw [Server.transitionCallbackOwner, hnow]
    exact h.extractStaged hclaims hwas hnow
  · rw [Server.transitionCallbackOwner, hnow]
    exact h.reclaimed hclaims (hnow.trans hwas.symm)

end

theorem applyPresentationClaim (owner : ClientSourceId) (update : ClientPresentationUpdate) :
    Sound (s.applyPresentationClaim owner update) := by
  simp only [Server.applyPresentationClaim]
  split
  · rename_i haccepts
    refine h.transitionCallbackOwner ⟨rfl, ?_, h.justified.timely.update owner update, ?_⟩
    · intro id hne
      exact PresentationClaims.native_update_ne hne
    · intro id demand hlookup
      by_cases hid : id = update.surface
      · rw [hid]
        exact Server.exists_root_of_acceptsClaims haccepts
      · refine h.justified.claimable id demand ?_
        rw [← hlookup]
        exact (PresentationClaims.lookup_update_ne hid).symm
  · exact h

theorem setLocalPresentation (surface : SurfaceId) (rate : Option PresentationRate) :
    Sound (s.setLocalPresentation surface rate) := by
  simp only [Server.setLocalPresentation]
  split
  · refine h.transitionCallbackOwner ⟨rfl, ?_, h.justified.timely, h.justified.claimable⟩
    intro id hne
    exact PresentationClaims.native_congr rfl (by simp [hne])
  · exact h

end

end Sound

end FrameCallbacks
