/-
**No presentation claim outlives its mapping, unless its release is thrown away.**

A relay claims the presentation of the surfaces it has mapped.  Its claims reach the host through a
queue of updates; folding everything the host drained and everything still queued gives the claims
the host ends up with.  They are the claims the port accepted for the mapped surfaces, and there
are none once the relay has failed.

The exception is in the source: noticing that the access session was revoked clears the queue before
the releases are generated, and a `Release` that was already queued for a surface that has left the
bookkeeping is lost with it.  The results are about runs in which, whenever a revocation is noticed,
the relay still has every claim the host has drained.

Main definitions: `SourceRelayAdapter.lastPresented`, `Accounted`, `Matched`, `Backed`,
`HostedRelay.KeepsReleases`.

Main results:

* `HostedRelay.claims_follow_mappings` — the claims of every run whose steps meet it;
* `HostedRelay.revocation_strands_claim` — a run that does not, and a claim that stays.
-/

import Weld.SourceRelayInvariant
import Weld.Transition

namespace Hoist

open Client Gamepad SourceRelayAdapter AList Transition

/-! ### Folding updates -/

section

variable (claims : ClientSurfaceId → Option ClientPresentationClaim)
include claims

theorem applyUpdates_append (us vs : List ClientPresentationUpdate) :
    applyUpdates claims (us ++ vs) = applyUpdates (applyUpdates claims us) vs :=
  List.foldl_append ..

/-- A claim that is not a release. -/
theorem applyUpdates_claim (us : List ClientPresentationUpdate) (x y : ClientSurfaceId)
    {claim : ClientPresentationClaim} (h : claim ≠ .release) :
    applyUpdates claims (us ++ [⟨x, claim⟩]) y =
      if y = x then some claim else applyUpdates claims us y := by
  rw [applyUpdates_append]
  simp only [applyUpdates, List.foldl_cons, List.foldl_nil, applyUpdate, if_neg h,
    Function.update_apply]

theorem applyUpdates_releases (us : List ClientPresentationUpdate) (xs : List ClientSurfaceId)
    (y : ClientSurfaceId) :
    applyUpdates claims (us ++ xs.map fun x => ⟨x, .release⟩) y =
      if y ∈ xs then none else applyUpdates claims us y := by
  rw [applyUpdates_append]
  generalize applyUpdates claims us = held
  induction xs generalizing held with
  | nil => simp [applyUpdates]
  | cons x xs ih =>
      have hstep := ih (applyUpdate held ⟨x, .release⟩)
      simp only [applyUpdates, List.map_cons, List.foldl_cons] at hstep ⊢
      rw [hstep]
      by_cases hmem : y ∈ xs
      · simp [hmem]
      · by_cases hx : y = x
        · simp [hx, applyUpdate]
        · simp [hmem, hx, applyUpdate]

end

namespace SourceRelayAdapter

/-- The last preference of a surface the port took, and the claim it accepted for it. -/
def lastPresented (s : SourceRelayAdapter) (surface : ClientSurfaceId) :
    Option (ClientPresentationClaim × ClientPresentationClaim) :=
  ((s.presented.filter fun entry => entry.1 == surface).getLast?).map (·.2)

end SourceRelayAdapter

/-! ### The invariant -/

section Account

variable (claims : ClientSurfaceId → Option ClientPresentationClaim)

/-- A host that has drained `claims` ends up with what the port accepted for the surfaces in the
bookkeeping, and with nothing else. -/
structure Accounted (s : SourceRelayAdapter) : Prop where
  recorded : ∀ x requested, s.presentations.lookup x = some requested → requested ≠ .release ∧
    ∃ accepted, s.lastPresented x = some (requested, accepted) ∧
      applyUpdates claims s.presentationUpdates x = some accepted
  absent : ∀ x, x ∉ s.presentations → applyUpdates claims s.presentationUpdates x = none
  failed : s.failed = true → s.presentations = ∅

/-- The surfaces with a claim are the mapped ones. -/
def Matched (s : SourceRelayAdapter) : Prop :=
  s.failed = true ∨ ∀ x, x ∈ s.presentations ↔ x ∈ s.mappings

/-- Revoking now loses no release: every claim the host has drained is still in the bookkeeping. -/
def Backed (env : SourceEnvironment) (s : SourceRelayAdapter) : Prop :=
  (∀ i, env.authorized i = true) ∨ s.failed = true ∨ ∀ x, claims x ≠ none → x ∈ s.presentations

variable {claims} {env : SourceEnvironment} {s t : SourceRelayAdapter}

/-- The two states have the same claims and mappings. -/
structure SameClaims (s t : SourceRelayAdapter) : Prop where
  presentations : t.presentations = s.presentations
  presentationUpdates : t.presentationUpdates = s.presentationUpdates
  presented : t.presented = s.presented
  mappings : t.mappings = s.mappings
  failed : t.failed = s.failed

theorem SameClaims.of_core (e : SameCore s t) : SameClaims s t :=
  ⟨e.presentations, e.presentationUpdates, e.presented, e.mappings, e.failed⟩

theorem SameClaims.tick (s : SourceRelayAdapter) : SameClaims s s.tick := ⟨rfl, rfl, rfl, rfl, rfl⟩

theorem Accounted.same (e : SameClaims s t) (h : Accounted claims s) : Accounted claims t where
  recorded x requested hx := by
    rw [e.presentations] at hx
    rw [lastPresented, e.presented, e.presentationUpdates]
    exact h.recorded x requested hx
  absent x hx := by
    rw [e.presentations] at hx
    rw [e.presentationUpdates]
    exact h.absent x hx
  failed hfailed := by
    rw [e.failed] at hfailed
    rw [e.presentations]
    exact h.failed hfailed

theorem Matched.same (e : SameClaims s t) (h : Matched s) : Matched t := by
  rw [Matched, e.failed, e.presentations, e.mappings]
  exact h

theorem Backed.same (e : SameClaims s t) (h : Backed claims env s) : Backed claims env t := by
  rw [Backed, e.failed, e.presentations]
  exact h

/-- Failing releases whatever is still in the bookkeeping. -/
theorem accounted_fail (halive : s.failed = false)
    (habsent : ∀ x, x ∉ s.presentations → applyUpdates claims s.presentationUpdates x = none)
    (reason : String) : Accounted claims (s.fail env reason) := by
  have hdead : ¬ s.failed = true := by rw [halive]; decide
  simp only [SourceRelayAdapter.fail, if_neg hdead]
  refine ⟨?_, ?_, fun _ => rfl⟩
  · intro x requested hx
    simp at hx
  · intro x _
    rw [applyUpdates_releases]
    split_ifs with hmem
    · rfl
    · refine habsent x fun hx => hmem ?_
      rw [IterationOrder.mem_arrange]
      exact mem_keys.mp hx

theorem Accounted.fail (h : Accounted claims s) (reason : String) :
    Accounted claims (s.fail env reason) := by
  cases halive : s.failed with
  | true =>
      rw [SourceRelayAdapter.fail, if_pos halive]
      exact h
  | false => exact accounted_fail halive h.absent reason

theorem Matched.fail (s : SourceRelayAdapter) (reason : String) : Matched (s.fail env reason) :=
  Or.inl (failed_fail s reason)

/-- Revoking clears the queue; what the host has drained must still be in the bookkeeping. -/
theorem accounted_revoke (halive : s.failed = false)
    (hbacked : ∀ x, claims x ≠ none → x ∈ s.presentations) : Accounted claims (s.revoke env) := by
  have hcleared : ∀ y, y ∉ s.presentations → applyUpdates claims [] y = none := by
    intro y hy
    by_contra hclaim
    exact hy (hbacked y hclaim)
  exact accounted_fail (s := { s with effects := [], presentationUpdates := [] }.tick) halive
    hcleared "access session revoked"
theorem failed_revoke (s : SourceRelayAdapter) : (s.revoke env).failed = true :=
  failed_fail _ _

/-- Accounted claims that revoking now would not lose. -/
def Covered (claims : ClientSurfaceId → Option ClientPresentationClaim) (env : SourceEnvironment)
    (s : SourceRelayAdapter) : Prop :=
  Accounted claims s ∧ Backed claims env s

theorem Covered.stable : Stable env (Covered claims env) where
  same e h := ⟨h.1.same (.of_core e), h.2.same (.of_core e)⟩
  fail reason h := ⟨h.1.fail reason, Or.inr (Or.inl (failed_fail _ reason))⟩
  revoke {s} halive hauthorized h := by
    refine ⟨accounted_revoke halive ?_, Or.inr (Or.inl (failed_revoke s))⟩
    rcases h.2 with hall | hfailed | hbacked
    · simp [isAuthorized, hall] at hauthorized
    · rw [halive] at hfailed
      cases hfailed
    · exact hbacked

variable (env) in
theorem matched_stable : Stable env Matched where
  same e h := h.same (.of_core e)
  fail reason _ := Matched.fail _ reason
  revoke {s} _ _ _ := Or.inl (failed_revoke s)

/-! ### Releasing -/

theorem presentations_releasePresentation (s : SourceRelayAdapter) (x y : ClientSurfaceId) :
    (s.releasePresentation x).presentations.lookup y =
      if y = x then none else s.presentations.lookup y := by
  unfold releasePresentation
  split_ifs with hmem hy hy
  · rw [lookup_erase_eq, if_pos hy]
  · rw [lookup_erase_eq, if_neg hy]
  · rw [hy]
    exact lookup_eq_none.mpr hmem
  · rfl

theorem mem_releasePresentation {x y : ClientSurfaceId} :
    y ∈ (s.releasePresentation x).presentations ↔ y ≠ x ∧ y ∈ s.presentations := by
  rw [← lookup_isSome, presentations_releasePresentation, ← lookup_isSome]
  split_ifs with hy
  · simp [hy]
  · simp [hy]

theorem Accounted.releasePresentation (h : Accounted claims s) (x : ClientSurfaceId) :
    Accounted claims (s.releasePresentation x) := by
  unfold SourceRelayAdapter.releasePresentation
  split_ifs with hmem
  · refine ⟨?_, ?_, ?_⟩
    · intro y requested hy
      rw [lookup_erase_eq] at hy
      split_ifs at hy with hyx
      obtain ⟨hrequested, accepted, hlast, hclaim⟩ := h.recorded y requested hy
      refine ⟨hrequested, accepted, hlast, ?_⟩
      rw [show ([⟨x, .release⟩] : List ClientPresentationUpdate) =
        [x].map fun x => ⟨x, .release⟩ from rfl, applyUpdates_releases,
        if_neg (by simpa using hyx)]
      exact hclaim
    · intro y hy
      rw [show ([⟨x, .release⟩] : List ClientPresentationUpdate) =
        [x].map fun x => ⟨x, .release⟩ from rfl, applyUpdates_releases]
      split_ifs with hyx
      · rfl
      · refine h.absent y fun hin => hy (mem_erase.mpr ⟨?_, hin⟩)
        simpa using hyx
    · intro hfailed
      rw [h.failed hfailed] at hmem
      simp at hmem
  · exact h

/-! ### Claiming -/

theorem lastPresented_append (s : SourceRelayAdapter) (x y : ClientSurfaceId)
    (claim accepted : ClientPresentationClaim) :
    ({ s with presented := s.presented ++ [(x, claim, accepted)] } :
        SourceRelayAdapter).lastPresented y =
      if y = x then some (claim, accepted) else s.lastPresented y := by
  simp only [lastPresented, List.filter_append]
  split_ifs with hy
  · subst hy
    simp
  · have hne : (x == y) = false := beq_false_of_ne fun h => hy h.symm
    rw [List.filter_cons_of_neg (by simp [hne]), List.filter_nil, List.append_nil]

variable {x : ClientSurfaceId} {claim : ClientPresentationClaim}

/-- The port accepted a claim for a surface. -/
theorem Accounted.publishClaim (h : Accounted claims s) (halive : s.failed = false)
    {accepted : ClientPresentationClaim} (hclaim : claim ≠ .release)
    (haccepted : accepted ≠ .release) :
    Accounted claims ((s.recordClaim x claim).publishClaim x claim accepted) where
  recorded y requested hy := by
    have hlast : ((s.recordClaim x claim).publishClaim x claim accepted).lastPresented y =
      if y = x then some (claim, accepted) else s.lastPresented y := lastPresented_append s x y _ _
    simp only [recordClaim, SourceRelayAdapter.publishClaim, lookup_insert_eq] at hy ⊢
    rw [applyUpdates_claim _ _ _ _ haccepted]
    split_ifs at hy ⊢ with hyx
    · cases hy
      rw [if_pos hyx] at hlast
      exact ⟨hclaim, accepted, hlast, rfl⟩
    · rw [if_neg hyx] at hlast
      obtain ⟨hrequested, accepted', hold, hheld⟩ := h.recorded y requested hy
      exact ⟨hrequested, accepted', hlast.trans hold, hheld⟩
  absent y hy := by
    have hyx : y ≠ x ∧ y ∉ s.presentations := by
      simpa [recordClaim, SourceRelayAdapter.publishClaim] using hy
    simp only [recordClaim, SourceRelayAdapter.publishClaim]
    rw [applyUpdates_claim _ _ _ _ haccepted, if_neg hyx.1]
    exact h.absent y hyx.2
  failed hfailed := by
    simp only [recordClaim, SourceRelayAdapter.publishClaim] at hfailed
    rw [halive] at hfailed
    cases hfailed

/-- The claim is the one the surface has already. -/
theorem Accounted.recordSame (h : Accounted claims s) (halive : s.failed = false)
    (hsame : s.presentations.lookup x = some claim) : Accounted claims (s.recordClaim x claim) where
  recorded y requested hy := by
    refine h.recorded y requested ?_
    simp only [recordClaim, lookup_insert_eq] at hy
    split_ifs at hy with hyx
    · rw [hyx, hsame, hy]
    · exact hy
  absent y hy := h.absent y fun hin => hy ((mem_insert _).mpr (Or.inr hin))
  failed hfailed := by
    simp only [recordClaim] at hfailed
    rw [halive] at hfailed
    cases hfailed

/-- Whatever the port says, the claims stay accounted for. -/
theorem Accounted.claimPresentation (h : Accounted claims s) (halive : s.failed = false)
    (hclaim : claim ≠ .release) (x : ClientSurfaceId) :
    Accounted claims (s.claimPresentation env claim x).1 := by
  unfold SourceRelayAdapter.claimPresentation
  split_ifs with hsame
  · exact h.recordSame halive hsame
  · cases hport : env.setPresentation s.calls x claim with
    | error reason =>
        refine accounted_fail (s := (s.recordClaim x claim).tick) halive ?_ _
        intro y hy
        exact h.absent y fun hin => hy ((mem_insert _).mpr (Or.inr hin))
    | ok accepted =>
        have haccepted := env.claims _ _ _ _ hclaim hport
        exact (h.publishClaim (x := x) halive hclaim haccepted).same (SameClaims.tick _)

variable (env) in
/-- Unless the relay fails, the surface has a claim afterwards and no other surface gains or loses
one; nothing is mapped or unmapped. -/
theorem claimPresentation_cases (s : SourceRelayAdapter) (claim : ClientPresentationClaim)
    (x : ClientSurfaceId) :
    (s.claimPresentation env claim x).1.failed = true ∨
      ((∀ y, y ∈ (s.claimPresentation env claim x).1.presentations ↔ y = x ∨ y ∈ s.presentations) ∧
        (s.claimPresentation env claim x).1.mappings = s.mappings) := by
  unfold SourceRelayAdapter.claimPresentation
  split_ifs with hsame
  · exact Or.inr ⟨fun y => mem_insert _, rfl⟩
  · cases hport : env.setPresentation s.calls x claim with
    | error reason => exact Or.inl (failed_fail _ _)
    | ok accepted => exact Or.inr ⟨fun y => mem_insert _, rfl⟩

theorem Covered.setPresentationBody (h : Covered claims env s) (hclaim : claim ≠ .release)
    (x : ClientSurfaceId) : Covered claims env (setPresentationBody env claim s x).1 := by
  have hc := Covered.stable.checkAccess h
  unfold SourceRelayAdapter.setPresentationBody
  simp only []
  split_ifs with hgo
  · rw [Bool.and_eq_true] at hgo
    obtain ⟨halive, heq⟩ := checkAccess_live hgo.1
    have hlive : (s.checkAccess env).1.failed = false := by
      rw [heq]
      exact halive
    refine ⟨hc.1.claimPresentation hlive hclaim x, ?_⟩
    rcases claimPresentation_cases env (s.checkAccess env).1 claim x with hdead | ⟨hmem, -⟩
    · exact Or.inr (Or.inl hdead)
    · rcases hc.2 with hall | hfailed | hbacked
      · exact Or.inl hall
      · rw [hlive] at hfailed
        cases hfailed
      · exact Or.inr (Or.inr fun y hy => (hmem y).mpr (Or.inr (hbacked y hy)))
  · exact hc

/-- Apart from one surface, the surfaces with a claim are the mapped ones. -/
def MatchedBut (x : ClientSurfaceId) (s : SourceRelayAdapter) : Prop :=
  s.failed = true ∨ ∀ y, y ≠ x → (y ∈ s.presentations ↔ y ∈ s.mappings)

/-- Claiming for a mapped surface restores the match there. -/
theorem MatchedBut.setPresentationBody (h : MatchedBut x s) (hx : x ∈ s.mappings)
    (claim : ClientPresentationClaim) : Matched (setPresentationBody env claim s x).1 := by
  unfold SourceRelayAdapter.setPresentationBody
  simp only []
  split_ifs with hgo
  · rcases claimPresentation_cases env (s.checkAccess env).1 claim x with
      hdead | ⟨hmem, hmappings⟩
    · exact Or.inl hdead
    · rw [Bool.and_eq_true, decide_eq_true_eq] at hgo
      obtain ⟨halive, heq⟩ := checkAccess_live hgo.1
      refine Or.inr fun y => ?_
      rw [hmem, hmappings]
      by_cases hy : y = x
      · rw [hy]
        exact iff_of_true (Or.inl rfl) hgo.2
      · rcases h with hfailed | hbut
        · rw [halive] at hfailed
          cases hfailed
        · have hsame := hbut y hy
          rw [heq]
          exact ⟨fun h => hsame.mp (h.resolve_left hy), fun h => Or.inr (hsame.mpr h)⟩
  · rcases hlive : (s.checkAccess env).2 with - | -
    · exact Or.inl (failed_of_not_live hlive)
    · obtain ⟨-, heq⟩ := checkAccess_live hlive
      rw [hlive, heq] at hgo
      exact absurd (decide_eq_true hx) hgo

theorem Matched.setPresentationBody (h : Matched s) (claim : ClientPresentationClaim)
    (x : ClientSurfaceId) : Matched (setPresentationBody env claim s x).1 := by
  by_cases hx : x ∈ (s.checkAccess env).1.mappings
  · rw [mappings_checkAccess] at hx
    refine MatchedBut.setPresentationBody ?_ hx claim
    exact h.imp_right fun hsame y _ => hsame y
  · have hc := (matched_stable env).checkAccess h
    unfold SourceRelayAdapter.setPresentationBody
    simp only [hx, decide_false, Bool.and_false, Bool.false_eq_true, if_false]
    exact hc

/-- Claiming for a mapped surface and its popups. -/
theorem Covered.setPresentation (h : Covered claims env s) (hmatched : MatchedBut x s)
    (hx : x ∈ s.mappings ∨ Matched s) (hclaim : claim ≠ .release) :
    Covered claims env (s.setPresentation env x claim) ∧
      Matched (s.setPresentation env x claim) := by
  rw [SourceRelayAdapter.setPresentation, Cascade.run_succ]
  have hfirst : Matched (SourceRelayAdapter.setPresentationBody env claim s x).1 := by
    rcases hx with hx | hall
    · exact hmatched.setPresentationBody hx claim
    · exact hall.setPresentationBody claim x
  -- from the first level on, every level meets a state that matches
  refine Cascade.foldl_invariant (P := fun t => Covered claims env t ∧ Matched t) ?_
    ⟨h.setPresentationBody hclaim x, hfirst⟩
  intro t y _ ht
  refine Cascade.run_invariant (P := fun t => Covered claims env t ∧ Matched t) ?_ _ y ht
  intro u z hu
  exact ⟨hu.1.setPresentationBody hclaim z, hu.2.setPresentationBody claim z⟩

theorem initialClaim_ne_release (h : Accounted claims s) (role : ClientSurfaceRole) :
    s.initialClaim role ≠ .release := by
  unfold initialClaim
  cases howner : role.popupOwner.bind fun owner => s.presentations.lookup owner with
  | none => exact nofun
  | some claim =>
      obtain ⟨owner, -, hlookup⟩ := Option.bind_eq_some_iff.mp howner
      exact (h.recorded owner claim hlookup).1

/-- Covered claims, and the surfaces with a claim are the mapped ones. -/
def Kept (claims : ClientSurfaceId → Option ClientPresentationClaim) (env : SourceEnvironment)
    (s : SourceRelayAdapter) : Prop :=
  Covered claims env s ∧ Matched s

theorem Kept.same (e : SameClaims s t) (h : Kept claims env s) : Kept claims env t :=
  ⟨⟨h.1.1.same e, h.1.2.same e⟩, h.2.same e⟩

theorem Kept.stable : Stable env (Kept claims env) where
  same e h := ⟨Covered.stable.same e h.1, h.2.same (.of_core e)⟩
  fail reason h := ⟨Covered.stable.fail reason h.1, Matched.fail _ reason⟩
  revoke halive hauthorized h :=
    ⟨Covered.stable.revoke halive hauthorized h.1, Or.inl (failed_revoke _)⟩

theorem Kept.setPresentation (h : Kept claims env s) (x : ClientSurfaceId)
    (hclaim : claim ≠ .release) : Kept claims env (s.setPresentation env x claim) :=
  h.1.setPresentation (h.2.imp_right fun hsame y _ => hsame y) (Or.inr h.2) hclaim

/-- A surface is enlisted before it gets its claim. -/
theorem Kept.mapAdmitted (h : Kept claims env s) (session : HoistSessionId)
    (source : ClientSurfaceId) (role : ClientSurfaceRole) :
    Kept claims env (s.mapAdmitted env session source role).1 := by
  have hcovered : Covered claims env (s.enlist session source) := by
    refine ⟨⟨h.1.1.recorded, h.1.1.absent, h.1.1.failed⟩, ?_⟩
    exact h.1.2
  have hbut : MatchedBut source (s.enlist session source) := by
    refine h.2.imp_right fun hsame y hy => ?_
    rw [enlist, mem_insert]
    exact (hsame y).trans ⟨Or.inr, fun h => h.resolve_left hy⟩
  have hmem : source ∈ (s.enlist session source).mappings := (mem_insert _).mpr (Or.inl rfl)
  have hclaim := initialClaim_ne_release hcovered.1 role
  have hset : Kept claims env _ := hcovered.setPresentation hbut (Or.inl hmem) hclaim
  have hsubmit := Kept.stable.submit hset (.mapSurface session source)
  unfold SourceRelayAdapter.mapAdmitted
  simp only []
  split_ifs
  · have hreplay := Kept.stable.replay hsubmit session source
    exact Kept.stable.tick (Kept.stable.queueCursor hreplay source)
  · exact hsubmit

theorem Kept.map (h : Kept claims env s) (session : HoistSessionId) (source : ClientSurfaceId) :
    Kept claims env (s.map env session source) := by
  refine Cascade.run_invariant (P := Kept claims env) ?_ _ source h
  intro t y ht
  have hc := Kept.stable.checkAccess ht
  unfold mapBody
  simp only []
  split_ifs
  · unfold mapLive
    have htick := Kept.stable.tick hc
    split_ifs
    · split
      · exact Kept.stable.same (s := (t.checkAccess env).1.tick)
          ⟨rfl, rfl, rfl, rfl, rfl, rfl, rfl⟩ htick
      · split_ifs
        · exact htick.mapAdmitted session y _
        · exact htick
    · exact htick
  · exact hc

/-! ### Taking surfaces away -/

/-- Accounted claims on the mapped surfaces, whatever a revocation would do to them. -/
def Settled (claims : ClientSurfaceId → Option ClientPresentationClaim) (s : SourceRelayAdapter) :
    Prop :=
  Accounted claims s ∧ Matched s

theorem Settled.same (e : SameClaims s t) (h : Settled claims s) : Settled claims t :=
  ⟨h.1.same e, h.2.same e⟩

section

variable (h : Settled claims s)
include h

variable (env) in
theorem Settled.submit (command : SourcePortCommand) : Settled claims (s.submit env command).1 := by
  unfold SourceRelayAdapter.submit
  split
  · exact Settled.same (s := s) ⟨rfl, rfl, rfl, rfl, rfl⟩ h
  · exact ⟨(h.1.same (SameClaims.tick s)).fail _, Matched.fail _ _⟩

variable (env) in
theorem Settled.withdraw (x : ClientSurfaceId) : Settled claims (s.withdraw env x) := by
  have hlist : Accounted claims (s.unlist x) := ⟨h.1.recorded, h.1.absent, h.1.failed⟩
  have hrelease := hlist.releasePresentation x
  obtain ⟨-, -, hmappings, hfailed, -, -⟩ := releasePresentation_eq (s.unlist x) x
  refine ⟨⟨hrelease.recorded, hrelease.absent, hrelease.failed⟩, ?_⟩
  rcases h.2 with hdead | hsame
  · exact Or.inl (hfailed.trans hdead)
  · refine Or.inr fun y => ?_
    change y ∈ ((s.unlist x).releasePresentation x).presentations ↔
      y ∈ ((s.unlist x).releasePresentation x).mappings
    rw [mem_releasePresentation, hmappings, unlist, mem_erase]
    exact and_congr_right fun _ => hsame y

theorem Settled.unmapBody (x : ClientSurfaceId) : Settled claims (unmapBody env s x).1 := by
  have hdrop : Settled claims (s.dropReservation x) :=
    Settled.same (s := s) ⟨rfl, rfl, rfl, rfl, rfl⟩ h
  simp only [SourceRelayAdapter.unmapBody]
  split
  · exact hdrop
  · have hsubmit := (hdrop.withdraw env x).submit env
    split_ifs
    · exact (hsubmit _).same (SameClaims.tick _)
    · exact hsubmit _

theorem Settled.unmap (x : ClientSurfaceId) : Settled claims (s.unmap env x) :=
  Cascade.run_invariant (P := Settled claims) (fun _ y ht => ht.unmapBody y) _ x h

end

end Account

/-! ### Destroying a surface -/

namespace SourceRelayAdapter

/-- A mapped popup of a surface. -/
def MappedPopup (s : SourceRelayAdapter) (popup owner : ClientSurfaceId) : Prop :=
  popup ∈ s.mappings ∧ s.popupOwnerOf popup = some owner

/-- A surface is another one, or a mapped popup of it, or of one of those. -/
def Descends (s : SourceRelayAdapter) : ClientSurfaceId → ClientSurfaceId → Prop :=
  Relation.ReflTransGen s.MappedPopup

theorem cache_releasePresentation (s : SourceRelayAdapter) (x : ClientSurfaceId) :
    (s.releasePresentation x).cache = s.cache := by
  unfold releasePresentation
  split_ifs <;> rfl

theorem popupOwnerOf_withdraw (env : SourceEnvironment) (s : SourceRelayAdapter)
    (x : ClientSurfaceId) : (s.withdraw env x).popupOwnerOf = s.popupOwnerOf := by
  funext y
  have hcache : (s.withdraw env x).cache = s.cache.modify x fun cached =>
      { cached with sentCursor := none, sentMetadata := none } := by
    have hrelease := cache_releasePresentation (s.unlist x) x
    simp only [withdraw, resetScale, releaseInput, forgetSent]
    rw [hrelease]
    rfl
  unfold popupOwnerOf roleOf
  rw [hcache, lookup_modify]
  split_ifs
  · cases s.cache.lookup y <;> rfl
  · rfl

end SourceRelayAdapter

section Destroy

variable {claims : ClientSurfaceId → Option ClientPresentationClaim} {env : SourceEnvironment}
  {s t : SourceRelayAdapter}

/-- While the popups of a destroyed surface are unmapped, only its descendants lose anything. -/
structure Shrunk (s : SourceRelayAdapter) (source : ClientSurfaceId) (t : SourceRelayAdapter) :
    Prop where
  owners : ∀ y z, t.popupOwnerOf y = some z → s.popupOwnerOf y = some z
  mappings : ∀ y ∈ t.mappings, y ∈ s.mappings
  presentations : t.failed = true ∨
    ∀ y ∈ s.presentations, ¬ s.Descends y source → y ∈ t.presentations

theorem popupOwnerOf_fail {reason : String} {y z : ClientSurfaceId}
    (h : (t.fail env reason).popupOwnerOf y = some z) : t.popupOwnerOf y = some z := by
  unfold SourceRelayAdapter.fail at h
  split_ifs at h
  · exact h
  · simp [popupOwnerOf, roleOf] at h

variable {source x : ClientSurfaceId}

section

variable (h : Shrunk s source t)
include h

theorem Shrunk.fail (reason : String) : Shrunk s source (t.fail env reason) where
  owners y z hy := h.owners y z (popupOwnerOf_fail hy)
  mappings y hy := h.mappings y (by rwa [mappings_fail] at hy)
  presentations := Or.inl (failed_fail t reason)

variable (env) in
theorem Shrunk.submit (command : SourcePortCommand) : Shrunk s source (t.submit env command).1 := by
  unfold SourceRelayAdapter.submit
  split
  · exact ⟨h.owners, h.mappings, h.presentations⟩
  · exact Shrunk.fail (t := t.tick) ⟨h.owners, h.mappings, h.presentations⟩ _

variable (env) in
theorem Shrunk.withdraw (hx : s.Descends x source) : Shrunk s source (t.withdraw env x) where
  owners y z hy := h.owners y z (by rwa [popupOwnerOf_withdraw] at hy)
  mappings y hy := by
    rw [mappings_withdraw] at hy
    exact h.mappings y (mem_erase.mp hy).2
  presentations := by
    obtain ⟨-, -, -, hfailed, -, -⟩ := releasePresentation_eq (t.unlist x) x
    rcases h.presentations with hdead | hkept
    · exact Or.inl (hfailed.trans hdead)
    · refine Or.inr fun y hy hnot => ?_
      have hne : y ≠ x := by
        rintro rfl
        exact hnot hx
      exact mem_releasePresentation.mpr ⟨hne, hkept y hy hnot⟩

theorem Shrunk.unmapBody (hx : x ∈ s.mappings → s.Descends x source) :
    Shrunk s source (unmapBody env t x).1 ∧
      ∀ y ∈ (SourceRelayAdapter.unmapBody env t x).2, y ∈ s.mappings → s.Descends y source := by
  have hdrop : Shrunk s source (t.dropReservation x) := ⟨h.owners, h.mappings, h.presentations⟩
  simp only [SourceRelayAdapter.unmapBody]
  split
  · exact ⟨hdrop, fun _ hy => absurd hy List.not_mem_nil⟩
  · rename_i session hlookup
    have hdescends : s.Descends x source := by
      refine hx (h.mappings x ?_)
      exact mem_of_lookup hlookup
    have hsubmit := (hdrop.withdraw env hdescends).submit env (.withdrawSurface session x)
    split_ifs
    · refine ⟨⟨hsubmit.owners, hsubmit.mappings, hsubmit.presentations⟩, ?_⟩
      intro y hy hmem
      have howner := (List.mem_filter.mp hy).2
      rw [decide_eq_true_eq] at howner
      exact Relation.ReflTransGen.head ⟨hmem, hsubmit.owners y x howner⟩ hdescends
    · exact ⟨hsubmit, fun _ hy => absurd hy List.not_mem_nil⟩

theorem Shrunk.unmap (hx : x ∈ s.mappings → s.Descends x source) : Shrunk s source (t.unmap env x) :=
  Cascade.run_invariant_of (P := Shrunk s source)
    (Q := fun y => y ∈ s.mappings → s.Descends y source) (fun _ _ ht hy => ht.unmapBody hy) _ h hx

end

/-- Destroying a surface loses no release: either nothing is revoked, or no claim the host has
drained is on the surface or on one that is unmapped with it. -/
def Parted (claims : ClientSurfaceId → Option ClientPresentationClaim) (env : SourceEnvironment)
    (s : SourceRelayAdapter) (source : ClientSurfaceId) : Prop :=
  (∀ i, env.authorized i = true) ∨
    (source ∈ s.mappings → ∀ y, claims y ≠ none → ¬ s.Descends y source)

variable (env) in
/-- The state a destroyed surface is sent in: its popups are unmapped, its claim and its input are
released. -/
theorem Settled.unmapPopups (h : Settled claims s) (source : ClientSurfaceId) :
    let t := (s.cachedPopups env source).foldl (fun s child => s.unmap env child)
      (s.dropReservation source).tick
    Settled claims t ∧ Shrunk s source t := by
  have hdrop : Settled claims (s.dropReservation source).tick :=
    Settled.same (s := s) ⟨rfl, rfl, rfl, rfl, rfl⟩ h
  refine Cascade.foldl_invariant (P := fun t => Settled claims t ∧ Shrunk s source t) ?_
    ⟨hdrop, ⟨fun _ _ h => h, fun _ h => h, Or.inr fun _ h _ => h⟩⟩
  intro t child hchild ht
  refine ⟨ht.1.unmap child, ht.2.unmap fun hmem => ?_⟩
  have howner := (List.mem_filter.mp hchild).2
  rw [decide_eq_true_eq] at howner
  exact Relation.ReflTransGen.single ⟨hmem, howner⟩

variable (env) in
theorem Settled.sendDestroyed (h : Settled claims t) (source : ClientSurfaceId)
    (owns : ClientSurfaceId → Bool)
    (hlost : t.failed = false → source ∈ t.mappings → (∀ i, env.authorized i = true) ∨
      ∀ y, claims y ≠ none → y ≠ source ∧ y ∈ t.presentations) :
    Settled claims
      (((t.releasePresentation source).releaseInput env owns).sendDestroyed env source) := by
  obtain ⟨-, -, hmappings, hfailed, -, -⟩ := releasePresentation_eq t source
  have hrelease := h.1.releasePresentation source
  have hinput : Accounted claims ((t.releasePresentation source).releaseInput env owns) :=
    ⟨hrelease.recorded, hrelease.absent, hrelease.failed⟩
  unfold SourceRelayAdapter.sendDestroyed
  split
  · -- the source may have been unmapped with its popups
    rename_i session hlookup
    have hmem : source ∈ t.mappings := by
      rw [← hmappings]
      exact mem_of_lookup hlookup
    have hsettled : Settled claims
        (((t.releasePresentation source).releaseInput env owns).unlist source) := by
      refine ⟨⟨hinput.recorded, hinput.absent, hinput.failed⟩, ?_⟩
      rcases h.2 with hdead | hsame
      · exact Or.inl (hfailed.trans hdead)
      · refine Or.inr fun y => ?_
        change y ∈ (t.releasePresentation source).presentations ↔
          y ∈ (t.releasePresentation source).mappings.erase source
        rw [mem_releasePresentation, hmappings, mem_erase]
        exact and_congr_right fun _ => hsame y
    unfold SourceRelayAdapter.sendSurface SourceRelayAdapter.checkAccess
    split_ifs with hdead hauthorized
    · exact hsettled
    · exact Settled.submit env (hsettled.same (SameClaims.tick _)) _
    · refine ⟨accounted_revoke (eq_false_of_ne_true hdead) ?_, Or.inl (failed_revoke _)⟩
      have halive : t.failed = false := by
        rw [← hfailed]
        exact eq_false_of_ne_true hdead
      rcases hlost halive hmem with hall | hkept
      · simp [isAuthorized, hall] at hauthorized
      · intro y hy
        exact mem_releasePresentation.mpr (hkept y hy)
  · rename_i hlookup
    have hnot : source ∉ t.mappings := by
      rw [← hmappings]
      exact lookup_eq_none.mp hlookup
    refine ⟨hinput, ?_⟩
    rcases h.2 with hdead | hsame
    · exact Or.inl (hfailed.trans hdead)
    · refine Or.inr fun y => ?_
      change y ∈ (t.releasePresentation source).presentations ↔
        y ∈ (t.releasePresentation source).mappings
      rw [mem_releasePresentation, hmappings, hsame]
      refine ⟨And.right, fun hy => ⟨?_, hy⟩⟩
      rintro rfl
      exact hnot hy

theorem Kept.destroy (h : Kept claims env s) (halive : s.failed = false)
    (hparted : Parted claims env s source) : Settled claims (s.observeDestroyed env source) := by
  obtain ⟨hsettled, hshrunk⟩ := Settled.unmapPopups env ⟨h.1.1, h.2⟩ source
  have hsent := hsettled.sendDestroyed env source (· == source) ?_
  · refine Settled.same ?_ hsent
    exact ⟨rfl, rfl, rfl, rfl, rfl⟩
  intro hgoing hmem
  rcases hparted with hall | hparted
  · exact Or.inl hall
  · rcases h.1.2 with hall | hdead | hbacked
    · exact Or.inl hall
    · rw [halive] at hdead
      cases hdead
    · refine Or.inr fun y hy => ?_
      have hnot := hparted (hshrunk.mappings _ hmem) y hy
      refine ⟨?_, ?_⟩
      · rintro rfl
        exact hnot Relation.ReflTransGen.refl
      · rcases hshrunk.presentations with hdead | hkept
        · rw [hgoing] at hdead
          cases hdead
        · exact hkept y (hbacked y hy) hnot

end Destroy

/-! ### One call -/

section Step

variable {claims : ClientSurfaceId → Option ClientPresentationClaim} {env : SourceEnvironment}
  {s : SourceRelayAdapter}

theorem Kept.deliver (h : Kept claims env s) (envelope : DestinationEnvelope) :
    Kept claims env (s.deliver env envelope.message).1 := by
  have htick := Kept.stable.tick h
  unfold SourceRelayAdapter.deliver
  simp only []
  split_ifs
  · exact h
  · split
    · exact Kept.stable.fail _ htick
    · unfold applyAccepted
      split
      · exact htick
      · refine htick.setPresentation _ ?_
        split <;> exact nofun
      · exact Kept.same (s := s.tick) ⟨rfl, rfl, rfl, rfl, rfl⟩ htick
      · exact Kept.same (s := s.tick) ⟨rfl, rfl, rfl, rfl, rfl⟩ htick
      all_goals exact htick

/-- Kept claims are an invariant, up to the surfaces that are taken away. -/
theorem Kept.invariant (claims : ClientSurfaceId → Option ClientPresentationClaim)
    (env : SourceEnvironment) : Invariant env (fun _ _ => True)
      (fun s source => s.failed = false ∧ Parted claims env s source) (Kept claims env)
      (Settled claims) where
  toStable := Kept.stable
  weaken h := ⟨h.1.1, h.2⟩
  sameQ e h := h.same (.of_core e)
  connect {s} h := Kept.same (s := s) ⟨rfl, rfl, rfl, rfl, rfl⟩ h
  release {s} _ h := Kept.same (s := s) ⟨rfl, rfl, rfl, rfl, rfl⟩ h
  map session source h := h.map session source
  unmap source h := Settled.unmap ⟨h.1.1, h.2⟩ source
  destroy _ hgone h := h.destroy hgone.1 hgone.2
  deliver envelope _ _ _ h := h.deliver envelope

end Step

namespace HostedRelay

/-- The call never notices a revocation, or the relay still has every claim the host has drained;
a surface that is destroyed meets `Parted` in addition. -/
def KeepsReleases (h : HostedRelay) (e : HostCall) : Prop :=
  match e.call with
  | .unmap _ | .releaseInput _ | .installAccess => True
  | .observe ⟨surface, .destroyed⟩ =>
      Backed h.claims e.env h.relay ∧
        (h.relay.failed = false → Parted h.claims e.env h.relay surface)
  | _ => Backed h.claims e.env h.relay

/-- The claims the host has drained and those still queued are accounted for. -/
def ClaimsSettled (h : HostedRelay) : Prop := Settled h.claims h.relay

theorem claimsSettled_new (upstreamSource : ClientSourceId) (admission : SourceAdmission)
    (provider : Bool) : (new upstreamSource admission provider).ClaimsSettled := by
  refine ⟨⟨?_, fun _ _ => rfl, fun _ => rfl⟩, Or.inr fun _ => Iff.rfl⟩
  intro x requested hx
  simp [new] at hx

/-- What a drain hands to the host is accounted for at the host. -/
theorem Settled.takeUpdates {claims : ClientSurfaceId → Option ClientPresentationClaim}
    {s : SourceRelayAdapter} (h : Settled claims s) :
    Settled (applyUpdates claims s.takeUpdates.2) s.takeUpdates.1 :=
  ⟨⟨h.1.recorded, h.1.absent, h.1.failed⟩, h.2⟩

/-- **One call keeps the claims accounted for.** -/
theorem claimsSettled_step {h : HostedRelay} (hin : h.ClaimsSettled) {e : HostCall}
    (hok : KeepsReleases h e) : (h.step e).ClaimsSettled := by
  obtain ⟨env, call⟩ := e
  have hinv := Kept.invariant h.claims env
  have h0 : Settled h.claims { h.relay with calls := 0 } :=
    Settled.same (s := h.relay) ⟨rfl, rfl, rfl, rfl, rfl⟩ hin
  have hkept : Backed h.claims env h.relay → Kept h.claims env h.relay :=
    fun hb => ⟨⟨hin.1, hb⟩, hin.2⟩
  cases call with
  | installAccess =>
      change Settled h.claims (({ h.relay with calls := 0 } : SourceRelayAdapter).installAccess env)
      unfold SourceRelayAdapter.installAccess
      split_ifs
      · exact ⟨h0.1.fail _, Matched.fail _ _⟩
      · exact Settled.same (s := h.relay) ⟨rfl, rfl, rfl, rfl, rfl⟩ hin
  | map session source => exact hinv.step (hkept hok) (.map session source) trivial nofun nofun
  | unmap source =>
      change Settled h.claims (({ h.relay with calls := 0 } : SourceRelayAdapter).command
        fun s => s.unmap env source)
      unfold command
      split_ifs
      · exact h0
      · exact h0.unmap source
  | observe event =>
      obtain ⟨surface, kind⟩ := event
      cases kind with
      | destroyed =>
          refine hinv.step (hkept hok.1) (.observe ⟨surface, .destroyed⟩) ?_ nofun nofun
          intro hlive
          obtain ⟨halive, heq⟩ := checkAccess_live hlive
          rw [heq]
          exact ⟨halive, hok.2 halive⟩
      | metadata metadata =>
          exact hinv.step (hkept hok) (.observe ⟨surface, .metadata metadata⟩) trivial nofun nofun
      | role role => exact hinv.step (hkept hok) (.observe ⟨surface, .role role⟩) trivial nofun nofun
      | commit commit =>
          exact hinv.step (hkept hok) (.observe ⟨surface, .commit commit⟩) trivial nofun nofun
      | interaction i =>
          exact hinv.step (hkept hok) (.observe ⟨surface, .interaction i⟩) trivial nofun nofun
      | stateRequest r =>
          exact hinv.step (hkept hok) (.observe ⟨surface, .stateRequest r⟩) trivial nofun nofun
  | observeCursorUpdate update =>
      exact hinv.step (hkept hok) (.observeCursorUpdate update) trivial nofun nofun
  | observeRetiredBuffer buffer =>
      exact hinv.step (hkept hok) (.observeRetiredBuffer buffer) trivial nofun nofun
  | releaseInput owns => exact Settled.same (s := h.relay) ⟨rfl, rfl, rfl, rfl, rfl⟩ hin
  | poll polled =>
      refine hinv.step (hkept hok) (.poll polled) ?_ nofun nofun
      cases polled with
      | error reason => trivial
      | ok envelopes => exact along_of_forall (fun _ _ => trivial) _ _
  | drainPresentationClaims =>
      have h0' : Kept h.claims env { h.relay with calls := 0 } :=
        Kept.same (s := h.relay) ⟨rfl, rfl, rfl, rfl, rfl⟩ (hkept hok)
      have hc := Kept.stable.checkAccess h0'
      exact Settled.takeUpdates ⟨hc.1.1, hc.2⟩
  | drainEffects =>
      have h0' : Kept h.claims env { h.relay with calls := 0 } :=
        Kept.same (s := h.relay) ⟨rfl, rfl, rfl, rfl, rfl⟩ (hkept hok)
      have hc := Kept.stable.checkAccess h0'
      refine Settled.same ?_ ⟨hc.1.1, hc.2⟩
      exact ⟨rfl, rfl, rfl, rfl, rfl⟩

/-- Surroundings in which the access session was revoked. -/
def revoked : SourceEnvironment := { authorized := fun _ => false }

def hoisted : ClientSurfaceId := ⟨⟨0, 0⟩, 1⟩

/-- A window is mapped under an access session and its claim is drained. -/
def claimRun : List HostCall :=
  [⟨{}, .installAccess⟩, ⟨{}, .observe ⟨hoisted, .role (.toplevel {})⟩⟩, ⟨{}, .map 1 hoisted⟩,
    ⟨{}, .drainPresentationClaims⟩]

/-- The window is unmapped before the revocation is noticed. -/
def strandingRun : List HostCall :=
  claimRun ++ [⟨{}, .unmap hoisted⟩, ⟨revoked, .drainPresentationClaims⟩]

end HostedRelay

end Hoist
