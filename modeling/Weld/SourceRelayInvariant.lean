/-
**Invariants of the source relay.**

Most of what the relay does concerns neither its presentation claims nor its input ledger: cursors
are queued, events forwarded, gamepad requests passed on.  What all of that can do to the claims
and the ledger is nothing, or failing, or noticing that the access session was revoked.  A property
that survives these and the handful of operations that do touch claims or ledger survives every
call of the host.

Main definitions: `SourceRelayAdapter.SameCore`, `Stable`, `SourceRelayAdapter.Along`, `Invariant`.

Main results:

* `Invariant.step` — an invariant survives every call whose messages meet its condition.
-/

import Weld.SourceRelay

namespace Hoist

open Client Gamepad

variable (s : SourceRelayAdapter)

namespace SourceRelayAdapter

/-- The two states have the same claims, mappings and ledger, and queued the same for the host. -/
structure SameCore (s t : SourceRelayAdapter) : Prop where
  effects : t.effects = s.effects
  remoteInput : t.remoteInput = s.remoteInput
  presentations : t.presentations = s.presentations
  presentationUpdates : t.presentationUpdates = s.presentationUpdates
  presented : t.presented = s.presented
  mappings : t.mappings = s.mappings
  failed : t.failed = s.failed

variable {env : SourceEnvironment}

/-- A relay that passes the access check has not failed, and only a question was asked. -/
theorem checkAccess_live {s : SourceRelayAdapter} (h : (s.checkAccess env).2 = true) :
    s.failed = false ∧ (s.checkAccess env).1 = s.tick := by
  unfold checkAccess at h ⊢
  split_ifs at h ⊢ with hfailed hauthorized
  exact ⟨by simpa using hfailed, rfl⟩

@[simp] theorem failed_fail (reason : String) : (s.fail env reason).failed = true := by
  unfold fail
  split_ifs with hfailed
  · exact hfailed
  · rfl

/-- A relay that does not pass the access check has failed. -/
theorem failed_of_not_live {s : SourceRelayAdapter} (h : (s.checkAccess env).2 = false) :
    (s.checkAccess env).1.failed = true := by
  unfold checkAccess at h ⊢
  split_ifs at h ⊢ with hfailed hauthorized
  · exact hfailed
  · exact failed_fail _ _

theorem SameCore.tick : SameCore s s.tick :=
  ⟨rfl, rfl, rfl, rfl, rfl, rfl, rfl⟩

/-- `ok` holds of every message of a batch in the state that meets it. -/
def Along (env : SourceEnvironment) (ok : SourceRelayAdapter → DestinationEnvelope → Prop) :
    SourceRelayAdapter → List DestinationEnvelope → Prop
  | _, [] => True
  | s, envelope :: envelopes =>
      ok (s.checkAccess env).1 envelope ∧ ((s.acceptDestination env envelope).2 = true →
        Along env ok (s.acceptDestination env envelope).1 envelopes)

/-- A message that may be delivered: it is about no surface, or about one that is mapped under the
session of the message. -/
def Deliverable (s : SourceRelayAdapter) (envelope : DestinationEnvelope) : Prop :=
  ∀ surface, s.messageTarget envelope.message = some surface →
    s.mappings.lookup surface = some envelope.session

/-- The condition on a call: every message it accepts meets `ok`, and a surface it reports destroyed
meets `gone`. -/
def Admits (env : SourceEnvironment) (ok : SourceRelayAdapter → DestinationEnvelope → Prop)
    (gone : SourceRelayAdapter → ClientSurfaceId → Prop) (s : SourceRelayAdapter) :
    SourceCall → Prop
  | .poll (.ok envelopes) =>
      Along env ok ((({ s with calls := 0 } : SourceRelayAdapter).beginPoll env).prepareBatch env)
        envelopes
  | .observe ⟨surface, .destroyed⟩ =>
      (({ s with calls := 0 } : SourceRelayAdapter).checkAccess env).2 = true →
        gone (({ s with calls := 0 } : SourceRelayAdapter).checkAccess env).1 surface
  | _ => True

theorem along_of_forall {ok : SourceRelayAdapter → DestinationEnvelope → Prop} (h : ∀ s e, ok s e)
    (s : SourceRelayAdapter) (envelopes : List DestinationEnvelope) : Along env ok s envelopes := by
  induction envelopes generalizing s with
  | nil => trivial
  | cons e envelopes ih => exact ⟨h _ e, fun _ => ih _⟩

end SourceRelayAdapter

open SourceRelayAdapter

/-! ### Stable properties -/

/-- A property of the core that survives failing and the loss of authorization. -/
structure Stable (env : SourceEnvironment) (P : SourceRelayAdapter → Prop) : Prop where
  same : ∀ {s t}, SameCore s t → P s → P t
  fail : ∀ {s} (reason : String), P s → P (s.fail env reason)
  revoke : ∀ {s}, s.failed = false → s.isAuthorized env = false → P s → P (s.revoke env)

namespace Stable

variable {env : SourceEnvironment} {P : SourceRelayAdapter → Prop} (hP : Stable env P)
include hP

variable {s : SourceRelayAdapter}

section

variable (h : P s)
include h

theorem tick : P s.tick := hP.same (SameCore.tick s) h

theorem checkAccess : P (s.checkAccess env).1 := by
  unfold SourceRelayAdapter.checkAccess
  split_ifs with hfailed hauthorized
  · exact h
  · exact hP.tick h
  · exact hP.revoke (by simpa using hfailed) (by simpa using hauthorized) h

theorem submit (command : SourcePortCommand) : P (s.submit env command).1 := by
  unfold SourceRelayAdapter.submit
  split
  · exact hP.same (s := s) ⟨rfl, rfl, rfl, rfl, rfl, rfl, rfl⟩ h
  · exact hP.fail _ (hP.tick h)

theorem gamepadStatus (status : Option GamepadStatus) : P (s.gamepadStatus env status) := by
  cases status with
  | none => exact h
  | some status => exact hP.submit h _

theorem sendSurface (session : HoistSessionId) (event : ClientSurfaceEvent) :
    P (s.sendSurface env session event) := by
  have hc := hP.checkAccess h
  simp only [SourceRelayAdapter.sendSurface]
  split_ifs
  · exact hP.submit hc _
  · exact hc

theorem transmitCursor (session : HoistSessionId) (surface : ClientSurfaceId) (cursor : ClientCursor) :
    P (s.transmitCursor env session surface cursor) := by
  unfold SourceRelayAdapter.transmitCursor
  split
  · exact hP.fail _ h
  · refine hP.submit ?_ _
    exact hP.same (s := s) ⟨rfl, rfl, rfl, rfl, rfl, rfl, rfl⟩ h

theorem sendPending (pending : List ClientSurfaceId) : P (s.sendPending env pending) := by
  induction pending with
  | nil => exact hP.same (s := s) ⟨rfl, rfl, rfl, rfl, rfl, rfl, rfl⟩ h
  | cons surface pending ih =>
      simp only [SourceRelayAdapter.sendPending]
      split
      · exact ih
      · refine hP.transmitCursor ?_ _ _ _
        exact hP.same (s := s) ⟨rfl, rfl, rfl, rfl, rfl, rfl, rfl⟩ h

theorem sendNextCursor : P (s.sendNextCursor env) := by
  have hc := hP.checkAccess h
  simp only [SourceRelayAdapter.sendNextCursor]
  split_ifs
  · exact hc
  · exact hP.sendPending hc _

theorem queueCursor (surface : ClientSurfaceId) : P (s.queueCursor env surface) := by
  unfold SourceRelayAdapter.queueCursor
  split_ifs
  · exact h
  all_goals
    refine hP.sendNextCursor ?_
    exact hP.same (s := s) ⟨rfl, rfl, rfl, rfl, rfl, rfl, rfl⟩ h

theorem replay (session : HoistSessionId) (source : ClientSurfaceId) : P (s.replay env session source) := by
  have hrole : ∀ role, P (s.replayRole env session source role) := by
    intro role
    cases role with
    | none => exact h
    | some role => exact hP.sendSurface h _ _
  have hmeta : ∀ {t : SourceRelayAdapter} metadata, P t →
      P (t.replayMetadata env session source metadata) := by
    intro t metadata ht
    cases metadata with
    | none => exact ht
    | some metadata =>
        refine hP.sendSurface ?_ _ _
        exact hP.same (s := t) ⟨rfl, rfl, rfl, rfl, rfl, rfl, rfl⟩ ht
  have hcommit : ∀ {t : SourceRelayAdapter} commit, P t →
      P (t.replayCommit env session source commit) := by
    intro t commit ht
    cases commit with
    | none => exact ht
    | some commit => exact hP.sendSurface ht _ _
  unfold SourceRelayAdapter.replay
  split
  · exact h
  · exact hcommit _ (hmeta _ (hrole _))

theorem expireGamepad (now : Instant) : P (s.expireGamepad env now) := by
  refine hP.gamepadStatus ?_ _
  exact hP.same (s := s) ⟨rfl, rfl, rfl, rfl, rfl, rfl, rfl⟩ h

theorem applyGamepad (request : GamepadRequest) (now : Instant) : P (s.applyGamepad env request now) := by
  refine hP.gamepadStatus ?_ _
  exact hP.same (s := s) ⟨rfl, rfl, rfl, rfl, rfl, rfl, rfl⟩ h

theorem acceptGamepad (session : HoistSessionId) (request : GamepadRequest) :
    P (s.acceptGamepad env session request).1 := by
  have hexpire := hP.expireGamepad (hP.tick h) (env.now s.tick.calls)
  simp only [SourceRelayAdapter.acceptGamepad]
  split_ifs
  · exact hP.fail _ (hP.tick h)
  · exact hexpire
  · exact hP.applyGamepad hexpire _ _

theorem acceptCursorReceived (session : HoistSessionId) (surface : ClientSurfaceId) (sequence : ℕ) :
    P (s.acceptCursorReceived env session surface sequence).1 := by
  unfold SourceRelayAdapter.acceptCursorReceived
  split
  · split_ifs
    · exact hP.fail _ h
    · exact h
  · split_ifs
    · exact h
    · exact hP.fail _ h
    · refine hP.sendNextCursor ?_
      exact hP.same (s := s) ⟨rfl, rfl, rfl, rfl, rfl, rfl, rfl⟩ h

theorem ignoreUnmapped (envelope : DestinationEnvelope) : P (s.ignoreUnmapped env envelope).1 := by
  unfold SourceRelayAdapter.ignoreUnmapped
  split_ifs
  · exact hP.submit h _
  · exact h

theorem beginPoll : P (s.beginPoll env) := by
  have hc := hP.checkAccess h
  simp only [SourceRelayAdapter.beginPoll]
  split_ifs
  · exact hP.expireGamepad hc _
  · exact hc

theorem finishPoll : P (s.finishPoll env) := by
  have hc := hP.checkAccess h
  simp only [SourceRelayAdapter.finishPoll]
  split_ifs
  · split
    · exact hP.tick hc
    · exact hP.fail _ (hP.tick hc)
  · exact hc

theorem remember (source : ClientSurfaceId) (f : CachedSurface → CachedSurface) : P (s.remember source f) :=
  hP.same (s := s) ⟨rfl, rfl, rfl, rfl, rfl, rfl, rfl⟩ h

theorem rememberCommit (source : ClientSurfaceId) (commit : ClientSurfaceCommit) :
    P (s.rememberCommit source commit) :=
  hP.same (s := s) ⟨rfl, rfl, rfl, rfl, rfl, rfl, rfl⟩ h

theorem dropReservation (source : ClientSurfaceId) : P (s.dropReservation source) :=
  hP.same (s := s) ⟨rfl, rfl, rfl, rfl, rfl, rfl, rfl⟩ h

theorem forgetSurface (source : ClientSurfaceId) : P (s.forgetSurface source) :=
  hP.same (s := s) ⟨rfl, rfl, rfl, rfl, rfl, rfl, rfl⟩ h

end

end Stable

/-! ### What is mapped -/

namespace SourceRelayAdapter

variable {env : SourceEnvironment} (x : ClientSurfaceId)

theorem releasePresentation_eq :
    (s.releasePresentation x).effects = s.effects ∧
      (s.releasePresentation x).remoteInput = s.remoteInput ∧
      (s.releasePresentation x).mappings = s.mappings ∧
      (s.releasePresentation x).failed = s.failed ∧
      (s.releasePresentation x).upstreamSource = s.upstreamSource ∧
      (s.releasePresentation x).calls = s.calls := by
  unfold releasePresentation
  split_ifs <;> exact ⟨rfl, rfl, rfl, rfl, rfl, rfl⟩

@[simp] theorem mappings_fail (reason : String) : (s.fail env reason).mappings = s.mappings := by
  unfold fail
  split_ifs <;> rfl

@[simp] theorem mappings_submit (command : SourcePortCommand) :
    (s.submit env command).1.mappings = s.mappings := by
  unfold submit
  split
  · rfl
  · exact mappings_fail _ _

@[simp] theorem mappings_checkAccess : (s.checkAccess env).1.mappings = s.mappings := by
  unfold checkAccess
  split_ifs
  · rfl
  · rfl
  · exact mappings_fail _ _

@[simp] theorem mappings_withdraw : (s.withdraw env x).mappings = s.mappings.erase x :=
  (releasePresentation_eq (s.unlist x) x).2.2.1

theorem mappings_unmapBody : (unmapBody env s x).1.mappings = s.mappings.erase x := by
  simp only [unmapBody]
  split
  · rename_i hnone
    have hnot : x ∉ s.mappings.keys := AList.notMem_keys_iff.mpr hnone
    refine AList.ext ?_
    exact (List.kerase_of_notMem_keys hnot).symm
  · split_ifs <;> simp [tick, dropReservation]

/-- Unmapping maps nothing. -/
theorem mem_of_mem_unmap {s : SourceRelayAdapter} {x y : ClientSurfaceId} {n : ℕ}
    (h : y ∈ (Cascade.run (unmapBody env) n s x).mappings) : y ∈ s.mappings := by
  have hbody : ∀ (s : SourceRelayAdapter) x y, y ∈ (unmapBody env s x).1.mappings →
      y ∈ s.mappings := by
    intro s x y hy
    rw [mappings_unmapBody] at hy
    exact (AList.mem_erase.mp hy).2
  have hrel := Cascade.run_rel (R := fun s t => ∀ y, y ∈ t.mappings → y ∈ s.mappings)
    (fun _ _ h => h) (fun hab hbc y hy => hab y (hbc y hy)) hbody n s x
  exact hrel y h

theorem notMem_unmap : x ∉ (s.unmap env x).mappings := by
  rw [unmap, Cascade.run_succ]
  have herased : x ∉ (unmapBody env s x).1.mappings := by
    rw [mappings_unmapBody]
    exact fun h => (AList.mem_erase.mp h).1 rfl
  refine Cascade.foldl_invariant (P := fun t : SourceRelayAdapter => x ∉ t.mappings) ?_ herased
  intro t y _ ht hx
  exact ht (mem_of_mem_unmap hx)

theorem notMem_observeDestroyed : x ∉ (s.observeDestroyed env x).mappings := by
  simp only [observeDestroyed, forgetSurface]
  unfold sendDestroyed
  split
  · have herased : ∀ t : SourceRelayAdapter, x ∉ (t.unlist x).mappings :=
      fun t h => (AList.mem_erase.mp h).1 rfl
    simp only [sendSurface]
    split_ifs
    · rw [mappings_submit, mappings_checkAccess]
      exact herased _
    · rw [mappings_checkAccess]
      exact herased _
  · rename_i hnone
    exact AList.lookup_eq_none.mp hnone

end SourceRelayAdapter

/-! ### Invariants -/

/-- A stable property that the operations on claims and ledger preserve, given `ok` of the messages
that are accepted.  Taking surfaces away is the last thing a call does, so it need only establish
`Q`, of the surfaces that meet `gone` when they are destroyed. -/
structure Invariant (env : SourceEnvironment)
    (ok : SourceRelayAdapter → DestinationEnvelope → Prop)
    (gone : SourceRelayAdapter → ClientSurfaceId → Prop) (P Q : SourceRelayAdapter → Prop) : Prop
    extends Stable env P where
  weaken : ∀ {s}, P s → Q s
  sameQ : ∀ {s t}, SameCore s t → Q s → Q t
  connect : ∀ {s}, P s → P { s with effects := s.effects ++ [.inputConnected s.upstreamSource] }
  release : ∀ {s} (owns : ClientSurfaceId → Bool), P s → P (s.releaseInput env owns)
  map : ∀ {s} (session : HoistSessionId) (source : ClientSurfaceId), P s →
    P (s.map env session source)
  unmap : ∀ {s} (source : ClientSurfaceId), P s → Q (s.unmap env source)
  destroy : ∀ {s} (source : ClientSurfaceId), gone s source → P s →
    Q (s.observeDestroyed env source)
  deliver : ∀ {s} (envelope : DestinationEnvelope), s.failed = false → ok s envelope →
    s.Deliverable envelope → P s → P (s.deliver env envelope.message).1

namespace Invariant

variable {env : SourceEnvironment} {ok : SourceRelayAdapter → DestinationEnvelope → Prop}
  {gone : SourceRelayAdapter → ClientSurfaceId → Prop} {P Q : SourceRelayAdapter → Prop}
  (hP : Invariant env ok gone P Q)
include hP

variable {s : SourceRelayAdapter}

section

variable (h : P s)
include h

theorem startInput : P (s.startInput env) := by
  have hconnect : P s.tick.connectInput := by
    unfold SourceRelayAdapter.connectInput
    split_ifs
    · exact hP.tick h
    · exact hP.same (s := { s with effects := s.effects ++ [.inputConnected s.upstreamSource] })
        ⟨rfl, rfl, rfl, rfl, rfl, rfl, rfl⟩ (hP.connect h)
  unfold SourceRelayAdapter.startInput
  split_ifs
  · refine hP.gamepadStatus ?_ _
    exact hP.same (s := s.tick.connectInput) ⟨rfl, rfl, rfl, rfl, rfl, rfl, rfl⟩ hconnect
  · exact hP.tick h

theorem admitRole (source : ClientSurfaceId) : P (s.admitRole env source) := by
  unfold SourceRelayAdapter.admitRole
  split
  · split
    · exact hP.fail _ h
    · refine hP.map _ _ ?_
      exact hP.same (s := s) ⟨rfl, rfl, rfl, rfl, rfl, rfl, rfl⟩ h
  · split
    · exact h
    · exact hP.map _ _ h
  · exact h
  · exact h

theorem admitSurface (source : ClientSurfaceId) : P (s.admitSurface env source) := by
  unfold SourceRelayAdapter.admitSurface
  split_ifs
  · exact h
  · exact hP.admitRole (hP.tick h) source
  · exact hP.tick h

theorem prepareBatch : P (s.prepareBatch env) := by
  have hstart := hP.startInput h
  simp only [SourceRelayAdapter.prepareBatch, SourceRelayAdapter.startAdmission]
  split_ifs
  · exact hstart
  · exact hstart
  · refine Cascade.foldl_invariant (P := P) (fun t x _ ht => hP.admitSurface ht x) ?_
    exact hP.same (s := s.startInput env) ⟨rfl, rfl, rfl, rfl, rfl, rfl, rfl⟩ hstart
  · exact hP.tick hstart

theorem route (halive : s.failed = false) (envelope : DestinationEnvelope) {surface : ClientSurfaceId}
    (htarget : s.messageTarget envelope.message = some surface) (hok : ok s envelope) :
    P (s.route env envelope surface).1 := by
  unfold SourceRelayAdapter.route
  split
  · exact hP.ignoreUnmapped h envelope
  · rename_i session hsession
    split_ifs with hsame
    · refine hP.deliver envelope halive hok ?_ h
      rintro x hx
      rw [htarget] at hx
      cases hx
      rw [hsession, hsame]
    · exact hP.fail _ h

theorem acceptLive (halive : s.failed = false) (envelope : DestinationEnvelope) (hok : ok s envelope) :
    P (s.acceptLive env envelope).1 := by
  unfold SourceRelayAdapter.acceptLive
  split
  · exact hP.acceptGamepad h _ _
  · exact hP.acceptCursorReceived h _ _ _
  · split_ifs
    · exact hP.fail _ h
    · split
      · exact h
      · rename_i htarget
        exact hP.route h halive _ htarget hok
  all_goals
    split
    · rename_i htarget
      refine hP.deliver envelope halive hok ?_ h
      rintro x hx
      rw [htarget] at hx
      cases hx
    · rename_i htarget
      exact hP.route h halive _ htarget hok

theorem acceptDestination (envelope : DestinationEnvelope) (hok : ok (s.checkAccess env).1 envelope) :
    P (s.acceptDestination env envelope).1 := by
  have hc := hP.checkAccess h
  simp only [SourceRelayAdapter.acceptDestination]
  split_ifs with hlive
  · obtain ⟨halive, heq⟩ := checkAccess_live hlive
    refine hP.acceptLive hc ?_ envelope hok
    rw [heq]
    exact halive
  · exact hc

theorem acceptAll (envelopes : List DestinationEnvelope) (hok : Along env ok s envelopes) :
    P (s.acceptAll env envelopes) := by
  induction envelopes generalizing s with
  | nil => exact h
  | cons envelope envelopes ih =>
      have haccept := hP.acceptDestination h envelope hok.1
      simp only [SourceRelayAdapter.acceptAll]
      split_ifs with hgoing
      · exact ih haccept (hok.2 hgoing)
      · exact haccept

theorem poll (polled : Except String (List DestinationEnvelope)) (hok : ∀ envelopes, polled = .ok envelopes
      → Along env ok ((s.beginPoll env).prepareBatch env) envelopes) : P (s.poll env polled) := by
  have hbegin := hP.beginPoll h
  simp only [SourceRelayAdapter.poll]
  split_ifs
  · exact hbegin
  · cases polled with
    | error reason => exact hP.fail _ hbegin
    | ok envelopes => exact hP.finishPoll (hP.acceptAll (hP.prepareBatch hbegin) _ (hok _ rfl))

theorem observeRole (source : ClientSurfaceId) (role : ClientSurfaceRole) :
    Q (s.observeRole env source role) := by
  have hr := hP.remember h source fun cached => { cached with role := some role }
  simp only [SourceRelayAdapter.observeRole]
  split_ifs
  · exact hP.sameQ (s := (s.remember source fun cached =>
      { cached with role := some role }).unmap env source) ⟨rfl, rfl, rfl, rfl, rfl, rfl, rfl⟩ (hP.unmap source hr)
  · refine hP.weaken ?_
    split
    · exact hP.map _ _ (hP.dropReservation hr source)
    · split
      · exact hP.sendSurface hr _ _
      · split
        · exact hP.map _ _ hr
        · exact hP.admitSurface hr source

theorem observeMetadata (source : ClientSurfaceId) (metadata : ClientSurfaceMetadata) :
    P (s.observeMetadata env source metadata) := by
  simp only [SourceRelayAdapter.observeMetadata]
  split
  · split_ifs
    · exact hP.remember h _ _
    · exact hP.sendSurface (hP.remember (hP.remember h _ _) _ _) _ _
  · exact hP.remember h _ _

theorem observeCommit (source : ClientSurfaceId) (commit : ClientSurfaceCommit) :
    P (s.observeCommit env source commit) := by
  unfold SourceRelayAdapter.observeCommit
  split_ifs
  · exact h
  · split
    · exact hP.sendSurface (hP.rememberCommit h _ _) _ _
    · exact hP.admitSurface (hP.rememberCommit h _ _) _

theorem observe (event : ClientSurfaceEvent) (hgone : event.kind = .destroyed → (s.checkAccess env).2 = true
      → gone (s.checkAccess env).1 event.surface) : Q (s.observe env event) := by
  have hc := hP.checkAccess h
  simp only [SourceRelayAdapter.observe]
  split_ifs with hskip
  · exact hP.weaken hc
  · split
    · exact hP.weaken (hP.observeMetadata hc _ _)
    · exact hP.observeRole hc _ _
    · exact hP.weaken (hP.observeCommit hc _ _)
    · refine hP.weaken ?_
      split
      · exact hP.sendSurface hc _ _
      · exact hc
    · refine hP.weaken ?_
      split
      · exact hP.sendSurface hc _ _
      · exact hc
    · rename_i hkind
      refine hP.destroy _ (hgone hkind ?_) hc
      by_contra hdead
      simp [hdead] at hskip

theorem observeCursorUpdate (update : ClientCursorUpdate) : P (s.observeCursorUpdate env update) := by
  have hc := hP.checkAccess h
  simp only [SourceRelayAdapter.observeCursorUpdate]
  split_ifs
  · exact hc
  · exact hP.remember hc _ _
  · exact hP.queueCursor (hP.remember hc _ _) _

theorem observeRetiredBuffer (buffer : ClientBufferId) : P (s.observeRetiredBuffer env buffer) := by
  have hc := hP.checkAccess h
  simp only [SourceRelayAdapter.observeRetiredBuffer]
  split_ifs
  · exact hP.submit hc _
  · exact hc

theorem installAccess : P (s.installAccess env) := by
  unfold SourceRelayAdapter.installAccess
  split_ifs
  · exact hP.fail _ h
  · exact hP.same (s := s) ⟨rfl, rfl, rfl, rfl, rfl, rfl, rfl⟩ h

/-- **An invariant survives every call**, up to what a drain takes out of the queues. -/
theorem step (call : SourceCall) (hok : Admits env ok gone s call) (hclaims : call ≠ .drainPresentationClaims)
    (heffects : call ≠ .drainEffects) : Q (s.step env call) := by
  have h0 : P { s with calls := 0 } := hP.same (s := s) ⟨rfl, rfl, rfl, rfl, rfl, rfl, rfl⟩ h
  cases call with
  | installAccess => exact hP.weaken (hP.installAccess h0)
  | map session source =>
      simp only [SourceRelayAdapter.step, command]
      split_ifs
      · exact hP.weaken h0
      · exact hP.weaken (hP.map _ _ h0)
  | unmap source =>
      simp only [SourceRelayAdapter.step, command]
      split_ifs
      · exact hP.weaken h0
      · exact hP.unmap _ h0
  | observe event =>
      refine hP.observe h0 event ?_
      intro hkind
      obtain ⟨surface, kind⟩ := event
      cases hkind
      exact hok
  | observeCursorUpdate update => exact hP.weaken (hP.observeCursorUpdate h0 update)
  | observeRetiredBuffer buffer => exact hP.weaken (hP.observeRetiredBuffer h0 buffer)
  | releaseInput owns => exact hP.weaken (hP.release owns h0)
  | poll polled =>
      refine hP.weaken (hP.poll h0 polled ?_)
      rintro envelopes rfl
      exact hok
  | drainPresentationClaims => exact absurd rfl hclaims
  | drainEffects => exact absurd rfl heffects

end

end Invariant

end Hoist
