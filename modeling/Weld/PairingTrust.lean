/-
**Only approved devices are trusted.**

Trust is kept three times (in memory, in storage and as published), and the storage may fail to save
at any time.  A device that is revoked is forgotten even then; it is stored until the next save that
succeeds, and the authority knows which devices these are.

Main definitions: `Trusted`, `Offered`, `PairingEvent.Allowed`.

Main results:

* `Token.mismatch_eq_zero_iff` — tokens that do not differ in any bit are equal;
* `trust_survives_storage_failure` — in every run the trust sets agree, every device was
  approved and every admission is newer than the approval of its device.
-/

import Weld.History
import Weld.Pairing
import Weld.Transition

namespace Pairing

open History PairingState PairingEvent

/-! ### Tokens -/

theorem foldl_mismatch_eq_zero_iff (pairs : List (UInt8 × UInt8)) (sum : UInt8) :
    pairs.foldl (fun sum pair => sum ||| (pair.1 ^^^ pair.2)) sum = 0 ↔
      sum = 0 ∧ ∀ pair ∈ pairs, pair.1 = pair.2 := by
  induction pairs generalizing sum with
  | nil => simp
  | cons pair pairs ih =>
      rw [List.foldl_cons, ih, UInt8.or_eq_zero_iff, UInt8.xor_eq_zero_iff, List.forall_mem_cons,
        and_assoc]

theorem eq_of_forall_mem_zip {as bs : List UInt8} (hlength : as.length = bs.length)
    (h : ∀ pair ∈ as.zip bs, pair.1 = pair.2) : as = bs := by
  refine List.ext_getElem hlength fun i ha hb => ?_
  refine h (as[i], bs[i]) ?_
  have hi : i < (as.zip bs).length := by
    rw [List.length_zip]
    omega
  have hget : (as.zip bs)[i] = (as[i], bs[i]) := List.getElem_zip
  rw [← hget]
  exact List.getElem_mem hi

/-- Tokens that do not differ in any bit are equal. -/
theorem Token.mismatch_eq_zero_iff (a b : Token) : a.mismatch b = 0 ↔ a = b := by
  constructor
  · intro h
    have hpairs := ((foldl_mismatch_eq_zero_iff _ _).mp h).2
    have hbytes := eq_of_forall_mem_zip (a.size.trans b.size.symm) hpairs
    obtain ⟨as, ha⟩ := a
    obtain ⟨bs, hb⟩ := b
    obtain rfl : as = bs := hbytes
    rfl
  · rintro rfl
    refine (foldl_mismatch_eq_zero_iff _ _).mpr ⟨rfl, fun pair hpair => ?_⟩
    obtain ⟨i, hi, rfl⟩ := List.getElem_of_mem hpair
    rw [List.getElem_zip]

/-! ### Operations that may fail -/

theorem ensure_bind_ok {α : Type} {condition : Bool} {reason : String}
    {next : Unit → Except String α} {result : α}
    (h : (ensure condition reason >>= next) = .ok result) :
    condition = true ∧ next () = .ok result := by
  cases condition with
  | true => exact ⟨rfl, h⟩
  | false => cases h

theorem bind_ok {α β : Type} {first : Except String α} {next : α → Except String β} {result : β}
    (h : (first >>= next) = .ok result) : ∃ a, first = .ok a ∧ next a = .ok result := by
  cases first with
  | ok a => exact ⟨a, rfl, h⟩
  | error reason => cases h

variable {identity : String} {permissions : DevicePermissions} {token : Token}
  {candidate : PairingCandidate}

namespace PairingState

variable {env : PairingEnvironment} {s s' : PairingState}

theorem save_ok {devices : Dict String PairedDevice} (h : s.save env devices = .ok s') :
    s' = { s with stored := devices } := by
  unfold save at h
  cases hsave : env.save with
  | ok =>
      rw [hsave] at h
      cases h
      rfl
  | error reason =>
      rw [hsave] at h
      cases h

/-- An approval is of the device that claimed the invitation. -/
theorem approve_ok {verification : String}
    (h : s.approve env identity verification permissions = .ok s') :
    ∃ invite name, s.invitation = some invite ∧
      invite.candidate = some ⟨identity, name, verification⟩ ∧
      (s.devices.size < maxDevices ∨ identity ∈ s.devices) ∧
      s'.devices = s.devices.insert identity ⟨identity, name, permissions⟩ ∧
      s'.stored = s'.devices ∧ s'.published = s'.devices ∧ s'.unsavedRevocations = ∅ ∧
      s'.invitation = none ∧
      s'.admissions = s.admissions.filter fun a => decide (a.identity ≠ identity) := by
  unfold approve at h
  cases hinvitation : s.invitation with
  | none =>
      rw [hinvitation] at h
      cases h
  | some invite =>
      cases hcandidate : invite.candidate with
      | none =>
          rw [hinvitation, Option.bind_some, hcandidate] at h
          cases h
      | some candidate =>
          rw [hinvitation, Option.bind_some, hcandidate] at h
          obtain ⟨hmatch, hasked⟩ := ensure_bind_ok h
          obtain ⟨-, hcounted⟩ := ensure_bind_ok hasked
          obtain ⟨hroom, hsave⟩ := ensure_bind_ok hcounted
          obtain ⟨saved, hsaved, hdone⟩ := bind_ok hsave
          obtain rfl := save_ok hsaved
          obtain ⟨hidentity, hverification⟩ : candidate.identity = identity ∧
              candidate.verification = verification := by simpa using hmatch
          subst hidentity hverification
          cases hdone
          refine ⟨invite, candidate.name, rfl, hcandidate, by simpa using hroom, ?_⟩
          exact ⟨rfl, rfl, rfl, rfl, rfl, rfl⟩

theorem diagnostics_ok {enabled : Bool} (h : s.diagnostics env identity enabled = .ok s') :
    s'.devices.keys = s.devices.keys ∧ s'.stored = s'.devices ∧ s'.published = s'.devices ∧
      s'.unsavedRevocations = ∅ ∧ s'.invitation = s.invitation ∧ s'.admissions = s.admissions := by
  obtain ⟨-, h⟩ := ensure_bind_ok h
  obtain ⟨saved, hsaved, h⟩ := bind_ok h
  obtain rfl := save_ok hsaved
  cases h
  exact ⟨AList.keys_modify _ _ _, rfl, rfl, rfl, rfl, rfl⟩

/-- A claim presents the token of an invitation that nobody has claimed. -/
theorem claim_ok {peer : PeerIdentity} {name : String} {expires : Instant}
    (h : s.claim env peer token name = .ok (s', candidate, expires)) :
    s.invitation = some ⟨token, expires, none⟩ ∧
      s' = { s with invitation := some ⟨Token.zero, expires, some candidate⟩ } ∧
      candidate.identity = peer.identity := by
  obtain ⟨_, -, h⟩ := bind_ok h
  obtain ⟨_, -, h⟩ := bind_ok h
  cases hinvitation : s.invitation with
  | none =>
      rw [hinvitation] at h
      cases h
  | some invite =>
      rw [hinvitation] at h
      obtain ⟨hunclaimed, h⟩ := ensure_bind_ok h
      obtain ⟨htoken, h⟩ := ensure_bind_ok h
      obtain ⟨bytes, -, h⟩ := bind_ok h
      cases h
      have hnone : invite.candidate = none := Option.isNone_iff_eq_none.mp hunclaimed
      have hsame : invite.token = token :=
        (Token.mismatch_eq_zero_iff _ _).mp (beq_iff_eq.mp htoken)
      refine ⟨?_, rfl, rfl⟩
      rw [← hnone, ← hsame]

end PairingState

open PairingState

/-! ### The history -/

/-- An event that leaves the invitation as it is. -/
def PairingEvent.Quiet : PairingEvent → Prop
  | .revoked _ | .admitted _ => True
  | .invited .. | .claimed .. | .approved .. | .cancelled => False

/-- An event after which an admission of the identity remains. -/
def PairingEvent.Spares (identity : String) : PairingEvent → Prop
  | .approved other _ _ | .revoked other => other ≠ identity
  | .invited .. | .claimed .. | .cancelled | .admitted _ => True

/-- An event that does not revoke the identity. -/
def PairingEvent.Trusts (identity : String) : PairingEvent → Prop
  | .revoked other => other ≠ identity
  | .invited .. | .claimed .. | .approved .. | .cancelled | .admitted _ => True

/-- An event that does not approve the identity. -/
def PairingEvent.Ignores (identity : String) : PairingEvent → Prop
  | .approved other _ _ => other ≠ identity
  | .invited .. | .claimed .. | .cancelled | .revoked _ | .admitted _ => True

/-- What an event presupposes.  A claim presents the token of an invitation that has not expired
and that nothing happened to; an approval is of the claim that nothing happened to, in time; and an
identity that was revoked must be approved before it is admitted. -/
def PairingEvent.Allowed (earlier : List PairingEvent) : PairingEvent → Prop
  | .claimed _ token expires now =>
      Since Quiet (.invited token expires) earlier ∧ now < expires
  | .approved identity verification now => ∃ name token expires claimedAt,
      Since Quiet (.claimed ⟨identity, name, verification⟩ token expires claimedAt)
        earlier ∧ now < expires
  | .admitted admission =>
      ¬ Since (Ignores admission.identity) (.revoked admission.identity) earlier
  | .invited .. | .cancelled | .revoked _ => True

/-- The device was approved since it was last revoked, or was loaded and never revoked. -/
def Approved (loaded : Dict String PairedDevice) (identity : String) (log : List PairingEvent) :
    Prop :=
  (identity ∈ loaded ∧ ∀ e ∈ log, e.Trusts identity) ∨
    ∃ verification now, Since (Trusts identity) (.approved identity verification now) log

/-- The trust sets and the admissions agree with the history. -/
structure Trusted (loaded : Dict String PairedDevice) (s : PairingState) (log : List PairingEvent) :
    Prop where
  published : s.published = s.devices
  kept : ∀ identity ∈ s.devices, identity ∈ s.stored
  unsaved : ∀ identity, identity ∈ s.unsavedRevocations ↔ identity ∈ s.stored ∧ identity ∉ s.devices
  small : s.devices.size ≤ maxDevices
  few : s.admissions.length ≤ maxConnections
  admitted : ∀ a ∈ s.admissions, a.identity ∈ s.devices ∧
    Since (Spares a.identity) (.admitted a) log
  approved : ∀ identity ∈ s.devices, Approved loaded identity log

/-- The invitation agrees with the history. -/
structure Offered (s : PairingState) (log : List PairingEvent) : Prop where
  invited : ∀ token expires, s.invitation = some ⟨token, expires, none⟩ →
    Since Quiet (.invited token expires) log
  claimed : ∀ spent expires candidate, s.invitation = some ⟨spent, expires, some candidate⟩ →
    ∃ token now, Since Quiet (.claimed candidate token expires now) log

variable {loaded : Dict String PairedDevice} {s s' : PairingState} {log : List PairingEvent}
  {e : PairingEvent}

theorem Approved.concat (h : Approved loaded identity log) (he : e.Trusts identity) :
    Approved loaded identity (log ++ [e]) := by
  rcases h with ⟨hloaded, htrusts⟩ | ⟨verification, now, hsince⟩
  · refine Or.inl ⟨hloaded, fun d hd => ?_⟩
    rcases List.mem_append.mp hd with hd | hd
    · exact htrusts d hd
    · rw [List.mem_singleton.mp hd]
      exact he
  · exact Or.inr ⟨verification, now, hsince.concat he⟩

/-- A device that was approved since it was revoked is not one that was revoked since it was
approved. -/
theorem Approved.not_revoked (h : Approved loaded identity log) :
    ¬ Since (Ignores identity) (.revoked identity) log := by
  rintro ⟨earlier, later, hlog, hignores⟩
  rcases h with ⟨-, htrusts⟩ | ⟨verification, now, earlier', later', hlog', htrusts⟩
  · refine htrusts (.revoked identity) ?_ rfl
    rw [hlog]
    simp
  · -- the approval came before the revocation, which it may not
    rcases mem_suffix_of_not (hlog.symm.trans hlog') hignores (fun h => h rfl) with
      ⟨-, heq, -⟩ | ⟨between, rfl⟩
    · cases heq
    · exact htrusts (.revoked identity) (by simp) rfl

/-- Admissions may go; the trust sets stay. -/
theorem Trusted.narrow (h : Trusted loaded s log) (hdevices : s'.devices = s.devices)
    (hstored : s'.stored = s.stored) (hpublished : s'.published = s.published)
    (hunsaved : s'.unsavedRevocations = s.unsavedRevocations)
    (hadmissions : s'.admissions.Sublist s.admissions) : Trusted loaded s' log where
  published := by rw [hpublished, hdevices, h.published]
  kept := by rw [hdevices, hstored]; exact h.kept
  unsaved := by rw [hdevices, hstored, hunsaved]; exact h.unsaved
  small := by rw [hdevices]; exact h.small
  few := hadmissions.length_le.trans h.few
  admitted := by
    intro a ha
    rw [hdevices]
    exact h.admitted a (hadmissions.subset ha)
  approved := by rw [hdevices]; exact h.approved

/-- An event is recorded that neither revokes a device nor ends an admission. -/
theorem Trusted.concat (h : Trusted loaded s log)
    (hspares : ∀ a ∈ s.admissions, e.Spares a.identity)
    (htrusts : ∀ identity ∈ s.devices, e.Trusts identity) : Trusted loaded s (log ++ [e]) :=
  { h with
    admitted := fun a ha => ⟨(h.admitted a ha).1, (h.admitted a ha).2.concat (hspares a ha)⟩
    approved := fun identity hidentity =>
      (h.approved identity hidentity).concat (htrusts identity hidentity) }

theorem Offered.concat (h : Offered s log) (he : e.Quiet) : Offered s (log ++ [e]) where
  invited := fun token expires heq => (h.invited token expires heq).concat he
  claimed := by
    intro spent expires candidate heq
    obtain ⟨token, now, hsince⟩ := h.claimed spent expires candidate heq
    exact ⟨token, now, hsince.concat he⟩

theorem Offered.narrow (h : Offered s log)
    (hinvitation : ∀ invite, s'.invitation = some invite → s.invitation = some invite) :
    Offered s' log where
  invited := fun token expires heq => h.invited token expires (hinvitation _ heq)
  claimed := fun spent expires candidate heq => h.claimed spent expires candidate (hinvitation _ heq)

theorem offered_of_none (h : s.invitation = none) (log : List PairingEvent) : Offered s log where
  invited := fun token expires heq => by rw [h] at heq; cases heq
  claimed := fun spent expires candidate heq => by rw [h] at heq; cases heq

/-- Everything there is to know about a state with its history. -/
structure Sound (loaded : Dict String PairedDevice) (s : PairingState) (log : List PairingEvent) :
    Prop where
  trusted : Trusted loaded s log
  offered : Offered s log
  orderly : Each (fun earlier e => Allowed earlier e) log

/-! ### Steps -/

section Steps

variable {env : PairingEnvironment} {now : Instant}

theorem PairingState.openInvitation_eq_some {invite : Invitation}
    (h : s.openInvitation now = some invite) :
    s.invitation = some invite ∧ now < invite.expires := by
  obtain ⟨hinvitation, hexpires⟩ := Option.filter_eq_some_iff.mp h
  exact ⟨hinvitation, of_decide_eq_true hexpires⟩

variable (h : Sound loaded s log)
include h

theorem Sound.expire (env : PairingEnvironment) (i : ℕ) (now : Instant) :
    Sound loaded (s.expire env i now) log where
  trusted := h.trusted.narrow rfl rfl rfl rfl List.filter_sublist
  offered := h.offered.narrow fun _ hinvite => (openInvitation_eq_some hinvite).1
  orderly := h.orderly

/-- Nothing is recorded, and at most admissions and the invitation go. -/
theorem Sound.retire (dropped : List Admission) : Sound loaded (s.retire dropped) log where
  trusted := h.trusted.narrow rfl rfl rfl rfl (List.Sublist.refl _)
  offered := h.offered.narrow fun _ hinvite => hinvite
  orderly := h.orderly

theorem Sound.unrecorded : Sound loaded s (log ++ (none : Option PairingEvent).toList) := by
  simpa using h

/-- An operation that fails changes nothing, and nothing is recorded. -/
theorem Sound.commit (command : PairingCommand)
    {result : Except String (PairingState × PairingAnswer)}
    (herror : ∀ reason, command.event now (some (.error reason)) = none) (hok : ∀ s' answer, result
      = .ok (s', answer) → Sound loaded s' (log ++ (command.event now (some (.ok answer))).toList)) :
    Sound loaded (s.commit result).1 (log ++ (command.event now (s.commit result).2).toList) := by
  cases result with
  | ok pair =>
      obtain ⟨s', answer⟩ := pair
      exact hok s' answer rfl
  | error reason =>
      simp only [PairingState.commit, herror]
      exact h.unrecorded

omit h in
theorem map_ok {α β : Type} {first : Except String α} {f : α → β} {result : β}
    (h : first.map f = .ok result) : ∃ a, first = .ok a ∧ f a = result := by
  cases first with
  | ok a =>
      cases h
      exact ⟨a, rfl, rfl⟩
  | error reason => cases h

theorem Sound.invite
    (hs' : s' = { s with invitation := some ⟨token, now + invitationLifetime, none⟩ }) :
    Sound loaded s' (log ++ [.invited token (now + invitationLifetime)]) where
  trusted := by
    refine Trusted.concat ?_ (fun _ _ => trivial) (fun _ _ => trivial)
    exact h.trusted.narrow (by rw [hs']) (by rw [hs']) (by rw [hs']) (by rw [hs']) (by rw [hs'])
  offered := by
    subst hs'
    constructor
    · intro other expires heq
      cases heq
      exact Since.here _ _
    · intro spent expires candidate heq
      cases heq
  orderly := h.orderly.concat trivial

theorem Sound.claim (hfresh : ∀ invite, s.invitation = some invite → now < invite.expires)
    {expires : Instant} (hinvitation : s.invitation = some ⟨token, expires, none⟩)
    (hs' : s' = { s with invitation := some ⟨Token.zero, expires, some candidate⟩ }) :
    Sound loaded s' (log ++ [.claimed candidate token expires now]) where
  trusted := by
    refine Trusted.concat ?_ (fun _ _ => trivial) (fun _ _ => trivial)
    exact h.trusted.narrow (by rw [hs']) (by rw [hs']) (by rw [hs']) (by rw [hs']) (by rw [hs'])
  offered := by
    subst hs'
    constructor
    · intro other expires heq
      cases heq
    · intro spent expires other heq
      cases heq
      exact ⟨token, now, Since.here _ _⟩
  orderly := h.orderly.concat ⟨h.offered.invited token expires hinvitation, hfresh _ hinvitation⟩

omit h in
theorem size_insert (devices : Dict String PairedDevice) (identity : String)
    (device : PairedDevice) (hroom : devices.size < maxDevices ∨ identity ∈ devices)
    (hsmall : devices.size ≤ maxDevices) : (devices.insert identity device).size ≤ maxDevices := by
  have hkeys : (devices.insert identity device).size =
      (devices.keys.erase identity).length + 1 := by
    simp [AList.size, AList.keys_insert]
  rw [hkeys]
  rcases hroom with hroom | hmem
  · have hle : (devices.keys.erase identity).length ≤ devices.size := List.length_erase_le
    omega
  · have hpos : 0 < devices.keys.length := List.length_pos_of_mem hmem
    rw [List.length_erase_of_mem hmem]
    have : devices.keys.length ≤ maxDevices := hsmall
    omega

theorem Sound.approve (hfresh : ∀ invite, s.invitation = some invite → now < invite.expires)
    {verification : String} (hs' : s.approve env identity verification permissions = .ok s') :
    Sound loaded s' (log ++ [.approved identity verification now]) := by
  obtain ⟨⟨spent, expires, candidate⟩, name, hinvitation, rfl, hroom, hdevices, hstored, hpublished,
    hunsaved, hnone, hadmissions⟩ := approve_ok hs'
  have hmem : ∀ other, other ∈ s'.devices ↔ other = identity ∨ other ∈ s.devices := by
    intro other
    rw [hdevices]
    exact AList.mem_insert _
  have hbefore := h.trusted
  refine ⟨?_, offered_of_none hnone _, h.orderly.concat ?_⟩
  · constructor
    · exact hpublished
    · intro other hother
      rwa [hstored]
    · intro other
      rw [hunsaved, hstored]
      exact ⟨fun hother => absurd hother (Finset.notMem_empty _), fun hother =>
        absurd hother.1 hother.2⟩
    · rw [hdevices]
      exact size_insert _ _ _ hroom hbefore.small
    · rw [hadmissions]
      exact (List.length_filter_le _ _).trans hbefore.few
    · intro a ha
      rw [hadmissions] at ha
      obtain ⟨ha, hother⟩ := List.mem_filter.mp ha
      have hne : a.identity ≠ identity := of_decide_eq_true hother
      refine ⟨(hmem _).mpr (Or.inr (hbefore.admitted a ha).1), ?_⟩
      exact (hbefore.admitted a ha).2.concat (Ne.symm hne)
    · intro other hother
      rcases (hmem other).mp hother with rfl | hother
      · exact Or.inr ⟨verification, now, Since.here _ _⟩
      · exact (hbefore.approved other hother).concat trivial
  · obtain ⟨token, claimedAt, hsince⟩ := h.offered.claimed _ _ _ hinvitation
    exact ⟨name, token, expires, claimedAt, hsince, hfresh _ hinvitation⟩

omit h

/-- Once everything is saved, nothing is left to save. -/
theorem Trusted.store (h : Trusted loaded s log) (hdevices : s'.devices.keys = s.devices.keys)
    (hstored : s'.stored = s'.devices) (hpublished : s'.published = s'.devices)
    (hunsaved : s'.unsavedRevocations = ∅) (hadmissions : s'.admissions = s.admissions) :
    Trusted loaded s' log := by
  have hmem : ∀ identity, identity ∈ s'.devices ↔ identity ∈ s.devices := by
    intro identity
    rw [AList.mem_keys, hdevices, AList.mem_keys]
  constructor
  · exact hpublished
  · intro identity hidentity
    rwa [hstored]
  · intro identity
    rw [hunsaved, hstored]
    exact ⟨fun hidentity => absurd hidentity (Finset.notMem_empty _), fun hidentity =>
      absurd hidentity.1 hidentity.2⟩
  · have hsize : s'.devices.size = s.devices.size := congrArg List.length hdevices
    rw [hsize]
    exact h.small
  · rw [hadmissions]
    exact h.few
  · intro a ha
    rw [hadmissions] at ha
    exact ⟨(hmem _).mpr (h.admitted a ha).1, (h.admitted a ha).2⟩
  · intro identity hidentity
    exact h.approved identity ((hmem identity).mp hidentity)

variable {identity : String}

theorem Trusted.forget (h : Trusted loaded s log)
    (hknown : identity ∈ s.devices ∨ identity ∈ s.unsavedRevocations) :
    Trusted loaded (s.forget identity) (log ++ [.revoked identity]) := by
  have hmem : ∀ other, other ∈ (s.forget identity).devices ↔
      other ≠ identity ∧ other ∈ s.devices := fun other => AList.mem_erase
  have hstored : identity ∈ s.stored := by
    rcases hknown with hknown | hknown
    · exact h.kept identity hknown
    · exact ((h.unsaved identity).mp hknown).1
  constructor
  · rfl
  · intro other hother
    exact h.kept other ((hmem other).mp hother).2
  · intro other
    have hinsert : other ∈ (s.forget identity).unsavedRevocations ↔
        other = identity ∨ other ∈ s.unsavedRevocations := Finset.mem_insert
    have hsame : (s.forget identity).stored = s.stored := rfl
    rw [hinsert, hmem, h.unsaved, hsame]
    by_cases hother : other = identity
    · subst hother
      simp [hstored]
    · simp [hother]
  · have hle : (s.devices.erase identity).size ≤ s.devices.size := by
      simp only [AList.size, AList.keys_erase]
      exact List.length_erase_le
    exact hle.trans h.small
  · exact (List.length_filter_le _ _).trans h.few
  · intro a ha
    obtain ⟨ha, hother⟩ := List.mem_filter.mp ha
    have hne : a.identity ≠ identity := of_decide_eq_true hother
    refine ⟨(hmem _).mpr ⟨hne, (h.admitted a ha).1⟩, ?_⟩
    exact (h.admitted a ha).2.concat (Ne.symm hne)
  · intro other hother
    obtain ⟨hne, hother⟩ := (hmem other).mp hother
    exact (h.approved other hother).concat (Ne.symm hne)

/-- The three ways a revocation ends. -/
theorem PairingState.revoke_cases (s : PairingState) (env : PairingEnvironment)
    (identity : String) :
    (identity ∉ s.devices ∧ (s.revoke env identity).1 = s) ∨
      ((identity ∈ s.devices ∨ identity ∈ s.unsavedRevocations) ∧
        ((s.revoke env identity).1 = s.forget identity ∨ (s.revoke env identity).1 =
            { s.forget identity with
              stored := (s.forget identity).devices
              unsavedRevocations := ∅ })) := by
  unfold revoke
  split_ifs with hknown
  · refine Or.inr ⟨hknown, ?_⟩
    cases hsave : (s.forget identity).save env (s.forget identity).devices with
    | ok saved =>
        obtain rfl := save_ok hsave
        exact Or.inr rfl
    | error reason => exact Or.inl rfl
  · exact Or.inl ⟨fun hidentity => hknown (Or.inl hidentity), rfl⟩

include h

theorem Sound.revoke (identity : String) :
    Sound loaded (s.revoke env identity).1 (log ++ [.revoked identity]) := by
  have horderly := h.orderly.concat (e := revoked identity) trivial
  have hoffered := h.offered.concat (e := revoked identity) trivial
  rcases s.revoke_cases env identity with ⟨hunknown, heq⟩ | ⟨hknown, heq | heq⟩
  · rw [heq]
    have hother : ∀ other ∈ s.devices, identity ≠ other := by
      rintro other hdevice rfl
      exact hunknown hdevice
    exact ⟨h.trusted.concat (fun a ha => hother _ (h.trusted.admitted a ha).1) hother, hoffered,
      horderly⟩
  · rw [heq]
    exact ⟨h.trusted.forget hknown, hoffered.narrow fun _ hinvite => hinvite, horderly⟩
  · rw [heq]
    refine ⟨?_, hoffered.narrow fun _ hinvite => hinvite, horderly⟩
    exact (h.trusted.forget hknown).store rfl rfl rfl rfl rfl

/-- A revocation forgets the device and ends its admissions, whatever the storage answers. -/
theorem Sound.forgotten (env : PairingEnvironment) (identity : String) :
    identity ∉ (s.revoke env identity).1.devices ∧
      (∀ a ∈ (s.revoke env identity).1.admissions, a.identity ≠ identity) ∧
      ∀ a, a ∈ s.admissions ∨ (a.access ∈ s.ended ∧ a.connection ∈ s.closed) →
        a.identity = identity → a.access ∈ (s.revoke env identity).1.ended ∧
          a.connection ∈ (s.revoke env identity).1.closed := by
  have hforget : identity ∉ (s.forget identity).devices := fun hmem => (AList.mem_erase.mp hmem).1 rfl
  have hfilter : ∀ a ∈ (s.forget identity).admissions, a.identity ≠ identity := by
    intro a ha
    exact of_decide_eq_true (List.mem_filter.mp ha).2
  have hended : ∀ a, a ∈ s.admissions ∨ (a.access ∈ s.ended ∧ a.connection ∈ s.closed) →
      a.identity = identity →
      a.access ∈ (s.forget identity).ended ∧ a.connection ∈ (s.forget identity).closed := by
    rintro a (ha | ⟨haccess, hconnection⟩) rfl
    · have hdropped : a ∈ s.admissions.filter fun b => !decide (b.identity ≠ a.identity) := by
        simp [List.mem_filter, ha]
      exact ⟨List.mem_append_right _ (List.mem_map_of_mem hdropped),
        List.mem_append_right _ (List.mem_map_of_mem hdropped)⟩
    · exact ⟨List.mem_append_left _ haccess, List.mem_append_left _ hconnection⟩
  rcases s.revoke_cases env identity with ⟨hunknown, heq⟩ | ⟨-, heq | heq⟩
  · rw [heq]
    refine ⟨hunknown, ?_, ?_⟩
    · rintro a ha rfl
      exact hunknown (h.trusted.admitted a ha).1
    · rintro a (ha | hgone) rfl
      · exact absurd (h.trusted.admitted a ha).1 hunknown
      · exact hgone
  · rw [heq]
    exact ⟨hforget, hfilter, hended⟩
  · rw [heq]
    exact ⟨hforget, hfilter, hended⟩

theorem Sound.diagnostics {enabled : Bool} (hs' : s.diagnostics env identity enabled = .ok s') :
    Sound loaded s' log := by
  obtain ⟨hdevices, hstored, hpublished, hunsaved, hinvitation, hadmissions⟩ := diagnostics_ok hs'
  refine ⟨h.trusted.store hdevices hstored hpublished hunsaved hadmissions, ?_, h.orderly⟩
  refine h.offered.narrow fun invite hinvite => ?_
  rwa [← hinvitation]

omit h in
/-- A connection is admitted only for a device that is paired, while there is room. -/
theorem PairingState.admitConnection_cases (s : PairingState) (env : PairingEnvironment)
    (peer : PeerIdentity) (admission : Admission) :
    (peer.identity ∈ s.devices ∧ s.admissions.length < maxConnections ∧ ∃ permissions,
        s.admitConnection env peer admission =
          ({ s with admissions := s.admissions ++ [admission] }, .ok permissions)) ∨
      ∃ reason, s.admitConnection env peer admission = (s.retire [admission], .error reason) := by
  unfold admitConnection
  simp only
  split
  next permissions hchecked =>
    obtain ⟨_, -, hlive⟩ := bind_ok hchecked
    obtain ⟨-, hpaired⟩ := ensure_bind_ok hlive
    obtain ⟨found, hfound, hroom⟩ := bind_ok hpaired
    obtain ⟨hlength, -⟩ := ensure_bind_ok hroom
    refine Or.inl ⟨?_, of_decide_eq_true hlength, permissions, rfl⟩
    rw [← AList.lookup_isSome]
    cases hlookup : s.devices.lookup peer.identity with
    | none =>
        rw [hlookup] at hfound
        cases hfound
    | some device => rfl
  next reason hchecked => exact Or.inr ⟨reason, rfl⟩

theorem Sound.admitConnection {access : AccessSessionId} {connection : ConnectionId}
    (hpaired : identity ∈ s.devices) (hroom : s.admissions.length < maxConnections) :
    Sound loaded { s with admissions := s.admissions ++ [⟨identity, access, connection⟩] }
      (log ++ [.admitted ⟨identity, access, connection⟩]) := by
  have hbefore := h.trusted
  refine ⟨?_, ?_, h.orderly.concat (hbefore.approved identity hpaired).not_revoked⟩
  · refine { hbefore with few := ?_, admitted := ?_, approved := ?_ }
    · simp only [List.length_append, List.length_singleton]
      omega
    · intro a ha
      rcases List.mem_append.mp ha with ha | ha
      · exact ⟨(hbefore.admitted a ha).1, (hbefore.admitted a ha).2.concat trivial⟩
      · obtain rfl := List.mem_singleton.mp ha
        exact ⟨hpaired, Since.here _ _⟩
    · intro other hother
      exact (hbefore.approved other hother).concat trivial
  · exact Offered.narrow (s := s) (h.offered.concat trivial) fun _ hinvite => hinvite

/-- An admission whose answer nobody received is dropped again. -/
theorem Sound.undelivered (env : PairingEnvironment) (access : AccessSessionId) (now : Instant) :
    Sound loaded (({ s with ended := s.ended ++ [access] } : PairingState).expire env 2 now) log := by
  have hended : Sound loaded { s with ended := s.ended ++ [access] } log :=
    ⟨h.trusted.narrow rfl rfl rfl rfl (List.Sublist.refl _),
      h.offered.narrow fun _ hinvite => hinvite, h.orderly⟩
  exact hended.expire env 2 now

theorem Sound.handleAdmit (env : PairingEnvironment) (peer : PeerIdentity) (access : AccessSessionId)
    (connection : ConnectionId) (now : Instant) :
    Sound loaded (s.handleAdmit env peer access connection now).1
      (log ++ ((PairingCommand.admitConnection peer access connection).event now
        (s.handleAdmit env peer access connection now).2).toList) := by
  set admission : Admission := ⟨peer.identity, access, connection⟩ with hadmission
  set result := if env.waiting then s.admitConnection env peer admission
    else (s.retire [admission], .error "admission cancelled") with hresult
  have hadmitted : Sound loaded result.1
      (log ++ ((PairingCommand.admitConnection peer access connection).event now
        (some (result.2.map .permissions))).toList) := by
    have hrefused : Sound loaded (s.retire [admission]) (log ++ []) := by
      rw [List.append_nil]
      exact h.retire [admission]
    rw [hresult]
    split_ifs
    · rcases s.admitConnection_cases env peer admission with
        ⟨hpaired, hroom, permissions, heq⟩ | ⟨reason, heq⟩
      · rw [heq]
        exact h.admitConnection hpaired hroom
      · rw [heq]
        exact hrefused
    · exact hrefused
  have hcases : s.handleAdmit env peer access connection now =
      if env.delivered then (result.1, some (result.2.map .permissions))
      else (({ result.1 with ended := result.1.ended ++ [access] } : PairingState).expire env 2 now,
        some (result.2.map .permissions)) := rfl
  rw [hcases]
  split_ifs
  · exact hadmitted
  · exact hadmitted.undelivered env access now

/-- One command, once expiry is done. -/
theorem Sound.dispatch (hfresh : ∀ invite, s.invitation = some invite → now < invite.expires)
    (env : PairingEnvironment) (command : PairingCommand) :
    Sound loaded (s.dispatch env command now).1
      (log ++ (command.event now (s.dispatch env command now).2).toList) := by
  cases command with
  | invite =>
      refine h.commit _ (fun _ => rfl) fun s' answer hok => ?_
      obtain ⟨⟨invited, token⟩, hinvite, heq⟩ := map_ok hok
      obtain ⟨drawn, -, hdone⟩ := bind_ok hinvite
      cases hdone
      cases heq
      exact h.invite rfl
  | pending =>
      exact h.unrecorded
  | claim peer token name =>
      simp only [PairingState.dispatch]
      split_ifs
      · refine h.commit _ (fun _ => rfl) fun s' answer hok => ?_
        obtain ⟨⟨claimed, candidate, expires⟩, hclaim, heq⟩ := map_ok hok
        obtain ⟨hinvitation, hs', -⟩ := claim_ok hclaim
        cases heq
        exact h.claim hfresh hinvitation hs'
      · exact h.unrecorded
  | approve identity verification permissions =>
      refine h.commit _ (fun _ => rfl) fun s' answer hok => ?_
      obtain ⟨approved, happrove, heq⟩ := map_ok hok
      cases heq
      exact h.approve hfresh happrove
  | cancel =>
      have hcancelled : Trusted loaded { s with invitation := none } log :=
        h.trusted.narrow rfl rfl rfl rfl (List.Sublist.refl _)
      exact ⟨hcancelled.concat (fun _ _ => trivial) (fun _ _ => trivial), offered_of_none rfl _,
        h.orderly.concat trivial⟩
  | revoke identity => exact h.revoke identity
  | diagnostics identity enabled =>
      refine h.commit _ (fun _ => rfl) fun s' answer hok => ?_
      obtain ⟨changed, hchange, heq⟩ := map_ok hok
      cases heq
      exact (h.diagnostics hchange).unrecorded
  | admitConnection peer access connection => exact h.handleAdmit env peer access connection now

omit h

end Steps

/-! ### Whole runs -/

theorem sound_step {r : RecordedState} (h : Sound loaded r.state r.log) (call : PairingCall) :
    Sound loaded (r.step call).state (r.step call).log := by
  refine (h.expire call.env 0 call.now).dispatch (fun invite hinvite => ?_) call.env call.command
  exact (openInvitation_eq_some hinvite).2

theorem sound_start {namespaceName : String}
    (hstart : start namespaceName loaded = .ok s) : Sound loaded s [] := by
  obtain ⟨_, -, hnamed⟩ := bind_ok hstart
  obtain ⟨hsmall, hchecked⟩ := ensure_bind_ok hnamed
  obtain ⟨_, -, hdone⟩ := bind_ok hchecked
  cases hdone
  refine ⟨?_, offered_of_none rfl _, each_nil⟩
  constructor
  · rfl
  · exact fun identity hidentity => hidentity
  · intro identity
    exact ⟨fun hmem => absurd hmem (Finset.notMem_empty _), fun hmem => absurd hmem.1 hmem.2⟩
  · exact of_decide_eq_true hsmall
  · exact Nat.zero_le _
  · intro a ha
    exact absurd ha List.not_mem_nil
  · intro identity hidentity
    exact Or.inl ⟨hidentity, fun e he => absurd he List.not_mem_nil⟩

/-- A command that only changes something if the storage saves it. -/
def PairingCommand.Saves : PairingCommand → Prop
  | .approve .. | .diagnostics .. => True
  | .invite | .pending | .claim .. | .cancel | .revoke _ | .admitConnection .. => False

/-- A failed approval or change of a device leaves what expiry left. -/
theorem PairingState.handle_failed (env : PairingEnvironment) (s : PairingState)
    {command : PairingCommand} (hsaves : command.Saves) (now : Instant) {reason : String}
    (hfailed : (s.handle env command now).2 = some (.error reason)) :
    (s.handle env command now).1 = s.expire env 0 now := by
  have hcommit : ∀ (t : PairingState) result, (t.commit result).2 = some (.error reason) →
      (t.commit result).1 = t := by
    intro t result hresult
    cases result with
    | ok pair => cases hresult
    | error _ => rfl
  cases command with
  | approve identity verification permissions => exact hcommit _ _ hfailed
  | diagnostics identity enabled => exact hcommit _ _ hfailed
  | _ => exact hsaves.elim

/-- **Only approved devices are trusted, whatever the storage does.**  Published is what is in
memory; what is stored beyond that are the unsaved revocations; every admission is of a paired device
and newer than its approval; the bounds hold; what happened was allowed; every device was approved or
loaded.  A revocation ends every admission of the device, and an approval or a change that fails
changes nothing. -/
theorem trust_survives_storage_failure (namespaceName : String)
    (loaded : Dict String PairedDevice) (s : PairingState)
    (hstart : start namespaceName loaded = .ok s) (calls : List PairingCall) :
    let r := Transition.exec RecordedState.step ⟨s, []⟩ calls
    r.state.published = r.state.devices ∧
      (∀ a ∈ r.state.admissions, a.identity ∈ r.state.devices ∧
        Since (Spares a.identity) (.admitted a) r.log) ∧
      (∀ identity, identity ∈ r.state.stored ∧ identity ∉ r.state.devices ↔
        identity ∈ r.state.unsavedRevocations) ∧
      r.state.devices.size ≤ maxDevices ∧ r.state.admissions.length ≤ maxConnections ∧
      (∀ identity ∈ r.state.devices, Approved loaded identity r.log) ∧
      Each (fun earlier e => Allowed earlier e) r.log ∧
      (∀ env identity now, let after := (r.state.handle env (.revoke identity) now).1
        identity ∉ after.devices ∧ (∀ a ∈ after.admissions, a.identity ≠ identity) ∧
          ∀ a ∈ r.state.admissions, a.identity = identity →
            a.access ∈ after.ended ∧ a.connection ∈ after.closed) ∧
      ∀ env command now reason, command.Saves →
        (r.state.handle env command now).2 = some (.error reason) →
          let after := (r.state.handle env command now).1
          after.devices = r.state.devices ∧ after.stored = r.state.stored ∧
            after.unsavedRevocations = r.state.unsavedRevocations ∧
            after.admissions = r.state.admissions.filter (r.state.isLive env 0) ∧
            after.invitation = r.state.openInvitation now := by
  intro r
  have hr : Sound loaded r.state r.log := Transition.exec_invariant
    (P := fun r : RecordedState => Sound loaded r.state r.log) (fun _ call h => sound_step h call)
    (sound_start hstart) calls
  refine ⟨hr.trusted.published, hr.trusted.admitted, fun identity => (hr.trusted.unsaved _).symm,
    hr.trusted.small, hr.trusted.few, hr.trusted.approved, hr.orderly, ?_, ?_⟩
  · intro env identity now
    obtain ⟨hdevice, hadmissions, hended⟩ := (hr.expire env 0 now).forgotten env identity
    refine ⟨hdevice, hadmissions, fun a ha hidentity => hended a ?_ hidentity⟩
    cases hlive : r.state.isLive env 0 a with
    | true => exact Or.inl (List.mem_filter.mpr ⟨ha, hlive⟩)
    | false =>
        -- expiry has ended it
        have hdropped : a ∈ r.state.admissions.filter fun b => !r.state.isLive env 0 b := by
          simp [List.mem_filter, ha, hlive]
        exact Or.inr ⟨List.mem_append_right _ (List.mem_map_of_mem hdropped),
          List.mem_append_right _ (List.mem_map_of_mem hdropped)⟩
  · intro env command now reason hsaves hfailed
    have hafter := handle_failed env r.state hsaves now hfailed
    simp only [hafter]
    exact ⟨rfl, rfl, rfl, rfl, rfl⟩

theorem trust_survives_storage_failure_of_unsaved :
    ∃ s, start "tls" ∅ = .ok s ∧ ∀ (env : PairingEnvironment) (peer : PeerIdentity),
      let calls : List PairingCall :=
        [⟨env, .invite, 0⟩, ⟨env, .claim peer Token.zero "Phone", 1⟩,
          ⟨env, .approve peer.identity "000000" ⟨true, true, true, true⟩, 2⟩,
          ⟨env, .admitConnection peer 0 0, 3⟩,
          ⟨{ env with save := .error "disk full" }, .revoke peer.identity, 4⟩]
      let r := Transition.exec RecordedState.step ⟨s, []⟩ calls
      r.state.published = r.state.devices ∧
        ∀ identity, identity ∈ r.state.stored ∧ identity ∉ r.state.devices ↔
          identity ∈ r.state.unsavedRevocations := by
  refine ⟨_, rfl, fun env peer => ?_⟩
  obtain ⟨hpublished, -, hunsaved, -⟩ := trust_survives_storage_failure "tls" ∅ _ rfl
    [⟨env, .invite, 0⟩, ⟨env, .claim peer Token.zero "Phone", 1⟩,
      ⟨env, .approve peer.identity "000000" ⟨true, true, true, true⟩, 2⟩,
      ⟨env, .admitConnection peer 0 0, 3⟩,
      ⟨{ env with save := .error "disk full" }, .revoke peer.identity, 4⟩]
  exact ⟨hpublished, hunsaved⟩

end Pairing
