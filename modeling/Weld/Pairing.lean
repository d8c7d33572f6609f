/-
**The pairing authority.**

`session/pairing.rs` decides which devices are trusted.  An invitation with a secret token is claimed
by one device, the person at the host compares a short code and approves, and the device is stored;
from then on its connections are admitted until it is revoked.

What the authority asks of its surroundings while it handles one command (does the storage save, is a
connection still there, does the caller still wait) is answered by a `PairingEnvironment`.  Ending an
access session and closing a connection are recorded in `ended` and `closed`.

Main definitions: `PairingState`, `PairingState.invite`, `claim`, `approve`, `revoke`,
`diagnostics`, `admitConnection`, `PairingState.start`, `RecordedState`.
-/

import Mathlib.Data.Finset.Insert
import Weld.Dict

namespace Pairing

/-! ### Names and tokens -/

/-- Nanoseconds since some origin. -/
abbrev Instant := ℕ

def invitationLifetime : ℕ := 120 * 10 ^ 9

def maxDevices : ℕ := 32

def maxConnections : ℕ := 8

abbrev AccessSessionId := ℕ

abbrev ConnectionId := ℕ

/-- Unicode's control characters. -/
def isControl (c : Char) : Bool :=
  decide (c.val ≤ 0x1F) || (decide (0x7F ≤ c.val) && decide (c.val ≤ 0x9F))

def validateLabel (value : String) (maximum : ℕ) : Except String Unit :=
  if value.isEmpty = false ∧ value.utf8ByteSize ≤ maximum ∧ value.toList.any isControl = false then
    .ok ()
  else .error "identity and device labels must be bounded nonempty text without controls"

def validateName (name : String) : Except String Unit := validateLabel name 80

/-- An identity, scoped to what authenticated it. -/
structure PeerIdentity where
  namespaceName : String
  identity : String
  valid : validateLabel namespaceName 80 = .ok () ∧ validateLabel identity 160 = .ok ()

structure Token where
  bytes : List UInt8
  size : bytes.length = 32
  deriving DecidableEq

/-- The bits in which two tokens differ, folded into one byte. -/
def Token.mismatch (a b : Token) : UInt8 :=
  (a.bytes.zip b.bytes).foldl (fun sum pair => sum ||| (pair.1 ^^^ pair.2)) 0

/-- The token of an invitation that was claimed. -/
def Token.zero : Token := ⟨List.replicate 32 0, by simp⟩

def hexDigit (n : ℕ) : Char :=
  if n < 10 then Char.ofNat (48 + n) else Char.ofNat (55 + n)

/-- Two upper-case digits for every byte. -/
def verificationCode (bytes : List UInt8) : String :=
  String.ofList (bytes.flatMap fun byte => [hexDigit (byte.toNat / 16), hexDigit (byte.toNat % 16)])

/-! ### Devices -/

structure DevicePermissions where
  browse : Bool
  hoist : Bool
  diagnostics : Bool
  thumbnails : Bool
  deriving DecidableEq

structure PairedDevice where
  identity : String
  name : String
  permissions : DevicePermissions
  deriving DecidableEq

structure PairingCandidate where
  identity : String
  name : String
  verification : String
  deriving DecidableEq

structure Invitation where
  token : Token
  expires : Instant
  candidate : Option PairingCandidate

structure Admission where
  identity : String
  access : AccessSessionId
  connection : ConnectionId
  deriving DecidableEq

/-- What the surroundings answer during one command.  The state of sessions and connections may
change while it is handled, so they are asked by the number of the question. -/
structure PairingEnvironment where
  token : Except String Token
  code : Except String (List UInt8)
  save : Except String Unit := .ok ()
  waiting : Bool := true
  delivered : Bool := true
  requesterWaiting : Bool := true
  authorized : ℕ → AccessSessionId → Bool := fun _ _ => true
  connected : ℕ → ConnectionId → Bool := fun _ _ => true

structure PairingState where
  namespaceName : String
  stored : Dict String PairedDevice
  devices : Dict String PairedDevice
  published : Dict String PairedDevice
  unsavedRevocations : Finset String := ∅
  invitation : Option Invitation := none
  admissions : List Admission := []
  ended : List AccessSessionId := []
  closed : List ConnectionId := []

namespace PairingState

variable (env : PairingEnvironment) (s : PairingState)

def isAuthorized (i : ℕ) (access : AccessSessionId) : Bool :=
  decide (access ∉ s.ended) && env.authorized i access

def isLive (i : ℕ) (admission : Admission) : Bool :=
  s.isAuthorized env i admission.access && env.connected i admission.connection

/-- Dropping admissions ends their sessions and closes their connections. -/
def retire (dropped : List Admission) : PairingState :=
  { s with
    ended := s.ended ++ dropped.map (·.access)
    closed := s.closed ++ dropped.map (·.connection) }

def retain (keep : Admission → Bool) : PairingState :=
  { s with admissions := s.admissions.filter keep }.retire
    (s.admissions.filter fun admission => !keep admission)

/-- The invitation, unless it has expired. -/
def openInvitation (now : Instant) : Option Invitation :=
  s.invitation.filter fun invite => decide (now < invite.expires)

def expire (i : ℕ) (now : Instant) : PairingState :=
  { s with invitation := s.openInvitation now }.retain (s.isLive env i)

/-- The operation fails unless the condition holds. -/
def ensure (condition : Bool) (reason : String) : Except String Unit :=
  if condition then .ok () else .error reason

def checkPeer (peer : PeerIdentity) : Except String Unit :=
  ensure (peer.namespaceName == s.namespaceName) "authentication namespace differs"

/-- A storage error leaves what was stored. -/
def save (devices : Dict String PairedDevice) : Except String PairingState :=
  env.save.map fun _ => { s with stored := devices }

/-- Everything that was revoked is stored now. -/
def saved : PairingState := { s with unsavedRevocations := ∅ }

def replace : PairingState := { s with published := s.devices }

def dropIdentity (identity : String) : PairingState :=
  s.retain fun admission => decide (admission.identity ≠ identity)

/-! ### Enrollment -/

def invite (now : Instant) : Except String (PairingState × Token) := do
  let token ← env.token
  .ok ({ s with invitation := some ⟨token, now + invitationLifetime, none⟩ }, token)

def claim (peer : PeerIdentity) (token : Token) (name : String) :
    Except String (PairingState × PairingCandidate × Instant) := do
  s.checkPeer peer
  validateName name
  match s.invitation with
  | none => .error "pairing invitation expired or absent"
  | some invite =>
      ensure invite.candidate.isNone "pairing invitation already claimed"
      ensure (invite.token.mismatch token == 0) "invalid pairing invitation"
      let bytes ← env.code
      let candidate : PairingCandidate := ⟨peer.identity, name, verificationCode bytes⟩
      .ok ({ s with invitation := some ⟨Token.zero, invite.expires, some candidate⟩ }, candidate,
        invite.expires)

def approve (identity verification : String)
    (permissions : DevicePermissions) : Except String PairingState :=
  match s.invitation.bind (·.candidate) with
  | none => .error "no pending pairing request"
  | some candidate => do
      ensure (candidate.identity == identity && candidate.verification == verification)
        "pairing verification does not match"
      ensure env.requesterWaiting "pairing requester disconnected"
      ensure (decide (s.devices.size < maxDevices) || decide (identity ∈ s.devices))
        "paired device limit reached"
      let devices := s.devices.insert identity ⟨identity, candidate.name, permissions⟩
      let s ← s.save env devices
      .ok { ({ s.saved with devices := devices } : PairingState).replace.dropIdentity identity with
        invitation := none }

/-! ### Trust -/

/-- Forget a device, whether or not the storage will save it. -/
def forget (identity : String) : PairingState :=
  (({ s with
      devices := s.devices.erase identity
      unsavedRevocations := insert identity s.unsavedRevocations } : PairingState).dropIdentity
    identity).replace

def revoke (identity : String) : PairingState × Except String Unit :=
  if identity ∈ s.devices ∨ identity ∈ s.unsavedRevocations then
    match (s.forget identity).save env (s.forget identity).devices with
    | .ok s => (s.saved, .ok ())
    | .error _ => (s.forget identity,
        .error "device revoked for this session; could not persist revocation")
  else (s, .error "device is not paired")

def diagnostics (identity : String) (enabled : Bool) : Except String PairingState := do
  ensure (decide (identity ∈ s.devices)) "device is not paired"
  let devices := s.devices.modify identity fun device =>
    { device with permissions := { device.permissions with diagnostics := enabled } }
  let s ← s.save env devices
  .ok ({ s.saved with devices := devices } : PairingState).replace

/-- An admission that is refused is dropped. -/
def admitConnection (peer : PeerIdentity) (admission : Admission) :
    PairingState × Except String DevicePermissions :=
  let checked : Except String DevicePermissions := do
    s.checkPeer peer
    ensure (s.isLive env 1 admission) "connection admission cancelled"
    let permissions ← ((s.devices.lookup peer.identity).map (·.permissions)).elim
      (.error "device is not paired") .ok
    ensure (decide (s.admissions.length < maxConnections)) "device session limit reached"
    .ok permissions
  match checked with
  | .ok permissions => ({ s with admissions := s.admissions ++ [admission] }, .ok permissions)
  | .error reason => (s.retire [admission], .error reason)

end PairingState

/-! ### Commands -/

inductive PairingCommand
  | invite
  | pending
  | claim (peer : PeerIdentity) (token : Token) (name : String)
  | approve (identity verification : String) (permissions : DevicePermissions)
  | cancel
  | revoke (identity : String)
  | diagnostics (identity : String) (enabled : Bool)
  | admitConnection (peer : PeerIdentity) (access : AccessSessionId) (connection : ConnectionId)

inductive PairingAnswer
  | token (token : Token)
  | pending (candidate : Option PairingCandidate)
  | claimed (candidate : PairingCandidate) (expires : Instant)
  | done
  | permissions (permissions : DevicePermissions)

/-- A caller that went away before its claim was handled gets no answer. -/
abbrev PairingReply := Option (Except String PairingAnswer)

namespace PairingState

variable (env : PairingEnvironment)

/-- An operation that changes the state only if it succeeds. -/
def commit (s : PairingState) (result : Except String (PairingState × PairingAnswer)) :
    PairingState × PairingReply :=
  match result with
  | .ok (s', answer) => (s', some (.ok answer))
  | .error reason => (s, some (.error reason))

/-- The admission of a connection, as its listener asks for it. -/
def handleAdmit (s : PairingState) (peer : PeerIdentity) (access : AccessSessionId)
    (connection : ConnectionId) (now : Instant) : PairingState × PairingReply :=
  let admission : Admission := ⟨peer.identity, access, connection⟩
  let admitted :=
    if env.waiting then s.admitConnection env peer admission
    else (s.retire [admission], .error "admission cancelled")
  let answer := some (admitted.2.map .permissions)
  if env.delivered then (admitted.1, answer)
  else (({ admitted.1 with ended := admitted.1.ended ++ [access] } : PairingState).expire env 2 now,
    answer)

def dispatch (s : PairingState) (command : PairingCommand) (now : Instant) :
    PairingState × PairingReply :=
  match command with
  | .invite => s.commit ((s.invite env now).map fun result => (result.1, .token result.2))
  | .pending => (s, some (.ok (.pending (s.invitation.bind (·.candidate)))))
  | .claim peer token name =>
      if env.waiting then
        s.commit ((s.claim env peer token name).map fun result =>
          (result.1, .claimed result.2.1 result.2.2))
      else (s, none)
  | .approve identity verification permissions =>
      s.commit ((s.approve env identity verification permissions).map (·, .done))
  | .cancel => ({ s with invitation := none }, some (.ok .done))
  | .revoke identity =>
      ((s.revoke env identity).1, some ((s.revoke env identity).2.map fun _ => .done))
  | .diagnostics identity enabled =>
      s.commit ((s.diagnostics env identity enabled).map (·, .done))
  | .admitConnection peer access connection => s.handleAdmit env peer access connection now

/-- Every command begins with expiry. -/
def handle (s : PairingState) (command : PairingCommand) (now : Instant) :
    PairingState × PairingReply :=
  (s.expire env 0 now).dispatch env command now

/-- The device belongs to its key, and its labels are in order. -/
def checkDevice (entry : Σ _ : String, PairedDevice) : Except String Unit := do
  validateLabel entry.1 160
  ensure (entry.1 == entry.2.identity) "device identity differs from its key"
  validateName entry.2.name

/-- The state of an authority that has loaded its storage. -/
def start (namespaceName : String) (loaded : Dict String PairedDevice) :
    Except String PairingState := do
  validateLabel namespaceName 80
  ensure (decide (loaded.size ≤ maxDevices)) "device database exceeds limit"
  loaded.entries.forM checkDevice
  .ok { namespaceName := namespaceName, stored := loaded, devices := loaded, published := loaded }

end PairingState

/-! ### What happened -/

inductive PairingEvent
  | invited (token : Token) (expires : Instant)
  | claimed (candidate : PairingCandidate) (token : Token) (expires now : Instant)
  | approved (identity verification : String) (now : Instant)
  | cancelled
  | revoked (identity : String)
  | admitted (admission : Admission)

/-- What a command did, by its answer. -/
def PairingCommand.event (now : Instant) : PairingCommand → PairingReply → Option PairingEvent
  | .invite, some (.ok (.token token)) => some (.invited token (now + invitationLifetime))
  | .claim _ token _, some (.ok (.claimed candidate expires)) =>
      some (.claimed candidate token expires now)
  | .approve identity verification _, some (.ok _) => some (.approved identity verification now)
  | .cancel, _ => some .cancelled
  | .revoke identity, _ => some (.revoked identity)
  | .admitConnection peer access connection, some (.ok _) =>
      some (.admitted ⟨peer.identity, access, connection⟩)
  | _, _ => none

/-- A command with what the surroundings answer while it is handled. -/
structure PairingCall where
  env : PairingEnvironment
  command : PairingCommand
  now : Instant

/-- A state, and what happened so far. -/
structure RecordedState where
  state : PairingState
  log : List PairingEvent := []

def RecordedState.step (r : RecordedState) (call : PairingCall) : RecordedState where
  state := (r.state.handle call.env call.command call.now).1
  log := r.log ++
    (call.command.event call.now (r.state.handle call.env call.command call.now).2).toList

end Pairing
