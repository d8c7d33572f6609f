/-
**Packets over a local socket.**

Two processes are joined by a socket pair that keeps the boundaries of packets.  Each end queues what
it cannot send, and stops to read while too much is waiting to be drained.  It watches the socket with
an epoll instance: for reading while there is room, for writing while something is queued, and for the
peer going away at all times.

The kernel is a queue of packets in each direction.  How many it takes is not known, and neither is
when it says that it takes more.  Once an end is closed the other reads what is left and then the end
of the stream, and it can send no more.

Main definitions: `Connection`, `Pair`, `step`.
-/

import Mathlib.Algebra.GroupWithZero.Nat
import Mathlib.Data.List.Basic

namespace LocalSocket

def maxPacketBytes : ℕ := 192 * 1024
def maxPacketFds : ℕ := 16
def maxQueuedPackets : ℕ := 256
def maxQueuedFileDescriptors : ℕ := 128
def maxQueuedBytes : ℕ := 64 * 1024 * 1024
def receiveFdHeadroom : ℕ := maxQueuedFileDescriptors - maxPacketFds
def usizeMax : ℕ := 2 ^ 64 - 1

def saturatingAdd (a b : ℕ) : ℕ := min (a + b) usizeMax

/-! ### Packets -/

inductive LocalPeerRole
  | source
  | destination
  deriving DecidableEq, Repr

/-- The role of the other end. -/
def LocalPeerRole.peer : LocalPeerRole → LocalPeerRole
  | .source => .destination
  | .destination => .source

inductive TransportError
  | io
  | codec
  | packetTooLarge (bytes : ℕ)
  | tooManyFileDescriptors (count : ℕ)
  | sendQueueFull (packets fileDescriptors preflushSent : ℕ) (preflushBlocked : Bool)
  | truncatedPacket
  | peerRoleMismatch (expected actual : LocalPeerRole)
  | protocol (message : String)
  | disconnected
  deriving DecidableEq, Repr

abbrev Fd := ℕ

/-- What crosses the socket. -/
structure Datagram where
  bytes : List UInt8
  fileDescriptors : List Fd
  deriving DecidableEq, Repr

structure LocalPacket where
  wire : Datagram
  chargeBytes : ℕ
  deriving DecidableEq, Repr

structure ReceivedLocalPacket (α : Type) where
  message : α
  fileDescriptors : List Fd
  deriving DecidableEq, Repr

/-- The serializer.  What it writes it reads again, and it always writes something: a message comes
with the role of its sender. -/
structure Postcard (α : Type) where
  toAllocvec : LocalPeerRole → α → Option (List UInt8)
  fromBytes : List UInt8 → Option (LocalPeerRole × α)
  fromBytes_toAllocvec : ∀ role message bytes, toAllocvec role message = some bytes →
    fromBytes bytes = some (role, message)
  toAllocvec_ne_nil : ∀ role message, toAllocvec role message ≠ some []

/-- What the kernel takes on top of what it holds, and when it says that it takes more. -/
structure Kernel where
  accepts : List Datagram → Datagram → Bool
  writable : List Datagram → Bool

def validatePacket (packet : Datagram) : Except TransportError Unit :=
  if maxPacketBytes < packet.bytes.length then .error (.packetTooLarge packet.bytes.length)
  else if maxPacketFds < packet.fileDescriptors.length then
    .error (.tooManyFileDescriptors packet.fileDescriptors.length)
  else .ok ()

section

variable {α : Type}

def LocalPacket.encode (codec : Postcard α) (role : LocalPeerRole) (message : α) (fds : List Fd) :
    Except TransportError LocalPacket :=
  match codec.toAllocvec role message with
  | none => .error .codec
  | some bytes => do
      validatePacket ⟨bytes, fds⟩
      return ⟨⟨bytes, fds⟩, bytes.length⟩

/-- What an end makes of a packet it has received. -/
def unpack (codec : Postcard α) (role : LocalPeerRole) (packet : Datagram) :
    Except TransportError (ReceivedLocalPacket α) :=
  match codec.fromBytes packet.bytes with
  | none => .error .codec
  | some (actual, message) =>
      if actual ≠ role.peer then .error (.peerRoleMismatch role.peer actual)
      else .ok ⟨message, packet.fileDescriptors⟩

end

/-! ### One end -/

/-- What epoll is asked to report.  That the peer has gone it reports unasked. -/
structure Interest where
  readable : Bool := true
  writable : Bool := false
  deriving DecidableEq, Repr

structure Connection where
  outgoing : List LocalPacket := []
  queuedFileDescriptors : ℕ := 0
  queuedBytes : ℕ := 0
  received : List LocalPacket := []
  receivedFileDescriptors : ℕ := 0
  receiveLimit : ℕ := maxQueuedPackets
  disconnected : Bool := false
  registered : Bool := true
  failure : Option TransportError := none
  interest : Interest := {}
  /-- The event that wakes the owner for records it has left behind. -/
  buffered : Bool := false
  deriving DecidableEq, Repr

/-- The outcome of sending what can be sent. -/
structure Flush where
  outgoing : List LocalPacket
  queuedFileDescriptors : ℕ
  queuedBytes : ℕ
  fifo : List Datagram
  sent : ℕ := 0
  blocked : Bool := false
  error : Option TransportError := none

/-- Send packets until the kernel takes no more.  Nothing can be sent to an end that is closed. -/
def flush (kernel : Kernel) (broken : Bool) : List LocalPacket → ℕ → ℕ → List Datagram → Flush
  | [], fds, bytes, fifo => ⟨[], fds, bytes, fifo, 0, false, none⟩
  | packet :: rest, fds, bytes, fifo =>
      if maxPacketFds < packet.wire.fileDescriptors.length then
        ⟨packet :: rest, fds, bytes, fifo, 0, false,
          some (.tooManyFileDescriptors packet.wire.fileDescriptors.length)⟩
      else if broken then ⟨packet :: rest, fds, bytes, fifo, 0, false, some .io⟩
      else if kernel.accepts fifo packet.wire then
        let after := flush kernel broken rest (fds - packet.wire.fileDescriptors.length)
          (bytes - packet.chargeBytes) (fifo ++ [packet.wire])
        { after with sent := after.sent + 1 }
      else ⟨packet :: rest, fds, bytes, fifo, 0, true, none⟩

namespace Connection

variable (c : Connection)

/-- Whether another packet may be received. -/
def hasRoom : Bool :=
  c.received.length < c.receiveLimit && c.receivedFileDescriptors ≤ receiveFdHeadroom

def sendReady (kernel : Kernel) (broken : Bool) (fifo : List Datagram) : Connection × Flush :=
  let sent := flush kernel broken c.outgoing c.queuedFileDescriptors c.queuedBytes fifo
  ({ c with
    outgoing := sent.outgoing
    queuedFileDescriptors := sent.queuedFileDescriptors
    queuedBytes := sent.queuedBytes }, sent)

/-- Take a packet in. -/
def receive (packet : Datagram) : Connection :=
  { c with
    received := c.received ++ [⟨packet, packet.bytes.length⟩]
    receivedFileDescriptors := c.receivedFileDescriptors + packet.fileDescriptors.length }

/-- Receive packets as long as there is room.  What is returned besides is what the kernel still
holds, and what went wrong.  A packet without any bytes is taken for the end of the stream. -/
def receiveReady (ended : Bool) :
    Connection → List Datagram → Connection × List Datagram × Option TransportError
  | c, [] =>
      if c.hasRoom && ended then ({ c with disconnected := true }, [], none) else (c, [], none)
  | c, packet :: fifo =>
      if !c.hasRoom then (c, packet :: fifo, none)
      else if packet.bytes = [] then ({ c with disconnected := true }, fifo, none)
      else if maxPacketBytes < packet.bytes.length ∨
          maxPacketFds < packet.fileDescriptors.length then (c, fifo, some .truncatedPacket)
      else receiveReady ended (c.receive packet) fifo

/-- Epoll reports that the peer has gone, whatever the interest. -/
def notice (gone : Bool) : Connection :=
  { c with buffered := false, disconnected := c.disconnected || (c.registered && gone) }

/-- Receive if epoll reports that there is something to read. -/
def receiveReported (gone : Bool) (fifo : List Datagram) :
    Connection × List Datagram × Option TransportError :=
  if c.registered && c.interest.readable && (!fifo.isEmpty || gone) then c.receiveReady gone fifo
  else (c, fifo, none)

/-- Send if epoll reports that there is room to write. -/
def sendReported (kernel : Kernel) (gone : Bool) (fifo : List Datagram) :
    Connection × List Datagram × Option TransportError :=
  if c.registered && c.interest.writable && kernel.writable fifo then
    let (c, flushed) := c.sendReady kernel gone fifo
    (c, flushed.fifo, flushed.error)
  else (c, fifo, none)

def updateInterest : Connection :=
  if c.registered then
    { c with interest := { readable := c.hasRoom, writable := !c.outgoing.isEmpty } }
  else c

def retireDisconnectedSocket : Connection :=
  if !c.disconnected || !c.registered then c
  else
    { c with registered := false, outgoing := [], queuedFileDescriptors := 0, queuedBytes := 0 }

/-- The first failure is kept.  Both directions are shut down, which is of no consequence here: the
socket is not used after that. -/
def recordFailure (error : TransportError) : Connection :=
  { c with
    failure := c.failure.or (some error)
    disconnected := true
    outgoing := []
    queuedFileDescriptors := 0
    queuedBytes := 0
    registered := false }

end Connection

/-! ### Both ends -/

structure Pair (α : Type) where
  connection : LocalPeerRole → Connection := fun _ => {}
  /-- What the kernel holds for each end. -/
  fifo : LocalPeerRole → List Datagram := fun _ => []
  closed : LocalPeerRole → Bool := fun _ => false
  /-- What each end has queued, and what each end has drained. -/
  queued : LocalPeerRole → List (ReceivedLocalPacket α) := fun _ => []
  returned : LocalPeerRole → List (ReceivedLocalPacket α) := fun _ => []
  /-- For every time an end was told that its peer has gone, the packets it had not drained. -/
  missed : LocalPeerRole → List (List Datagram) := fun _ => []

namespace Pair

variable {α : Type} (kernel : Kernel) (codec : Postcard α) (s : Pair α) (role : LocalPeerRole)

/-- An end, what it is sent and what it sends, after an operation. -/
def set (c : Connection) (incoming sent : List Datagram) : Pair α :=
  { s with
    connection := Function.update s.connection role c
    fifo := Function.update (Function.update s.fifo role incoming) role.peer sent }

/-- Whether the packet may join the queue, and its descriptors there. -/
def admits (c : Connection) (packet : LocalPacket) : Bool :=
  c.queuedFileDescriptors + packet.wire.fileDescriptors.length ≤ maxQueuedFileDescriptors &&
    c.outgoing.length < maxQueuedPackets &&
    saturatingAdd c.queuedBytes packet.chargeBytes ≤ maxQueuedBytes

/-- Queue a packet of the given charge. -/
def enqueue (c : Connection) (packet : LocalPacket) : Connection :=
  { c with
    queuedFileDescriptors := c.queuedFileDescriptors + packet.wire.fileDescriptors.length
    queuedBytes := c.queuedBytes + packet.chargeBytes
    outgoing := c.outgoing ++ [packet] }

/-- Queue a message behind those that wait, and send what the kernel takes. -/
def tryQueue (message : α) (fds : List Fd) (payloadBytes : ℕ) :
    Pair α × Except TransportError Unit :=
  match LocalPacket.encode codec role message fds with
  | .error error => (s, .error error)
  | .ok encoded =>
      let packet := { encoded with chargeBytes := saturatingAdd encoded.chargeBytes payloadBytes }
      let broken := s.closed role.peer
      let (c, preflush) := (s.connection role).sendReady kernel broken (s.fifo role.peer)
      match preflush.error with
      | some error =>
          (s.set role (c.recordFailure error) (s.fifo role) preflush.fifo, .error error)
      | none =>
          if c.disconnected then
            (s.set role c (s.fifo role) preflush.fifo, .error .disconnected)
          else if !admits c packet then
            (s.set role c (s.fifo role) preflush.fifo, .error (.sendQueueFull c.outgoing.length
                (c.queuedFileDescriptors + packet.wire.fileDescriptors.length)
                preflush.sent preflush.blocked))
          else
            let (c, flushed) := (enqueue c packet).sendReady kernel broken preflush.fifo
            match flushed.error with
            | some error =>
                (s.set role (c.recordFailure error) (s.fifo role) flushed.fifo, .error error)
            | none =>
                let s := s.set role c.updateInterest (s.fifo role) flushed.fifo
                ({ s with
                  queued := Function.update s.queued role (s.queued role ++ [⟨message, fds⟩]) },
                  .ok ())

/-- What is wrong with an end after it was pumped. -/
def verdict (c : Connection) : Except TransportError Unit :=
  if c.disconnected && c.received.isEmpty then .error .disconnected else .ok ()

/-- Handle what epoll reports: first that the peer has gone, then that there is something to read, then
that there is room to write.  A socket whose peer has gone is given up. -/
def pump : Pair α × Except TransportError Unit :=
  let gone := s.closed role.peer
  match ((s.connection role).notice gone).receiveReported gone (s.fifo role) with
  | (c, incoming, some error) => (s.set role c incoming (s.fifo role.peer), .error error)
  | (c, incoming, none) =>
      match c.sendReported kernel gone (s.fifo role.peer) with
      | (c, sent, some error) => (s.set role c incoming sent, .error error)
      | (c, sent, none) =>
          let c := c.retireDisconnectedSocket.updateInterest
          (s.set role c incoming sent, verdict c)

def setConnection (c : Connection) : Pair α :=
  { s with connection := Function.update s.connection role c }

/-- Drain at most so many records. -/
def drainLimited (limit : ℕ) : Pair α × Except TransportError (List (ReceivedLocalPacket α)) :=
  let (s, pumped) := s.pump kernel role
  let c := s.connection role
  match c.received.isEmpty, c.failure, pumped with
  | true, some error, _ => (s.setConnection role { c with failure := none }, .error error)
  | true, none, .error error => (s, .error error)
  | _, _, _ =>
      let count := min limit c.received.length
      let packets := c.received.take count
      let c :=
        { c with
          received := c.received.drop count
          receivedFileDescriptors := c.receivedFileDescriptors -
            (packets.map fun packet => packet.wire.fileDescriptors.length).sum }
      let s := s.setConnection role (if count = 0 then c else c.updateInterest)
      (s, packets.mapM fun packet => unpack codec role packet.wire)

def setReceiveLimit (records : ℕ) : Pair α × Except TransportError Unit :=
  if records = 0 ∨ maxQueuedPackets < records then
    (s, .error (.protocol "invalid local receive limit"))
  else
    (s.setConnection role { s.connection role with receiveLimit := records }.updateInterest, .ok ())

def wakeBuffered : Pair α :=
  if (s.connection role).received.isEmpty then s
  else s.setConnection role { s.connection role with buffered := true }

/-- An end that is told that its peer has gone takes note of what it has not drained. -/
def report {β : Type} (role : LocalPeerRole) (result : Pair α × Except TransportError β) : Pair α :=
  match result with
  | (s, .error .disconnected) =>
      { s with
        missed := Function.update s.missed role (s.missed role ++
          [(s.connection role).received.map LocalPacket.wire ++ s.fifo role]) }
  | (s, _) => s

end Pair

/-! ### All steps -/

inductive Label (α : Type)
  | tryQueue (role : LocalPeerRole) (message : α) (fds : List Fd) (payloadBytes : ℕ)
  | pump (role : LocalPeerRole)
  | drainLimited (role : LocalPeerRole) (limit : ℕ)
  | setReceiveLimit (role : LocalPeerRole) (records : ℕ)
  | wakeBuffered (role : LocalPeerRole)
  | close (role : LocalPeerRole)

/-- Who does something. -/
def Label.role {α : Type} : Label α → LocalPeerRole
  | .tryQueue role _ _ _ => role
  | .pump role => role
  | .drainLimited role _ => role
  | .setReceiveLimit role _ => role
  | .wakeBuffered role => role
  | .close role => role

/-- An end that is closed does nothing. -/
def step {α : Type} (kernel : Kernel) (codec : Postcard α) (s : Pair α) (label : Label α) : Pair α :=
  if s.closed label.role then s
  else
    match label with
    | .tryQueue role message fds payloadBytes =>
        (s.tryQueue kernel codec role message fds payloadBytes).1
    | .pump role => Pair.report role (s.pump kernel role)
    | .drainLimited role limit =>
        let drained := s.drainLimited kernel codec role limit
        let after := Pair.report role drained
        { after with
          returned := Function.update after.returned role
            (after.returned role ++ (drained.2.toOption.getD [])) }
    | .setReceiveLimit role records => (s.setReceiveLimit role records).1
    | .wakeBuffered role => s.wakeBuffered role
    | .close role => { s with closed := Function.update s.closed role true }

end LocalSocket
