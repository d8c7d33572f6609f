/-
**What one end of a local socket keeps.**

Every function of an end moves packets from the kernel to the received ones, or from the outgoing ones
to the kernel, and keeps the counters along with it.  Only an end that has noticed that its peer is
gone drops what it has queued.

Main definitions: `Counted`, `Watching`, `Moves`.

Main results:

* `flush_spec`, `receiveReady_spec` — what the two loops do;
* `receiveReady_all` — if there is room for everything, everything is received.
-/

import Mathlib.Algebra.BigOperators.Group.List.Basic
import Weld.LocalSocket

namespace LocalSocket

/-! ### Counters -/

/-- The number of descriptors some packets carry. -/
def fdCount (packets : List Datagram) : ℕ :=
  (packets.map fun packet => packet.fileDescriptors.length).sum

@[simp] theorem fdCount_nil : fdCount [] = 0 := rfl

@[simp] theorem fdCount_cons (packet : Datagram) (packets : List Datagram) :
    fdCount (packet :: packets) = packet.fileDescriptors.length + fdCount packets := rfl

@[simp] theorem fdCount_append (a b : List Datagram) : fdCount (a ++ b) = fdCount a + fdCount b := by
  simp [fdCount]

def charges (packets : List LocalPacket) : ℕ := (packets.map LocalPacket.chargeBytes).sum

@[simp] theorem charges_nil : charges [] = 0 := rfl

@[simp] theorem charges_append (a b : List LocalPacket) :
    charges (a ++ b) = charges a + charges b := by
  simp [charges]

def wires (packets : List LocalPacket) : List Datagram := packets.map LocalPacket.wire

@[simp] theorem wires_nil : wires [] = [] := rfl

@[simp] theorem wires_append (a b : List LocalPacket) : wires (a ++ b) = wires a ++ wires b := by
  simp [wires]

/-- A packet as an end sends it. -/
structure Valid (packet : Datagram) : Prop where
  nonempty : packet.bytes ≠ []
  bytes : packet.bytes.length ≤ maxPacketBytes
  fds : packet.fileDescriptors.length ≤ maxPacketFds

structure Counted (c : Connection) : Prop where
  queuedFds : c.queuedFileDescriptors = fdCount (wires c.outgoing)
  queuedBytes : c.queuedBytes = charges c.outgoing
  receivedFds : c.receivedFileDescriptors = fdCount (wires c.received)
  packetLimit : c.outgoing.length ≤ maxQueuedPackets
  fdLimit : c.queuedFileDescriptors ≤ maxQueuedFileDescriptors
  byteLimit : c.queuedBytes ≤ maxQueuedBytes
  receivedLimit : c.received.length ≤ maxQueuedPackets
  receivedFdLimit : c.receivedFileDescriptors ≤ maxQueuedFileDescriptors
  limit : c.receiveLimit ≤ maxQueuedPackets
  valid : ∀ packet ∈ c.outgoing, Valid packet.wire
  /-- A socket that was given up has nothing to send. -/
  retired : c.registered = false → c.disconnected = true ∧ c.outgoing = []

/-- What the end can do it hears of. -/
structure Watching (c : Connection) : Prop where
  readable : c.registered = true → c.hasRoom = true → c.interest.readable = true
  writable : c.registered = true → c.outgoing ≠ [] → c.interest.writable = true

/-- Packets were received from `incoming` and sent to `sent`; some may have been dropped at the end of
the queue, but only by an end that knows that its peer is gone. -/
structure Moves (c c' : Connection) (incoming incoming' sent sent' : List Datagram) : Prop where
  received : ∃ taken, incoming = taken ++ incoming' ∧ wires c'.received = wires c.received ++ taken
  outgoing : ∃ gone lost, wires c.outgoing = gone ++ wires c'.outgoing ++ lost ∧
    sent' = sent ++ gone ∧ (c'.disconnected = false → lost = [])
  disconnected : c.disconnected = true → c'.disconnected = true

namespace Moves

variable {c c' c'' : Connection} {incoming incoming' incoming'' sent sent' sent'' : List Datagram}

/-- Nothing moves if the queues stay as they are. -/
theorem of_eq (hreceived : c'.received = c.received) (houtgoing : c'.outgoing = c.outgoing)
    (hdisconnected : c.disconnected = true → c'.disconnected = true) :
    Moves c c' incoming incoming sent sent :=
  ⟨⟨[], rfl, by rw [hreceived, List.append_nil]⟩,
    ⟨[], [], by rw [houtgoing]; simp, by rw [List.append_nil], fun _ => rfl⟩, hdisconnected⟩

theorem trans (h : Moves c c' incoming incoming' sent sent')
    (h' : Moves c' c'' incoming' incoming'' sent' sent'') :
    Moves c c'' incoming incoming'' sent sent'' := by
  obtain ⟨taken, rfl, hreceived⟩ := h.received
  obtain ⟨taken', rfl, hreceived'⟩ := h'.received
  obtain ⟨gone, lost, houtgoing, rfl, hlost⟩ := h.outgoing
  obtain ⟨gone', lost', houtgoing', rfl, hlost'⟩ := h'.outgoing
  refine ⟨⟨taken ++ taken', by rw [List.append_assoc], ?_⟩,
    ⟨gone ++ gone', lost' ++ lost, ?_, by rw [List.append_assoc], fun hstill => ?_⟩,
    fun hd => h'.disconnected (h.disconnected hd)⟩
  · rw [hreceived', hreceived, List.append_assoc]
  · rw [houtgoing, houtgoing']
    simp only [List.append_assoc]
  · have hbefore : c'.disconnected = false := by
      cases hcase : c'.disconnected with
      | false => rfl
      | true => rw [h'.disconnected hcase] at hstill; cases hstill
    rw [hlost' hstill, hlost hbefore]
    rfl

end Moves

/-! ### Sending -/

variable (kernel : Kernel)

/-- What is sent comes from the front of the queue, and leaves the counters. -/
theorem flush_spec (broken : Bool) (outgoing : List LocalPacket) (fds bytes : ℕ)
    (fifo : List Datagram) :
    ∃ gone, outgoing = gone ++ (flush kernel broken outgoing fds bytes fifo).outgoing ∧
      (flush kernel broken outgoing fds bytes fifo).fifo = fifo ++ wires gone ∧
      (flush kernel broken outgoing fds bytes fifo).queuedFileDescriptors =
        fds - fdCount (wires gone) ∧
      (flush kernel broken outgoing fds bytes fifo).queuedBytes = bytes - charges gone := by
  induction outgoing generalizing fds bytes fifo with
  | nil => exact ⟨[], by simp [flush]⟩
  | cons packet rest ih =>
      unfold flush
      split_ifs
      · exact ⟨[], by simp⟩
      · exact ⟨[], by simp⟩
      · obtain ⟨gone, houtgoing, hfifo, hfds, hbytes⟩ :=
          ih (fds - packet.wire.fileDescriptors.length) (bytes - packet.chargeBytes)
            (fifo ++ [packet.wire])
        refine ⟨packet :: gone, ?_, ?_, ?_, ?_⟩
        · rw [List.cons_append, ← houtgoing]
        · rw [hfifo, List.append_assoc]
          rfl
        · rw [hfds]
          simp only [wires, List.map_cons, fdCount_cons]
          omega
        · rw [hbytes]
          simp only [charges, List.map_cons, List.sum_cons]
          omega
      · exact ⟨[], by simp⟩

/-- Nothing is sent to an end that is closed, and the first attempt fails. -/
theorem flush_broken (packet : LocalPacket) (rest : List LocalPacket) (fds bytes : ℕ)
    (fifo : List Datagram) :
    (flush kernel true (packet :: rest) fds bytes fifo).fifo = fifo ∧
      (flush kernel true (packet :: rest) fds bytes fifo).error ≠ none := by
  unfold flush
  by_cases hfds : maxPacketFds < packet.wire.fileDescriptors.length
  · rw [if_pos hfds]
    exact ⟨rfl, Option.some_ne_none _⟩
  · rw [if_neg hfds, if_pos rfl]
    exact ⟨rfl, Option.some_ne_none _⟩

/-- A packet that cannot be sent stays. -/
theorem flush_error_outgoing (broken : Bool) (outgoing : List LocalPacket) (fds bytes : ℕ)
    (fifo : List Datagram) (h : (flush kernel broken outgoing fds bytes fifo).error ≠ none) :
    (flush kernel broken outgoing fds bytes fifo).outgoing ≠ [] := by
  induction outgoing generalizing fds bytes fifo with
  | nil => exact absurd rfl h
  | cons packet rest ih =>
      unfold flush at h ⊢
      split_ifs at h ⊢
      · exact List.cons_ne_nil _ _
      · exact List.cons_ne_nil _ _
      · exact ih _ _ _ h
      · exact absurd rfl h

/-- Packets that are valid can be sent to an end that is there. -/
theorem flush_error {outgoing : List LocalPacket} {fds bytes : ℕ} {fifo : List Datagram}
    (hvalid : ∀ packet ∈ outgoing, Valid packet.wire) :
    (flush kernel false outgoing fds bytes fifo).error = none := by
  induction outgoing generalizing fds bytes fifo with
  | nil => rfl
  | cons packet rest ih =>
      unfold flush
      split_ifs with hfds hbroken haccepts
      · exact absurd (hvalid packet List.mem_cons_self).fds (by omega)
      · cases hbroken
      · exact ih fun other hother => hvalid other (List.mem_cons_of_mem _ hother)
      · rfl

section

variable {c : Connection} {kernel : Kernel} {broken : Bool} {fifo : List Datagram}

theorem Counted.sendReady (h : Counted c) (kernel : Kernel) (broken : Bool)
    (fifo : List Datagram) : Counted (c.sendReady kernel broken fifo).1 := by
  obtain ⟨gone, houtgoing, -, hfds, hbytes⟩ := flush_spec kernel broken c.outgoing
    c.queuedFileDescriptors c.queuedBytes fifo
  have hfdSum := congrArg (fun packets => fdCount (wires packets)) houtgoing
  have hbyteSum := congrArg charges houtgoing
  have hlength := congrArg List.length houtgoing
  simp only [wires_append, fdCount_append] at hfdSum
  rw [charges_append] at hbyteSum
  rw [List.length_append] at hlength
  have h1 := h.queuedFds
  have h2 := h.queuedBytes
  have h3 := h.packetLimit
  have h4 := h.fdLimit
  have h5 := h.byteLimit
  refine ⟨?_, ?_, h.receivedFds, ?_, ?_, ?_, h.receivedLimit, h.receivedFdLimit, h.limit, ?_, ?_⟩
  · simp only [Connection.sendReady]
    omega
  · simp only [Connection.sendReady]
    omega
  · simp only [Connection.sendReady]
    omega
  · simp only [Connection.sendReady]
    omega
  · simp only [Connection.sendReady]
    omega
  · intro packet hpacket
    refine h.valid packet ?_
    rw [houtgoing]
    exact List.mem_append_right _ hpacket
  · intro hregistered
    obtain ⟨hdisconnected, hempty⟩ := h.retired hregistered
    exact ⟨hdisconnected, (List.append_eq_nil_iff.mp (houtgoing.symm.trans hempty)).2⟩

theorem Watching.sendReady (h : Watching c) (kernel : Kernel) (broken : Bool)
    (fifo : List Datagram) : Watching (c.sendReady kernel broken fifo).1 := by
  obtain ⟨gone, houtgoing, -⟩ := flush_spec kernel broken c.outgoing
    c.queuedFileDescriptors c.queuedBytes fifo
  refine ⟨h.readable, fun hregistered hsome => h.writable hregistered fun hnone => hsome ?_⟩
  exact (List.append_eq_nil_iff.mp (houtgoing.symm.trans hnone)).2

theorem Moves.sendReady (c : Connection) (kernel : Kernel) (broken : Bool)
    (incoming fifo : List Datagram) :
    Moves c (c.sendReady kernel broken fifo).1 incoming incoming fifo
      (c.sendReady kernel broken fifo).2.fifo := by
  obtain ⟨gone, houtgoing, hfifo, -, -⟩ := flush_spec kernel broken c.outgoing
    c.queuedFileDescriptors c.queuedBytes fifo
  refine ⟨⟨[], rfl, by simp [Connection.sendReady]⟩, ⟨wires gone, [], ?_, hfifo, fun _ => rfl⟩,
    fun hd => hd⟩
  have hwires := congrArg wires houtgoing
  rw [wires_append] at hwires
  rw [List.append_nil]
  exact hwires

/-! ### Receiving -/

/-- There is room for every one of these packets, one after the other. -/
def Connection.fitsAll (c : Connection) (packets : List Datagram) : Prop :=
  ∀ i < packets.length, c.received.length + i < c.receiveLimit ∧
    c.receivedFileDescriptors + fdCount (packets.take i) ≤ receiveFdHeadroom

theorem Counted.receive (h : Counted c) (hroom : c.hasRoom = true) {packet : Datagram}
    (hvalid : Valid packet) : Counted (c.receive packet) := by
  simp only [Connection.hasRoom, Bool.and_eq_true, decide_eq_true_eq] at hroom
  have hlimit := h.limit
  have hfds := hvalid.fds
  have hreceived := h.receivedFds
  refine ⟨h.queuedFds, h.queuedBytes, ?_, h.packetLimit, h.fdLimit, h.byteLimit, ?_, ?_, h.limit,
    h.valid, h.retired⟩
  · simp only [Connection.receive, wires_append, fdCount_append]
    rw [hreceived]
    rfl
  · simp only [Connection.receive, List.length_append, List.length_singleton]
    omega
  · simp only [Connection.receive]
    unfold receiveFdHeadroom maxQueuedFileDescriptors maxPacketFds at *
    omega

/-- A packet that is taken in takes room and nothing else. -/
theorem hasRoom_of_receive {packet : Datagram} (h : (c.receive packet).hasRoom = true) :
    c.hasRoom = true := by
  simp only [Connection.hasRoom, Connection.receive, List.length_append, List.length_singleton,
    Bool.and_eq_true, decide_eq_true_eq] at h ⊢
  obtain ⟨hrecords, hfds⟩ := h
  have hfds' := of_decide_eq_true hfds
  exact ⟨by omega, by omega⟩

/-- What a loop that receives leaves behind: the packets it took are at the end of the received ones,
and if it left any, there is no room for the next. -/
theorem receiveReady_spec (ended : Bool) (fifo : List Datagram)
    (hvalid : ∀ packet ∈ fifo, Valid packet) (c : Connection) (hcounted : Counted c)
    (hwatching : Watching c) :
    ∃ c' fifo', c.receiveReady ended fifo = (c', fifo', none) ∧ Counted c' ∧ Watching c' ∧
      (∀ sent, Moves c c' fifo fifo' sent sent) ∧
      (c'.disconnected = true → c.disconnected = true ∨ ended = true) ∧
      c'.registered = c.registered ∧ c'.outgoing = c.outgoing ∧ c'.interest = c.interest ∧
      c'.failure = c.failure := by
  induction fifo generalizing c with
  | nil =>
      unfold Connection.receiveReady
      split_ifs with hended
      · rw [Bool.and_eq_true] at hended
        refine ⟨{ c with disconnected := true }, [], rfl, ?_, ⟨hwatching.readable, hwatching.writable⟩,
          fun _ => Moves.of_eq rfl rfl fun _ => rfl, fun _ => Or.inr hended.2, rfl, rfl, rfl, rfl⟩
        exact ⟨hcounted.queuedFds, hcounted.queuedBytes, hcounted.receivedFds, hcounted.packetLimit,
          hcounted.fdLimit, hcounted.byteLimit, hcounted.receivedLimit, hcounted.receivedFdLimit,
          hcounted.limit, hcounted.valid, fun hregistered => ⟨rfl, (hcounted.retired hregistered).2⟩⟩
      · exact ⟨c, [], rfl, hcounted, hwatching, fun _ => Moves.of_eq rfl rfl id, Or.inl, rfl, rfl,
          rfl, rfl⟩
  | cons packet fifo ih =>
      have hpacket := hvalid packet List.mem_cons_self
      unfold Connection.receiveReady
      split_ifs with hfull hempty htruncated
      · exact ⟨c, packet :: fifo, rfl, hcounted, hwatching, fun _ => Moves.of_eq rfl rfl id, Or.inl,
          rfl, rfl, rfl, rfl⟩
      · exact absurd hempty hpacket.nonempty
      · have hbytes := hpacket.bytes
        have hfds := hpacket.fds
        omega
      · have hroom : c.hasRoom = true := by simpa using hfull
        have hwatching' : Watching (c.receive packet) :=
          ⟨fun hregistered hlater => hwatching.readable hregistered (hasRoom_of_receive hlater),
            hwatching.writable⟩
        obtain ⟨c', fifo', heq, hcounted', hwatching'', hmoves, hdisconnected, hregistered, houtgoing,
          hinterest, hfailure⟩ := ih (fun other hother => hvalid other (List.mem_cons_of_mem _ hother))
            (c.receive packet) (hcounted.receive hroom hpacket) hwatching'
        refine ⟨c', fifo', heq, hcounted', hwatching'', fun sent => ?_, hdisconnected, hregistered,
          houtgoing, hinterest, hfailure⟩
        have hfirst : Moves c (c.receive packet) (packet :: fifo) fifo sent sent :=
          ⟨⟨[packet], rfl, by simp [Connection.receive, wires]⟩,
            ⟨[], [], by simp [Connection.receive], by simp, fun _ => rfl⟩, fun hd => hd⟩
        exact hfirst.trans (hmoves sent)

/-- If there is room for everything, everything is received. -/
theorem receiveReady_all (ended : Bool) (fifo : List Datagram)
    (hvalid : ∀ packet ∈ fifo, Valid packet) (c : Connection) (hfits : c.fitsAll fifo) :
    (c.receiveReady ended fifo).2.1 = [] := by
  induction fifo generalizing c with
  | nil =>
      unfold Connection.receiveReady
      split_ifs
      · rfl
      · rfl
  | cons packet fifo ih =>
      have hpacket := hvalid packet List.mem_cons_self
      have hfirst := hfits 0 (Nat.succ_pos _)
      have hroom : c.hasRoom = true := by
        simpa [Connection.hasRoom] using hfirst
      unfold Connection.receiveReady
      split_ifs with hfull hempty htruncated
      · rw [hroom] at hfull
        cases hfull
      · exact absurd hempty hpacket.nonempty
      · have hbytes := hpacket.bytes
        have hfds := hpacket.fds
        omega
      · refine ih (fun other hother => hvalid other (List.mem_cons_of_mem _ hother)) _ ?_
        intro i hi
        have hnext := hfits (i + 1) (by simpa using hi)
        simp only [List.take_succ_cons, fdCount_cons] at hnext
        simp only [Connection.receive, List.length_append, List.length_singleton]
        omega

/-! ### The rest -/

theorem Counted.updateInterest (h : Counted c) : Counted c.updateInterest := by
  unfold Connection.updateInterest
  split_ifs
  · exact ⟨h.queuedFds, h.queuedBytes, h.receivedFds, h.packetLimit, h.fdLimit, h.byteLimit,
      h.receivedLimit, h.receivedFdLimit, h.limit, h.valid, h.retired⟩
  · exact h

/-- Once the interest is brought up to date, the end hears of what it can do. -/
theorem watching_updateInterest (c : Connection) : Watching c.updateInterest := by
  unfold Connection.updateInterest
  split_ifs with hregistered
  · refine ⟨fun _ hroom => hroom, fun _ hsome => ?_⟩
    cases hcase : c.outgoing with
    | nil => exact absurd hcase hsome
    | cons packet rest => simp
  · exact ⟨fun h => absurd h hregistered, fun h => absurd h hregistered⟩

theorem updateInterest_fields (c : Connection) :
    c.updateInterest.received = c.received ∧ c.updateInterest.outgoing = c.outgoing ∧
      c.updateInterest.disconnected = c.disconnected ∧
      c.updateInterest.registered = c.registered := by
  unfold Connection.updateInterest
  split_ifs <;> exact ⟨rfl, rfl, rfl, rfl⟩

/-- An end that gives its socket up drops what it has queued. -/
theorem Counted.dropped (h : Counted c) (failure : Option TransportError) :
    Counted
      { c with
        failure
        disconnected := true
        outgoing := []
        queuedFileDescriptors := 0
        queuedBytes := 0
        registered := false } :=
  ⟨rfl, rfl, h.receivedFds, Nat.zero_le _, Nat.zero_le _, Nat.zero_le _, h.receivedLimit,
    h.receivedFdLimit, h.limit, fun _ hpacket => absurd hpacket List.not_mem_nil,
    fun _ => ⟨rfl, rfl⟩⟩

theorem Counted.retire (h : Counted c) : Counted c.retireDisconnectedSocket := by
  unfold Connection.retireDisconnectedSocket
  split_ifs with hkept
  · exact h
  · simp only [Bool.or_eq_true, Bool.not_eq_true', not_or, Bool.not_eq_false] at hkept
    have hdropped := h.dropped c.failure
    rw [← hkept.1] at hdropped
    exact hdropped

theorem Moves.retire (c : Connection) (incoming sent : List Datagram) :
    Moves c c.retireDisconnectedSocket incoming incoming sent sent := by
  unfold Connection.retireDisconnectedSocket
  split_ifs with hkept
  · exact Moves.of_eq rfl rfl id
  · simp only [Bool.or_eq_true, Bool.not_eq_true', not_or, Bool.not_eq_false] at hkept
    refine ⟨⟨[], rfl, by simp⟩, ⟨[], wires c.outgoing, by simp, by simp, fun hstill => ?_⟩, id⟩
    have hgone : c.disconnected = false := hstill
    rw [hkept.1] at hgone
    cases hgone

theorem Moves.recordFailure (c : Connection) (error : TransportError)
    (incoming sent : List Datagram) :
    Moves c (c.recordFailure error) incoming incoming sent sent :=
  ⟨⟨[], rfl, by simp [Connection.recordFailure]⟩,
    ⟨[], wires c.outgoing, by simp [Connection.recordFailure], by simp,
      fun hstill => by cases hstill⟩, fun _ => rfl⟩

end

end LocalSocket
