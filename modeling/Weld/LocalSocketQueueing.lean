/-
**Queueing messages for a local socket.**

A message is queued behind those that wait, and all are sent as far as the kernel takes them.  If that
fails the peer is gone, and the end gives its socket up without reading what the kernel holds for it.

Main definitions: `QueueCalm`.

Main results:

* `Sound.tryQueue` — queueing a message keeps the account.
-/

import Weld.LocalSocketAccount

namespace LocalSocket

variable {α : Type}

/-! ### Queueing -/

/-- An end whose peer is gone has nothing to read, or does not send. -/
def QueueCalm (codec : Postcard α) (s : Pair α) (role : LocalPeerRole) (message : α)
    (fds : List Fd) (payloadBytes : ℕ) : Prop :=
  s.closed role.peer = true → (s.connection role).registered = true →
    s.fifo role = [] ∨
    (s.connection role).outgoing = [] ∧
      ∀ packet, LocalPacket.encode codec role message fds = .ok packet →
        (s.connection role).disconnected = true ∨
        Pair.admits (s.connection role)
          { packet with chargeBytes := saturatingAdd packet.chargeBytes payloadBytes } = false

variable {c : Connection} {codec : Postcard α} {s : Pair α}

theorem Counted.enqueue {packet : LocalPacket} (h : Counted c)
    (hconnected : c.disconnected = false) (hadmits : Pair.admits c packet = true)
    (hvalid : Valid packet.wire) : Counted (Pair.enqueue c packet) := by
  simp only [Pair.admits, Bool.and_eq_true, decide_eq_true_eq] at hadmits
  obtain ⟨⟨hfds, hpackets⟩, hbytes⟩ := hadmits
  unfold saturatingAdd at hbytes
  have hqueuedFds := h.queuedFds
  have hqueuedBytes := h.queuedBytes
  have hmax : maxQueuedBytes < usizeMax := by decide
  refine ⟨?_, ?_, h.receivedFds, ?_, hfds, ?_, h.receivedLimit, h.receivedFdLimit, h.limit, ?_, ?_⟩
  · simp only [Pair.enqueue, wires_append, fdCount_append, hqueuedFds]
    rfl
  · simp only [Pair.enqueue, charges_append, hqueuedBytes]
    rfl
  · simp only [Pair.enqueue, List.length_append, List.length_singleton]
    omega
  · simp only [Pair.enqueue]
    omega
  · intro other hother
    rcases List.mem_append.mp hother with hold | hnew
    · exact h.valid other hold
    · rw [List.mem_singleton] at hnew
      rw [hnew]
      exact hvalid
  · intro hregistered
    have hretired := (h.retired hregistered).1
    rw [hconnected] at hretired
    cases hretired

/-- A failure to send, when there is nothing to be read. -/
theorem Sound.fail {role : LocalPeerRole} {sent : List Datagram} (h : Sound codec s)
    (hopen : s.closed role = false) (hclosed : s.closed role.peer = true) (hcounted : Counted c)
    (hmoves : Moves (s.connection role) c (s.fifo role) (s.fifo role) (s.fifo role.peer) sent)
    (hnothing : s.fifo role = []) (error : TransportError) :
    Sound codec (s.set role (c.recordFailure error) (s.fifo role) sent) := by
  refine h.set _ _ hopen (hcounted.dropped _) ⟨fun hregistered => ?_, fun hregistered => ?_⟩
    (hmoves.trans (Moves.recordFailure c error _ _)) (fun _ => hclosed) (fun _ => rfl)
    fun _ => hnothing
  · cases hregistered
  · cases hregistered

variable {message : ReceivedLocalPacket α}

/-- A message that is queued is last, so nothing may have been dropped before it. -/
theorem Sound.enqueue (h : Sound codec s) (role : LocalPeerRole) (packet : LocalPacket)
    (hconnected : (s.connection role).disconnected = false)
    (hadmits : Pair.admits (s.connection role) packet = true) (hvalid : Valid packet.wire)
    (hunpack : unpack codec role.peer packet.wire = .ok message) :
    Sound codec
      { s.setConnection role
          { Pair.enqueue (s.connection role) packet with
            interest := { readable := (s.connection role).interest.readable, writable := true } } with
        queued := Function.update s.queued role (s.queued role ++ [message]) } := by
  have hcounted := (h.counted role).enqueue hconnected hadmits hvalid
  refine ⟨fun other => ?_, fun other => ?_, h.valid, fun other => ?_, fun other => ?_, fun other => ?_,
    fun other => ?_, h.missed⟩
  · rcases eq_or_eq_peer other role with rfl | rfl
    · rw [Pair.connection_setConnection_self]
      exact ⟨hcounted.queuedFds, hcounted.queuedBytes, hcounted.receivedFds, hcounted.packetLimit,
        hcounted.fdLimit, hcounted.byteLimit, hcounted.receivedLimit, hcounted.receivedFdLimit,
        hcounted.limit, hcounted.valid, hcounted.retired⟩
    · rw [Pair.connection_setConnection_peer]
      exact h.counted role.peer
  · rcases eq_or_eq_peer other role with rfl | rfl
    · rw [Pair.connection_setConnection_self]
      exact ⟨(h.watching other).readable, fun _ _ => rfl⟩
    · rw [Pair.connection_setConnection_peer]
      exact h.watching role.peer
  · rcases eq_or_eq_peer other role with rfl | rfl
    · obtain ⟨lost, hqueued, hlost⟩ := h.ordered other
      refine ⟨lost, ?_, ?_⟩
      · simp only [Pair.underway, Pair.connection_setConnection_self,
          Pair.connection_setConnection_peer, Function.update_of_ne (peer_ne other)]
        exact hqueued
      · rw [Pair.connection_setConnection_peer]
        exact hlost
    · obtain ⟨lost, hqueued, hlost⟩ := h.ordered role.peer
      rw [peer_peer] at hlost hqueued
      have hnone := hlost hconnected
      subst hnone
      refine ⟨[], ?_, fun _ => rfl⟩
      simp only [Pair.underway, peer_peer, Pair.connection_setConnection_self,
        Pair.connection_setConnection_peer, Function.update_self]
      rw [List.map_append, hqueued]
      simp only [Pair.underway, peer_peer, Pair.enqueue, wires_append, List.map_append,
        List.append_assoc, List.append_nil]
      simp [wires, hunpack]
      rfl
  · rcases eq_or_eq_peer other role with rfl | rfl
    · rw [Pair.connection_setConnection_self]
      exact h.gone other
    · rw [Pair.connection_setConnection_peer]
      exact h.gone role.peer
  · rcases eq_or_eq_peer other role with rfl | rfl
    · rw [Pair.connection_setConnection_self]
      exact h.failed other
    · rw [Pair.connection_setConnection_peer]
      exact h.failed role.peer
  · rcases eq_or_eq_peer other role with rfl | rfl
    · rw [Pair.connection_setConnection_self]
      exact h.emptied other
    · rw [Pair.connection_setConnection_peer]
      exact h.emptied role.peer

theorem sendReady_empty (h : c.outgoing = []) (kernel : Kernel) (broken : Bool)
    (fifo : List Datagram) : c.sendReady kernel broken fifo =
      (c, ⟨[], c.queuedFileDescriptors, c.queuedBytes, fifo, 0, false, none⟩) := by
  cases c
  cases h
  rfl

/-- A message is queued, and then sent as far as the kernel takes it. -/
theorem Sound.queueAndSend (h : Sound codec s) (role : LocalPeerRole) (packet : LocalPacket)
    (hopen : s.closed role = false) (hconnected : (s.connection role).disconnected = false)
    (hadmits : Pair.admits (s.connection role) packet = true) (hvalid : Valid packet.wire)
    (hunpack : unpack codec role.peer packet.wire = .ok message) (kernel : Kernel) {flushed : Flush}
      (hsent : (Pair.enqueue (s.connection role) packet).sendReady kernel (s.closed role.peer)
      (s.fifo role.peer) = (c, flushed)) :
    Sound codec
      { s.set role c.updateInterest (s.fifo role) flushed.fifo with
        queued := Function.update s.queued role (s.queued role ++ [message]) } := by
  have hqueued := h.enqueue role packet hconnected hadmits hvalid hunpack
  have hcounted := ((h.counted role).enqueue hconnected hadmits hvalid).sendReady kernel
    (s.closed role.peer) (s.fifo role.peer)
  have hmoves := Moves.sendReady (Pair.enqueue (s.connection role) packet) kernel
    (s.closed role.peer) (s.fifo role) (s.fifo role.peer)
  have hkept : c.disconnected = (s.connection role).disconnected ∧
      c.registered = (s.connection role).registered ∧
      c.failure = (s.connection role).failure := by
    have hc : c = ((Pair.enqueue (s.connection role) packet).sendReady kernel
        (s.closed role.peer) (s.fifo role.peer)).1 := by rw [hsent]
    rw [hc]
    exact ⟨rfl, rfl, rfl⟩
  rw [hsent] at hcounted hmoves
  obtain ⟨hfields₁, hfields₂, hfields₃, hfields₄⟩ := updateInterest_fields c
  have hfailure : c.updateInterest.failure = (s.connection role).failure := by
    rw [← hkept.2.2]
    unfold Connection.updateInterest
    split_ifs
    · rfl
    · rfl
  -- what moved is the same, whatever the end was interested in
  have hstill : Moves c c.updateInterest (s.fifo role) (s.fifo role) flushed.fifo flushed.fifo :=
    Moves.of_eq hfields₁ hfields₂ fun hd => by rw [hfields₃]; exact hd
  have hfinal := hqueued.set (s.fifo role) flushed.fifo hopen
    hcounted.updateInterest (watching_updateInterest c) (by
      have hall := hmoves.trans hstill
      rw [Pair.connection_setConnection_self]
      exact ⟨hall.received, hall.outgoing, hall.disconnected⟩)
    (by
      rw [hfields₃, hkept.1, hconnected]
      exact fun hd => by cases hd)
    (by
      rw [hfailure, hfields₄, hkept.2.1]
      exact h.failed role)
    (by
      rw [hfields₄, hkept.2.1]
      exact h.emptied role)
  have hsame : (({ s.setConnection role
        { Pair.enqueue (s.connection role) packet with
          interest := { readable := (s.connection role).interest.readable, writable := true } } with
        queued := Function.update s.queued role (s.queued role ++ [message]) } : Pair α).set role
          c.updateInterest (s.fifo role) flushed.fifo) =
      { s.set role c.updateInterest (s.fifo role) flushed.fifo with
        queued := Function.update s.queued role (s.queued role ++ [message]) } := by
    unfold Pair.set Pair.setConnection
    rw [Function.update_idem]
  rw [hsame] at hfinal
  exact hfinal

/-- **Queueing a message keeps the account.** -/
theorem Sound.tryQueue (kernel : Kernel) (h : Sound codec s)
    {role : LocalPeerRole} {message : α} {fds : List Fd} {payloadBytes : ℕ}
    (hopen : s.closed role = false) (hcalm : QueueCalm codec s role message fds payloadBytes) :
    Sound codec (s.tryQueue kernel codec role message fds payloadBytes).1 := by
  unfold Pair.tryQueue
  split
  · exact h
  · rename_i encoded hencoded
    obtain ⟨hvalid, hunpack⟩ := encode_valid hencoded
    generalize hpacket : ({ encoded with
      chargeBytes := saturatingAdd encoded.chargeBytes payloadBytes } : LocalPacket) = packet
    have hwire : packet.wire = encoded.wire := by rw [← hpacket]
    rw [← hwire] at hvalid hunpack
    -- the end once it has sent what it could
    have hcounted := (h.counted role).sendReady kernel (s.closed role.peer) (s.fifo role.peer)
    have hwatching := (h.watching role).sendReady kernel (s.closed role.peer) (s.fifo role.peer)
    have hmoves := Moves.sendReady (s.connection role) kernel (s.closed role.peer) (s.fifo role)
      (s.fifo role.peer)
    have hpreflushed := h.set _ _ hopen hcounted hwatching hmoves (h.gone role) (h.failed role)
      (h.emptied role)
    have hempty_or : (s.connection role).outgoing = [] ∨ (s.closed role.peer = true →
        ((s.connection role).sendReady kernel (s.closed role.peer) (s.fifo role.peer)).2.error ≠
          none) := by
      cases hcase : (s.connection role).outgoing with
      | nil => exact Or.inl rfl
      | cons first rest =>
          refine Or.inr fun hclosed => ?_
          have hbroken := (flush_broken kernel first rest (s.connection role).queuedFileDescriptors
            (s.connection role).queuedBytes (s.fifo role.peer)).2
          rw [← hcase] at hbroken
          rw [hclosed]
          exact hbroken
    -- a failure to send means that the peer is gone
    have hclosed_of : ∀ (c : Connection) (fifo : List Datagram), Counted c →
        (c.sendReady kernel (s.closed role.peer) fifo).2.error ≠ none →
        s.closed role.peer = true := by
      intro c fifo hc herror
      by_contra hstill
      rw [Bool.not_eq_true] at hstill
      rw [hstill] at herror
      exact herror (flush_error kernel hc.valid)
    have hnothing_of : s.closed role.peer = true → ((s.connection role).outgoing = [] →
        (s.connection role).disconnected = false ∧
          Pair.admits (s.connection role) packet = true) → s.fifo role = [] := by
      intro hclosed hsends
      cases hregistered : (s.connection role).registered with
      | false => exact h.emptied role hregistered
      | true =>
          rcases hcalm hclosed hregistered with hnothing | ⟨hempty, hidle⟩
          · exact hnothing
          · obtain ⟨hconnected, hadmits⟩ := hsends hempty
            rcases hidle encoded hencoded with hd | hrejected
            · rw [hd] at hconnected
              cases hconnected
            · rw [hpacket, hadmits] at hrejected
              cases hrejected
    rcases hpre : (s.connection role).sendReady kernel (s.closed role.peer) (s.fifo role.peer) with
      ⟨c, preflush⟩
    have hsendEmpty : (s.connection role).outgoing = [] → c = s.connection role ∧
        preflush.error = none ∧ preflush.fifo = s.fifo role.peer := by
      intro hempty
      rw [sendReady_empty hempty] at hpre
      cases hpre
      exact ⟨rfl, rfl, rfl⟩
    have hfirst := hclosed_of _ (s.fifo role.peer) (h.counted role)
    rw [hpre] at hcounted hwatching hmoves hpreflushed hempty_or hfirst
    simp only [hpre]
    split
    · rename_i error herror
      have hsome : preflush.error ≠ none := by
        rw [herror]
        exact Option.some_ne_none _
      have hclosed := hfirst hsome
      refine h.fail hopen hclosed hcounted hmoves (hnothing_of hclosed fun hempty => ?_) error
      exact absurd (hsendEmpty hempty).2.1 hsome
    · rename_i herror
      split_ifs with hdisconnected hfull
      · exact hpreflushed
      · exact hpreflushed
      · rw [Bool.not_eq_true] at hdisconnected
        rw [Bool.not_eq_true', Bool.not_eq_false] at hfull
        have hsecond := hclosed_of _ preflush.fifo (hcounted.enqueue hdisconnected hfull hvalid)
        rcases hflush : (Pair.enqueue c packet).sendReady kernel (s.closed role.peer)
          preflush.fifo with ⟨c', flushed⟩
        rw [hflush] at hsecond
        split
        · rename_i error hfailed
          -- the message itself cannot be sent, so nothing was queued before it
          have hclosed := hsecond (by rw [hfailed]; exact Option.some_ne_none _)
          have hempty : (s.connection role).outgoing = [] := by
            rcases hempty_or with hempty | hbroken
            · exact hempty
            · exact absurd herror (hbroken hclosed)
          obtain ⟨rfl, -, hfifo⟩ := hsendEmpty hempty
          have hnothing := hnothing_of hclosed fun _ => ⟨hdisconnected, hfull⟩
          have hunsent : flushed.fifo = s.fifo role.peer ∧
              c'.recordFailure error = (s.connection role).recordFailure error := by
            have hc' : c' = ((Pair.enqueue (s.connection role) packet).sendReady kernel
                (s.closed role.peer) preflush.fifo).1 := by rw [hflush]
            have hf : flushed = ((Pair.enqueue (s.connection role) packet).sendReady kernel
                (s.closed role.peer) preflush.fifo).2 := by rw [hflush]
            refine ⟨?_, by rw [hc']; rfl⟩
            rw [hf, hclosed, hfifo]
            simp only [Pair.enqueue, hempty, List.nil_append]
            exact (flush_broken kernel packet [] _ _ _).1
          rw [hunsent.1, hunsent.2]
          exact h.fail hopen hclosed (h.counted role) (Moves.of_eq rfl rfl id) hnothing error
        · have hflush' : (Pair.enqueue ((s.set role c (s.fifo role) preflush.fifo).connection role)
              packet).sendReady kernel ((s.set role c (s.fifo role) preflush.fifo).closed role.peer)
              ((s.set role c (s.fifo role) preflush.fifo).fifo role.peer) = (c', flushed) := by
            rw [Pair.connection_set_self, Pair.fifo_set_peer]
            exact hflush
          have hsent := hpreflushed.queueAndSend role packet hopen
            (by rw [Pair.connection_set_self]; exact hdisconnected)
            (by rw [Pair.connection_set_self]; exact hfull) hvalid hunpack kernel hflush'
          rw [Pair.set_set, Pair.fifo_set_self] at hsent
          exact hsent

end LocalSocket
