/-
**The account of a local socket.**

In each direction the messages that were queued are, in order: those the other end has drained, those
it has received, those in the kernel, and those that wait to be sent.  Only what waits to be sent may
be missing at the end, once the peer is gone.

An end that hears that its peer has gone gives its socket up, and with it whatever the kernel still
holds.  It has read before that, but only as much as it has room for.

Main definitions: `Sound`, `PumpCalm`.

Main results:

* `Sound.set` — an operation that moves packets keeps the account;
* `pump_spec` — what pumping does to an end.
-/

import Weld.LocalSocketCounters

namespace LocalSocket

variable {α : Type}

/-! ### The two ends -/

@[simp] theorem peer_peer (role : LocalPeerRole) : role.peer.peer = role := by
  cases role
  · rfl
  · rfl

theorem peer_ne (role : LocalPeerRole) : role.peer ≠ role := by
  cases role <;> exact LocalPeerRole.noConfusion

/-- There is nobody else. -/
theorem eq_or_eq_peer (other role : LocalPeerRole) : other = role ∨ other = role.peer := by
  cases other <;> cases role <;> simp [LocalPeerRole.peer]

namespace Pair

variable (s : Pair α) (role : LocalPeerRole) (c : Connection) (incoming sent : List Datagram)

@[simp] theorem connection_set_self : (s.set role c incoming sent).connection role = c :=
  Function.update_self _ _ _

@[simp] theorem connection_set_peer :
    (s.set role c incoming sent).connection role.peer = s.connection role.peer :=
  Function.update_of_ne (peer_ne role) _ _

@[simp] theorem fifo_set_self : (s.set role c incoming sent).fifo role = incoming :=
  (Function.update_of_ne (peer_ne role).symm _ _).trans (Function.update_self _ _ _)

@[simp] theorem fifo_set_peer : (s.set role c incoming sent).fifo role.peer = sent :=
  Function.update_self _ _ _

/-- An operation overrides the one before it. -/
theorem set_set (c' : Connection) (incoming' sent' : List Datagram) :
    (s.set role c incoming sent).set role c' incoming' sent' = s.set role c' incoming' sent' := by
  have hfifo : ((s.set role c incoming sent).set role c' incoming' sent').fifo =
      (s.set role c' incoming' sent').fifo := by
    funext other
    rcases eq_or_eq_peer other role with rfl | rfl
    · rw [fifo_set_self, fifo_set_self]
    · rw [fifo_set_peer, fifo_set_peer]
  unfold set at hfifo ⊢
  dsimp only at hfifo ⊢
  rw [hfifo, Function.update_idem]

@[simp] theorem connection_setConnection_self :
    (s.setConnection role c).connection role = c := Function.update_self _ _ _

@[simp] theorem connection_setConnection_peer :
    (s.setConnection role c).connection role.peer = s.connection role.peer :=
  Function.update_of_ne (peer_ne role) _ _

end Pair

open Pair

/-! ### Messages -/

variable {codec : Postcard α} {role : LocalPeerRole}

theorem encode_valid {message : α} {fds : List Fd} {packet : LocalPacket}
    (h : LocalPacket.encode codec role message fds = .ok packet) :
    Valid packet.wire ∧ unpack codec role.peer packet.wire = .ok ⟨message, fds⟩ := by
  unfold LocalPacket.encode at h
  split at h
  · cases h
  · rename_i bytes hbytes
    unfold validatePacket at h
    split_ifs at h with hlong hmany
    · cases h
    · cases h
    · cases h
      refine ⟨⟨?_, ?_, ?_⟩, ?_⟩
      · rintro rfl
        exact codec.toAllocvec_ne_nil role message hbytes
      · exact Nat.le_of_not_lt hlong
      · exact Nat.le_of_not_lt hmany
      · unfold unpack
        rw [codec.fromBytes_toAllocvec role message bytes hbytes]
        simp

/-- Packets that can all be unpacked are unpacked. -/
theorem mapM_unpack {β γ ε : Type} (f : β → Except ε γ) (packets : List β) (messages : List γ)
    (h : packets.map f = messages.map .ok) : packets.mapM f = .ok messages := by
  induction packets generalizing messages with
  | nil =>
      have hnil : messages = [] := by simpa using h.symm
      rw [hnil]
      rfl
  | cons packet packets ih =>
      cases messages with
      | nil => cases h
      | cons message messages =>
          obtain ⟨hfirst, hrest⟩ := List.cons.inj h
          rw [List.mapM_cons, hfirst, ih messages hrest]
          rfl

/-! ### The account -/

/-- What is on its way to an end: received there, in the kernel, or waiting at the other end. -/
def Pair.underway (s : Pair α) (role : LocalPeerRole) : List Datagram :=
  wires (s.connection role).received ++ s.fifo role ++ wires (s.connection role.peer).outgoing

structure Sound (codec : Postcard α) (s : Pair α) : Prop where
  counted : ∀ role, Counted (s.connection role)
  watching : ∀ role, Watching (s.connection role)
  valid : ∀ role, ∀ packet ∈ s.fifo role, Valid packet
  /-- What was queued was returned, is underway, or was dropped by an end whose peer is gone. -/
  ordered : ∀ role, ∃ lost, (s.queued role.peer).map .ok = (s.returned role).map .ok ++
    (s.underway role ++ lost).map (unpack codec role) ∧
    ((s.connection role.peer).disconnected = false → lost = [])
  gone : ∀ role, (s.connection role).disconnected = true → s.closed role.peer = true
  failed : ∀ role, (s.connection role).failure ≠ none → (s.connection role).registered = false
  /-- There is nothing left for an end that has given its socket up. -/
  emptied : ∀ role, (s.connection role).registered = false → s.fifo role = []
  missed : ∀ role, ∀ packets ∈ s.missed role, packets = []

variable {c : Connection} {s : Pair α}

/-- **Packets that move stay accounted for.** -/
theorem Sound.set (h : Sound codec s) (incoming sent : List Datagram) (hopen : s.closed role = false)
    (hcounted : Counted c) (hwatching : Watching c)
    (hmoves : Moves (s.connection role) c (s.fifo role) incoming (s.fifo role.peer) sent)
    (hgone : c.disconnected = true → s.closed role.peer = true)
    (hfailed : c.failure ≠ none → c.registered = false)
    (hemptied : c.registered = false → incoming = []) : Sound codec (s.set role c incoming sent) := by
  obtain ⟨taken, htaken, hreceived⟩ := hmoves.received
  obtain ⟨left, lost', houtgoing, hsent, hlost'⟩ := hmoves.outgoing
  have hleft : ∀ packet ∈ left, Valid packet := by
    intro packet hpacket
    have hmem : packet ∈ wires (s.connection role).outgoing := by
      rw [houtgoing]
      exact List.mem_append_left _ (List.mem_append_left _ hpacket)
    obtain ⟨queued, hqueued, rfl⟩ := List.mem_map.mp hmem
    exact (h.counted role).valid queued hqueued
  -- an end that has given its socket up has a peer that is closed, so it is not sent anything
  have hpeer : (s.connection role.peer).registered = false → sent = [] := by
    intro hregistered
    have hclosed := h.gone role.peer ((h.counted role.peer).retired hregistered).1
    rw [peer_peer, hopen] at hclosed
    cases hclosed
  refine ⟨fun other => ?_, fun other => ?_, fun other => ?_, fun other => ?_, fun other => ?_,
    fun other => ?_, fun other => ?_, h.missed⟩
  · rcases eq_or_eq_peer other role with rfl | rfl
    · rw [connection_set_self]
      exact hcounted
    · rw [connection_set_peer]
      exact h.counted role.peer
  · rcases eq_or_eq_peer other role with rfl | rfl
    · rw [connection_set_self]
      exact hwatching
    · rw [connection_set_peer]
      exact h.watching role.peer
  · rcases eq_or_eq_peer other role with rfl | rfl
    · rw [fifo_set_self]
      intro packet hpacket
      refine h.valid other packet ?_
      rw [htaken]
      exact List.mem_append_right _ hpacket
    · rw [fifo_set_peer, hsent]
      intro packet hpacket
      rcases List.mem_append.mp hpacket with hold | hnew
      · exact h.valid role.peer packet hold
      · exact hleft packet hnew
  · rcases eq_or_eq_peer other role with rfl | rfl
    · obtain ⟨lost, hqueued, hlost⟩ := h.ordered other
      refine ⟨lost, ?_, ?_⟩
      · have hunderway : (s.set other c incoming sent).underway other = s.underway other := by
          unfold underway
          rw [connection_set_self, fifo_set_self, connection_set_peer, hreceived, htaken]
          simp only [List.append_assoc]
        rw [hunderway]
        exact hqueued
      · rw [connection_set_peer]
        exact hlost
    · obtain ⟨lost, hqueued, hlost⟩ := h.ordered role.peer
      rw [peer_peer] at hlost
      refine ⟨lost' ++ lost, ?_, ?_⟩
      · have hunderway : (s.set role c incoming sent).underway role.peer ++ (lost' ++ lost) =
            s.underway role.peer ++ lost := by
          unfold underway
          rw [peer_peer, connection_set_self, fifo_set_peer, connection_set_peer, houtgoing, hsent]
          simp only [List.append_assoc]
        rw [hunderway]
        exact hqueued
      · rw [peer_peer, connection_set_self]
        intro hstill
        have hbefore : (s.connection role).disconnected = false := by
          cases hcase : (s.connection role).disconnected with
          | false => rfl
          | true => rw [hmoves.disconnected hcase] at hstill; cases hstill
        rw [hlost' hstill, hlost hbefore]
        rfl
  · rcases eq_or_eq_peer other role with rfl | rfl
    · rw [connection_set_self]
      exact hgone
    · rw [connection_set_peer]
      exact h.gone role.peer
  · rcases eq_or_eq_peer other role with rfl | rfl
    · rw [connection_set_self]
      exact hfailed
    · rw [connection_set_peer]
      exact h.failed role.peer
  · rcases eq_or_eq_peer other role with rfl | rfl
    · rw [connection_set_self, fifo_set_self]
      exact hemptied
    · rw [connection_set_peer, fifo_set_peer]
      exact hpeer

/-! ### Pumping -/

/-- The end that is gone is read as far as there is room, or its socket is kept. -/
def PumpCalm (kernel : Kernel) (s : Pair α) (role : LocalPeerRole) : Prop :=
  s.closed role.peer = true → (s.connection role).registered = true →
    (s.connection role).fitsAll (s.fifo role) ∨
    (s.connection role).outgoing ≠ [] ∧ kernel.writable (s.fifo role.peer) = true

/-- What pumping does to an end. -/
structure Pumped (s : Pair α) (role : LocalPeerRole) (c : Connection) (incoming sent : List Datagram)
    (result : Except TransportError Unit) : Prop where
  counted : Counted c
  watching : Watching c
  moves : Moves (s.connection role) c (s.fifo role) incoming (s.fifo role.peer) sent
  gone : c.disconnected = true → s.closed role.peer = true
  failed : c.failure ≠ none → c.registered = false
  emptied : c.registered = false → incoming = []
  reported : result = .error .disconnected → c.received = [] ∧ incoming = []

theorem Counted.relabel (h : Counted c) {disconnected : Bool}
    (hd : c.disconnected = true → disconnected = true) (buffered : Bool)
    (failure : Option TransportError) : Counted { c with disconnected, buffered, failure } :=
  ⟨h.queuedFds, h.queuedBytes, h.receivedFds, h.packetLimit, h.fdLimit, h.byteLimit, h.receivedLimit,
    h.receivedFdLimit, h.limit, h.valid, fun hregistered =>
      ⟨hd (h.retired hregistered).1, (h.retired hregistered).2⟩⟩

theorem flush_error_ne (kernel : Kernel) (broken : Bool) (outgoing : List LocalPacket)
    (fds bytes : ℕ) (fifo : List Datagram) :
    (flush kernel broken outgoing fds bytes fifo).error ≠ some .disconnected := by
  induction outgoing generalizing fds bytes fifo with
  | nil => simp [flush]
  | cons packet rest ih =>
      unfold flush
      split_ifs
      · simp
      · simp
      · exact ih _ _ _
      · simp

/-- What is read, and when all of it is. -/
theorem receiveReported_spec (gone : Bool) {fifo : List Datagram}
    (hvalid : ∀ packet ∈ fifo, Valid packet) (hcounted : Counted c) (hwatching : Watching c) :
    ∃ c' fifo', c.receiveReported gone fifo = (c', fifo', none) ∧ Counted c' ∧ Watching c' ∧
      (∀ sent, Moves c c' fifo fifo' sent sent) ∧
      (c'.disconnected = true → c.disconnected = true ∨ gone = true) ∧
      c'.registered = c.registered ∧ c'.outgoing = c.outgoing ∧ c'.interest = c.interest ∧
      c'.failure = c.failure ∧
      (fifo = [] ∨ c.registered = true ∧ c.fitsAll fifo → fifo' = []) := by
  by_cases hreported : (c.registered && c.interest.readable && (!fifo.isEmpty || gone)) = true
  · obtain ⟨c', fifo', heq, hcounted', hwatching', hmoves, hdisconnected, hregistered, houtgoing,
      hinterest, hfailure⟩ := receiveReady_spec gone fifo hvalid c hcounted hwatching
    refine ⟨c', fifo', ?_, hcounted', hwatching', hmoves, hdisconnected, hregistered, houtgoing,
      hinterest, hfailure, fun hall => ?_⟩
    · unfold Connection.receiveReported
      rw [if_pos hreported, heq]
    · have hfits : c.fitsAll fifo := by
        rcases hall with rfl | ⟨-, hfits⟩
        · intro i hi
          cases hi
        · exact hfits
      have hempty := receiveReady_all gone fifo hvalid c hfits
      rw [heq] at hempty
      exact hempty
  · refine ⟨c, fifo, ?_, hcounted, hwatching, fun _ => Moves.of_eq rfl rfl id, Or.inl, rfl, rfl, rfl,
      rfl, fun hall => ?_⟩
    · unfold Connection.receiveReported
      rw [if_neg hreported]
    · rcases hall with rfl | ⟨hregistered, hfits⟩
      · rfl
      · -- if anything fits the end has room, so it would have been told
        by_contra hsome
        have hpositive : 0 < fifo.length := List.length_pos_iff.mpr hsome
        have hroom : c.hasRoom = true := by
          have hfirst := hfits 0 hpositive
          simpa [Connection.hasRoom] using hfirst
        have hreadable := hwatching.readable hregistered hroom
        apply hreported
        rw [hregistered, hreadable]
        cases fifo with
        | nil => exact absurd rfl hsome
        | cons packet rest => rfl

/-- What is sent, and that an end whose peer is gone fails to send. -/
theorem sendReported_spec (kernel : Kernel) (gone : Bool) (fifo : List Datagram) (hcounted : Counted c)
    (hwatching : Watching c) :
    ∃ c' fifo' failed, c.sendReported kernel gone fifo = (c', fifo', failed) ∧ Counted c' ∧
      Watching c' ∧ (∀ incoming, Moves c c' incoming incoming fifo fifo') ∧
      c'.disconnected = c.disconnected ∧ c'.registered = c.registered ∧ c'.failure = c.failure ∧
      c'.received = c.received ∧ failed ≠ some .disconnected ∧
      (gone = true → c.registered = true → c.outgoing ≠ [] → kernel.writable fifo = true →
        failed ≠ none) := by
  by_cases hreported : (c.registered && c.interest.writable && kernel.writable fifo) = true
  · refine ⟨(c.sendReady kernel gone fifo).1, (c.sendReady kernel gone fifo).2.fifo,
      (c.sendReady kernel gone fifo).2.error, ?_, hcounted.sendReady kernel gone fifo,
      hwatching.sendReady kernel gone fifo, fun _ => Moves.sendReady c kernel gone _ fifo, rfl, rfl,
      rfl, rfl, flush_error_ne kernel gone _ _ _ fifo, fun hgone _ hsome _ => ?_⟩
    · unfold Connection.sendReported
      rw [if_pos hreported]
    · subst hgone
      cases hcase : c.outgoing with
      | nil => exact absurd hcase hsome
      | cons packet rest =>
          have hbroken := (flush_broken kernel packet rest c.queuedFileDescriptors c.queuedBytes
            fifo).2
          rw [← hcase] at hbroken
          exact hbroken
  · refine ⟨c, fifo, none, ?_, hcounted, hwatching, fun _ => Moves.of_eq rfl rfl id, rfl, rfl, rfl,
      rfl, (fun heq => by cases heq), fun _ hregistered hsome hroom => ?_⟩
    · unfold Connection.sendReported
      rw [if_neg hreported]
    · refine absurd ?_ hreported
      rw [hregistered, hwatching.writable hregistered hsome, hroom]
      rfl

/-- A socket is given up when its peer is gone; then nothing is left to be read, if the end is calm. -/
theorem pump_spec (kernel : Kernel) (h : Sound codec s) (role : LocalPeerRole)
    (hcalm : PumpCalm kernel s role) :
    ∃ c incoming sent result, s.pump kernel role = (s.set role c incoming sent, result) ∧
      Pumped s role c incoming sent result := by
  have hnoticed : Counted ((s.connection role).notice (s.closed role.peer)) :=
    (h.counted role).relabel (fun hd => by rw [hd]; rfl) false _
  have hwatching : Watching ((s.connection role).notice (s.closed role.peer)) :=
    ⟨(h.watching role).readable, (h.watching role).writable⟩
  have hgone : ((s.connection role).notice (s.closed role.peer)).disconnected = true →
      s.closed role.peer = true := by
    intro hd
    simp only [Connection.notice, Bool.or_eq_true, Bool.and_eq_true] at hd
    rcases hd with hd | hd
    · exact h.gone role hd
    · exact hd.2
  obtain ⟨c₁, incoming, hreceived, hcounted₁, hwatching₁, hmoves₁, hdisconnected₁, hregistered₁,
    houtgoing₁, -, hfailure₁, hall⟩ :=
      receiveReported_spec (s.closed role.peer) (h.valid role) hnoticed hwatching
  have hgone₁ : c₁.disconnected = true → s.closed role.peer = true := by
    intro hd
    rcases hdisconnected₁ hd with hd | hd
    · exact hgone hd
    · exact hd
  have hmoves₁ : ∀ sent, Moves (s.connection role) c₁ (s.fifo role) incoming sent sent := by
    intro sent
    have hfirst : Moves (s.connection role) ((s.connection role).notice (s.closed role.peer))
        (s.fifo role) (s.fifo role) sent sent :=
      Moves.of_eq rfl rfl fun hd => by simp [Connection.notice, hd]
    exact hfirst.trans (hmoves₁ sent)
  -- an end that had given its socket up has nothing to read
  have hunregistered : c₁.registered = false → incoming = [] := by
    intro hregistered
    rw [hregistered₁] at hregistered
    exact hall (Or.inl (h.emptied role hregistered))
  obtain ⟨c₂, sent, failed, hsent, hcounted₂, hwatching₂, hmoves₂, hdisconnected₂, hregistered₂,
    hfailure₂, hreceived₂, hnotDisconnected, hbroken⟩ := sendReported_spec kernel
      (s.closed role.peer) (s.fifo role.peer) hcounted₁ hwatching₁
  have hmoves := (hmoves₁ (s.fifo role.peer)).trans (hmoves₂ incoming)
  have hfailed₂ : c₂.failure ≠ none → c₂.registered = false := by
    intro hfailure
    rw [hfailure₂, hfailure₁] at hfailure
    rw [hregistered₂, hregistered₁]
    exact h.failed role hfailure
  unfold pump
  simp only [hreceived, hsent]
  cases failed with
  | some error =>
      refine ⟨c₂, incoming, sent, .error error, rfl, hcounted₂, hwatching₂, hmoves, ?_, hfailed₂, ?_, ?_⟩
      · rw [hdisconnected₂]
        exact hgone₁
      · rw [hregistered₂]
        exact hunregistered
      · intro heq
        cases heq
        exact absurd rfl hnotDisconnected
  | none =>
      -- if the socket is given up now, all there was has been read
      have hgiven : c₂.disconnected = true → incoming = [] := by
        intro hd
        rw [hdisconnected₂] at hd
        have hclosed := hgone₁ hd
        cases hregistered : (s.connection role).registered with
        | false => exact hall (Or.inl (h.emptied role hregistered))
        | true =>
            rcases hcalm hclosed hregistered with hfits | ⟨hsome, hroom⟩
            · exact hall (Or.inr ⟨hregistered, hfits⟩)
            · refine absurd rfl (hbroken hclosed ?_ ?_ hroom)
              · rw [hregistered₁]
                exact hregistered
              · rw [houtgoing₁]
                exact hsome
      obtain ⟨hfields₁, hfields₂, hfields₃, hfields₄⟩ :=
        updateInterest_fields c₂.retireDisconnectedSocket
      have hkept : c₂.retireDisconnectedSocket.disconnected = c₂.disconnected ∧
          c₂.retireDisconnectedSocket.failure = c₂.failure ∧
          (c₂.retireDisconnectedSocket.registered = false →
            c₂.registered = false ∨ c₂.disconnected = true) ∧
          (c₂.registered = false → c₂.retireDisconnectedSocket.registered = false) := by
        unfold Connection.retireDisconnectedSocket
        split_ifs with hstill
        · exact ⟨rfl, rfl, Or.inl, id⟩
        · simp only [Bool.or_eq_true, Bool.not_eq_true', not_or, Bool.not_eq_false] at hstill
          exact ⟨rfl, rfl, fun _ => Or.inr hstill.1, fun _ => rfl⟩
      refine ⟨c₂.retireDisconnectedSocket.updateInterest, incoming, sent, _, rfl,
        hcounted₂.retire.updateInterest, watching_updateInterest _, ?_, ?_, ?_, ?_, ?_⟩
      · refine (hmoves.trans (Moves.retire c₂ incoming sent)).trans ?_
        exact Moves.of_eq hfields₁ hfields₂ fun hd => by rw [hfields₃]; exact hd
      · rw [hfields₃, hkept.1, hdisconnected₂]
        exact hgone₁
      · intro hfailure
        rw [hfields₄]
        refine hkept.2.2.2 (hfailed₂ ?_)
        rw [← hkept.2.1]
        unfold Connection.updateInterest at hfailure
        split_ifs at hfailure
        · exact hfailure
        · exact hfailure
      · rw [hfields₄]
        intro hregistered
        rcases hkept.2.2.1 hregistered with hbefore | hd
        · rw [hregistered₂] at hbefore
          exact hunregistered hbefore
        · exact hgiven hd
      · intro heq
        unfold verdict at heq
        split_ifs at heq with hverdict
        rw [Bool.and_eq_true, List.isEmpty_iff, hfields₃, hkept.1] at hverdict
        exact ⟨hverdict.2, hgiven hverdict.1⟩

theorem Sound.pump {incoming sent : List Datagram} {result : Except TransportError Unit}
    (h : Sound codec s) (hopen : s.closed role = false)
    (hpumped : Pumped s role c incoming sent result) : Sound codec (s.set role c incoming sent) :=
  h.set incoming sent hopen hpumped.counted hpumped.watching hpumped.moves hpumped.gone
    hpumped.failed hpumped.emptied

end LocalSocket
