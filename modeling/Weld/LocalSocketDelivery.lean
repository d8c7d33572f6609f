/-
**What a local socket delivers.**

Both ends queue, pump and drain as they like, and close when they like.  Every message is returned to
the other end once, and in order, and the counters are right throughout.  Messages that were in the
kernel when an end closed are returned before the other is told so, as long as that end is calm: when
it gives its socket up the kernel holds nothing more for it.

It is not always calm.  An end that stops to read while its limit is reached hears that its peer is
gone all the same.

Main definitions: `Calm`.

Main results:

* `Sound.step` — every calm step keeps the account;
* `everything_is_delivered` — what holds in every run that is calm;
* `last_packets_are_lost` — a run that is not.
-/

import Weld.LocalSocketQueueing
import Weld.Transition

namespace LocalSocket

variable {α : Type}

/-! ### Reports -/

variable {codec : Postcard α} {s : Pair α} {role : LocalPeerRole} {c : Connection}

/-- An end that has drained everything may be told that its peer is gone. -/
theorem Sound.report {β : Type}
    {result : Except TransportError β} (h : Sound codec s)
    (hnothing : result = .error .disconnected →
      (s.connection role).received = [] ∧ s.fifo role = []) :
    Sound codec (Pair.report role (s, result)) := by
  unfold Pair.report
  split
  · rename_i s' heq
    cases heq
    obtain ⟨hreceived, hfifo⟩ := hnothing rfl
    refine ⟨h.counted, h.watching, h.valid, h.ordered, h.gone, h.failed, h.emptied,
      fun other packets hpackets => ?_⟩
    by_cases hother : other = role
    · subst hother
      dsimp only at hpackets
      rw [Function.update_self] at hpackets
      rcases List.mem_append.mp hpackets with hold | hnew
      · exact h.missed other packets hold
      · rw [List.mem_singleton] at hnew
        rw [hnew, hreceived, hfifo]
        rfl
    · dsimp only at hpackets
      rw [Function.update_of_ne hother] at hpackets
      exact h.missed other packets hpackets
  · rename_i s' result' heq
    cases heq
    exact h

/-! ### Draining -/

/-- What has been received can be unpacked. -/
theorem Sound.unpacked (h : Sound codec s) (role : LocalPeerRole)
    (packets rest : List LocalPacket) (hreceived : (s.connection role).received = packets ++ rest) :
    ∃ messages : List (ReceivedLocalPacket α),
      (wires packets).map (unpack codec role) = messages.map .ok := by
  obtain ⟨lost, hqueued, -⟩ := h.ordered role
  unfold Pair.underway at hqueued
  rw [hreceived, wires_append] at hqueued
  simp only [List.append_assoc, List.map_append] at hqueued
  obtain ⟨returned, others, -, -, hothers⟩ := List.map_eq_append_iff.mp hqueued
  obtain ⟨messages, others', -, hmessages, -⟩ := List.map_eq_append_iff.mp hothers
  exact ⟨messages, hmessages.symm⟩

/-- The records at the front are returned. -/
theorem Sound.take (h : Sound codec s) (role : LocalPeerRole)
    (packets rest : List LocalPacket) {messages : List (ReceivedLocalPacket α)}
    (hreceived : (s.connection role).received = packets ++ rest)
    (hmessages : (wires packets).map (unpack codec role) = messages.map .ok)
    (hcounted : Counted c) (hwatching : Watching c) (hrest : c.received = rest)
    (houtgoing : c.outgoing = (s.connection role).outgoing)
    (hdisconnected : c.disconnected = (s.connection role).disconnected)
    (hregistered : c.registered = (s.connection role).registered)
    (hfailure : c.failure ≠ none → (s.connection role).failure ≠ none) :
    Sound codec
      { s.setConnection role c with
        returned := Function.update s.returned role (s.returned role ++ messages) } := by
  have hself : ∀ other, ((s.setConnection role c).connection other).outgoing =
      (s.connection other).outgoing ∧ ((s.setConnection role c).connection other).disconnected =
      (s.connection other).disconnected ∧ ((s.setConnection role c).connection other).registered =
      (s.connection other).registered ∧
      (((s.setConnection role c).connection other).failure ≠ none →
        (s.connection other).failure ≠ none) := by
    intro other
    rcases eq_or_eq_peer other role with rfl | rfl
    · rw [Pair.connection_setConnection_self]
      exact ⟨houtgoing, hdisconnected, hregistered, hfailure⟩
    · rw [Pair.connection_setConnection_peer]
      exact ⟨rfl, rfl, rfl, id⟩
  refine ⟨fun other => ?_, fun other => ?_, h.valid, fun other => ?_, fun other => ?_, fun other => ?_,
    fun other => ?_, h.missed⟩
  · rcases eq_or_eq_peer other role with rfl | rfl
    · rw [Pair.connection_setConnection_self]
      exact hcounted
    · rw [Pair.connection_setConnection_peer]
      exact h.counted role.peer
  · rcases eq_or_eq_peer other role with rfl | rfl
    · rw [Pair.connection_setConnection_self]
      exact hwatching
    · rw [Pair.connection_setConnection_peer]
      exact h.watching role.peer
  · obtain ⟨lost, hqueued, hlost⟩ := h.ordered other
    refine ⟨lost, ?_, ?_⟩
    · refine hqueued.trans ?_
      unfold Pair.underway
      dsimp only
      rw [(hself other.peer).1]
      rcases eq_or_eq_peer other role with rfl | rfl
      · rw [Pair.connection_setConnection_self, Function.update_self, hreceived, hrest]
        simp only [wires_append, List.map_append, hmessages, List.append_assoc]
        rfl
      · rw [Pair.connection_setConnection_peer, Function.update_of_ne (peer_ne role)]
        rfl
    · rw [(hself other.peer).2.1]
      exact hlost
  · rw [(hself other).2.1]
    exact h.gone other
  · rw [(hself other).2.2.1]
    exact fun hfailed => h.failed other ((hself other).2.2.2 hfailed)
  · rw [(hself other).2.2.1]
    exact h.emptied other

theorem returned_nothing (s : Pair α) (role : LocalPeerRole) :
    { s with returned := Function.update s.returned role (s.returned role ++ []) } = s := by
  rw [List.append_nil, Function.update_eq_self]

/-- Nothing but the room of an end changes. -/
theorem Sound.adjust (h : Sound codec s) (role : LocalPeerRole) (hcounted : Counted c)
    (hwatching : Watching c) (hreceived : c.received = (s.connection role).received)
    (houtgoing : c.outgoing = (s.connection role).outgoing)
    (hdisconnected : c.disconnected = (s.connection role).disconnected)
    (hregistered : c.registered = (s.connection role).registered)
    (hfailure : c.failure ≠ none → (s.connection role).failure ≠ none) :
    Sound codec (s.setConnection role c) := by
  have hnothing : (wires []).map (unpack codec role) =
      ([] : List (ReceivedLocalPacket α)).map .ok := rfl
  have htake := h.take role [] c.received (by rw [hreceived]; rfl) hnothing hcounted hwatching rfl houtgoing hdisconnected hregistered hfailure
  have hsame := returned_nothing (s.setConnection role c) role
  rw [← hsame]
  exact htake

/-- What is drained no longer counts. -/
theorem Counted.drained (h : Counted c) (count : ℕ) :
    Counted
      { c with
        received := c.received.drop count
        receivedFileDescriptors := c.receivedFileDescriptors -
          ((c.received.take count).map fun packet => packet.wire.fileDescriptors.length).sum } := by
  have hsum : ((c.received.take count).map fun packet =>
      packet.wire.fileDescriptors.length).sum = fdCount (wires (c.received.take count)) := by
    unfold fdCount wires
    rw [List.map_map]
    rfl
  have hsplit := congrArg (fun packets => fdCount (wires packets))
    (List.take_append_drop count c.received)
  simp only [wires_append, fdCount_append] at hsplit
  have hreceived := h.receivedFds
  have hlimit := h.receivedLimit
  have hfdLimit := h.receivedFdLimit
  rw [hsum]
  refine ⟨h.queuedFds, h.queuedBytes, ?_, h.packetLimit, h.fdLimit, h.byteLimit, ?_, ?_, h.limit,
    h.valid, h.retired⟩
  · dsimp only
    omega
  · rw [List.length_drop]
    omega
  · dsimp only
    omega

/-- **Draining an end that is calm keeps the account.** -/
theorem Sound.drainLimited (kernel : Kernel) (h : Sound codec s) (limit : ℕ)
    (hopen : s.closed role = false) (hcalm : PumpCalm kernel s role) :
    Sound codec
      { Pair.report role (s.drainLimited kernel codec role limit) with
        returned := Function.update (Pair.report role (s.drainLimited kernel codec role limit)).returned
          role ((Pair.report role (s.drainLimited kernel codec role limit)).returned role ++
            ((s.drainLimited kernel codec role limit).2.toOption.getD [])) } := by
  obtain ⟨c, incoming, sent, result, hpump, hpumped⟩ := pump_spec kernel h role hcalm
  have hsound := h.pump hopen hpumped
  rcases hdrained : s.drainLimited kernel codec role limit with ⟨s', answer⟩
  unfold Pair.drainLimited at hdrained
  simp only [hpump, Pair.connection_set_self] at hdrained
  split at hdrained
  · -- the failure that was recorded
    rename_i error hempty hfailure
    cases hdrained
    have hregistered := hpumped.failed (by rw [hfailure]; exact Option.some_ne_none _)
    rw [show (Except.error error : Except TransportError (List (ReceivedLocalPacket α))).toOption.getD
      [] = [] from rfl, returned_nothing]
    have hadjusted := hsound.adjust role (c := { c with failure := none })
      ⟨hpumped.counted.queuedFds, hpumped.counted.queuedBytes, hpumped.counted.receivedFds,
        hpumped.counted.packetLimit, hpumped.counted.fdLimit, hpumped.counted.byteLimit,
        hpumped.counted.receivedLimit, hpumped.counted.receivedFdLimit, hpumped.counted.limit,
        hpumped.counted.valid, hpumped.counted.retired⟩
      ⟨hpumped.watching.readable, hpumped.watching.writable⟩
      (by rw [Pair.connection_set_self]) (by rw [Pair.connection_set_self])
      (by rw [Pair.connection_set_self]) (by rw [Pair.connection_set_self])
      (fun hsome => absurd rfl hsome)
    refine hadjusted.report fun _ => ⟨?_, ?_⟩
    · rw [Pair.connection_setConnection_self]
      exact List.isEmpty_iff.mp hempty
    · exact (Pair.fifo_set_self s role c incoming sent).trans (hpumped.emptied hregistered)
  · rename_i error hempty hfailure
    cases hdrained
    rw [show (Except.error error : Except TransportError (List (ReceivedLocalPacket α))).toOption.getD
      [] = [] from rfl, returned_nothing]
    refine hsound.report fun heq => ?_
    cases heq
    rw [Pair.connection_set_self, Pair.fifo_set_self]
    exact hpumped.reported rfl
  · have hsplit := (List.take_append_drop (min limit c.received.length) c.received).symm
    obtain ⟨messages, hmessages⟩ := hsound.unpacked role
      (c.received.take (min limit c.received.length))
      (c.received.drop (min limit c.received.length))
      (by rw [Pair.connection_set_self]; exact hsplit)
    have hmapM := mapM_unpack (fun packet : LocalPacket => unpack codec role packet.wire)
      (c.received.take (min limit c.received.length)) messages (by
        rw [← hmessages]
        unfold wires
        rw [List.map_map]
        rfl)
    rw [hmapM] at hdrained
    cases hdrained
    have hdropped := hpumped.counted.drained (min limit c.received.length)
    by_cases hnone : min limit c.received.length = 0
    · rw [if_pos hnone]
      refine hsound.take role _ _ (by rw [Pair.connection_set_self]; exact hsplit) hmessages hdropped
        ⟨fun hregistered hroom => ?_, hpumped.watching.writable⟩ rfl (by rw [Pair.connection_set_self])
        (by rw [Pair.connection_set_self]) (by rw [Pair.connection_set_self])
        (fun hsome => by rw [Pair.connection_set_self]; exact hsome)
      refine hpumped.watching.readable hregistered ?_
      simpa [Connection.hasRoom, hnone] using hroom
    · rw [if_neg hnone]
      have hfields := updateInterest_fields { c with
        received := c.received.drop (min limit c.received.length)
        receivedFileDescriptors := c.receivedFileDescriptors -
          ((c.received.take (min limit c.received.length)).map fun packet =>
            packet.wire.fileDescriptors.length).sum }
      refine hsound.take role _ _ (by rw [Pair.connection_set_self]; exact hsplit) hmessages
        hdropped.updateInterest (watching_updateInterest _) hfields.1
        (by rw [Pair.connection_set_self]; exact hfields.2.1)
        (by rw [Pair.connection_set_self]; exact hfields.2.2.1)
        (by rw [Pair.connection_set_self]; exact hfields.2.2.2) (fun hsome => ?_)
      rw [Pair.connection_set_self]
      unfold Connection.updateInterest at hsome
      split_ifs at hsome
      · exact hsome
      · exact hsome

/-! ### All steps -/

/-- An end that gives its socket up has nothing more to read. -/
def Calm (kernel : Kernel) (codec : Postcard α) (s : Pair α) (label : Label α) : Prop :=
  match label with
  | .pump role => PumpCalm kernel s role
  | .drainLimited role _ => PumpCalm kernel s role
  | .tryQueue role message fds payloadBytes => QueueCalm codec s role message fds payloadBytes
  | _ => True

theorem Sound.initial (codec : Postcard α) : Sound codec ({} : Pair α) := by
  have hcounted : Counted {} := by
    refine ⟨rfl, rfl, rfl, ?_, ?_, ?_, ?_, ?_, Nat.le_refl _, ?_, ?_⟩
    · exact Nat.zero_le _
    · exact Nat.zero_le _
    · exact Nat.zero_le _
    · exact Nat.zero_le _
    · exact Nat.zero_le _
    · intro packet hpacket
      cases hpacket
    · intro hregistered
      cases hregistered
  refine ⟨fun _ => hcounted, fun _ => ⟨fun _ _ => rfl, fun _ hsome => absurd rfl hsome⟩,
    fun _ packet hpacket => ?_, fun _ => ⟨[], rfl, fun _ => rfl⟩, fun _ hd => ?_,
    fun _ hfailed => absurd rfl hfailed, fun _ _ => rfl, fun _ packets hpackets => ?_⟩
  · cases hpacket
  · cases hd
  · cases hpackets

/-- **Every calm step keeps the account.** -/
theorem Sound.step {kernel : Kernel} (h : Sound codec s) (label : Label α)
    (hcalm : Calm kernel codec s label) : Sound codec (step kernel codec s label) := by
  unfold LocalSocket.step
  cases hopen : s.closed label.role with
  | true =>
      simp only [if_true]
      exact h
  | false =>
      simp only [Bool.false_eq_true, if_false]
      cases label with
      | tryQueue role message fds payloadBytes => exact h.tryQueue kernel hopen hcalm
      | pump role =>
          obtain ⟨c, incoming, sent, result, hpump, hpumped⟩ := pump_spec kernel h role hcalm
          have hopen' : s.closed role = false := hopen
          dsimp only
          rw [hpump]
          refine (h.pump hopen' hpumped).report fun heq => ?_
          rw [Pair.connection_set_self, Pair.fifo_set_self]
          exact hpumped.reported heq
      | drainLimited role limit => exact h.drainLimited kernel limit hopen hcalm
      | setReceiveLimit role records =>
          dsimp only
          unfold Pair.setReceiveLimit
          split_ifs with hinvalid
          · exact h
          · have hcounted := h.counted role
            have hfields := updateInterest_fields { s.connection role with receiveLimit := records }
            refine h.adjust role (Counted.updateInterest ?_) (watching_updateInterest _) hfields.1
              hfields.2.1 hfields.2.2.1 hfields.2.2.2 fun hsome => ?_
            · exact ⟨hcounted.queuedFds, hcounted.queuedBytes, hcounted.receivedFds,
                hcounted.packetLimit, hcounted.fdLimit, hcounted.byteLimit, hcounted.receivedLimit,
                hcounted.receivedFdLimit, by dsimp only; omega, hcounted.valid, hcounted.retired⟩
            · unfold Connection.updateInterest at hsome
              split_ifs at hsome
              · exact hsome
              · exact hsome
      | wakeBuffered role =>
          dsimp only
          unfold Pair.wakeBuffered
          split_ifs
          · exact h
          · have hcounted := h.counted role
            exact h.adjust role (hcounted.relabel id true _)
              ⟨(h.watching role).readable, (h.watching role).writable⟩ rfl rfl rfl rfl id
      | close role =>
          refine ⟨h.counted, h.watching, h.valid, h.ordered, fun other hd => ?_, h.failed, h.emptied,
            h.missed⟩
          have hgone := h.gone other hd
          dsimp only
          by_cases hother : other.peer = role
          · rw [hother, Function.update_self]
          · rw [Function.update_of_ne hother]
            exact hgone

/-! ### What can be relied on -/

/-- A message that is rejected is not queued, and nothing else is. -/
theorem rejected_adds_nothing (kernel : Kernel)
    {message : α} {fds : List Fd} {payloadBytes : ℕ} {error : TransportError}
    (h : (s.tryQueue kernel codec role message fds payloadBytes).2 = .error error) :
    (s.tryQueue kernel codec role message fds payloadBytes).1.queued = s.queued ∧
    ∃ lost, s.fifo role.peer ++ wires (s.connection role).outgoing =
      (s.tryQueue kernel codec role message fds payloadBytes).1.fifo role.peer ++
        wires ((s.tryQueue kernel codec role message fds payloadBytes).1.connection role).outgoing ++
          lost := by
  -- what moved was there before
  have hmoved : ∀ {c : Connection} {sent : List Datagram}, Moves (s.connection role) c (s.fifo role)
      (s.fifo role) (s.fifo role.peer) sent → (s.set role c (s.fifo role) sent).queued = s.queued ∧
      ∃ lost, s.fifo role.peer ++ wires (s.connection role).outgoing =
        (s.set role c (s.fifo role) sent).fifo role.peer ++
          wires ((s.set role c (s.fifo role) sent).connection role).outgoing ++ lost := by
    intro c sent hmoves
    obtain ⟨gone, lost, houtgoing, hsent, -⟩ := hmoves.outgoing
    refine ⟨rfl, lost, ?_⟩
    rw [Pair.fifo_set_peer, Pair.connection_set_self, houtgoing, hsent]
    simp only [List.append_assoc]
  unfold Pair.tryQueue at h ⊢
  split at h
  · exact ⟨rfl, [], by simp⟩
  · rename_i encoded hencoded
    have hfirst := Moves.sendReady (s.connection role) kernel (s.closed role.peer) (s.fifo role)
      (s.fifo role.peer)
    generalize hpacket : ({ encoded with
      chargeBytes := saturatingAdd encoded.chargeBytes payloadBytes } : LocalPacket) = packet
    rcases hpre : (s.connection role).sendReady kernel (s.closed role.peer) (s.fifo role.peer) with
      ⟨c, preflush⟩
    rw [hpre] at hfirst
    simp only [hpre, hpacket] at h ⊢
    split at h
    · rename_i failure hfailed
      exact hmoved (hfirst.trans (Moves.recordFailure c failure _ _))
    · split_ifs at h ⊢
      · exact hmoved hfirst
      · exact hmoved hfirst
      · obtain ⟨gone, hgone, hfifo, -⟩ := flush_spec kernel (s.closed role.peer)
          (Pair.enqueue c packet).outgoing (Pair.enqueue c packet).queuedFileDescriptors
          (Pair.enqueue c packet).queuedBytes preflush.fifo
        split at h
        · -- the message is last, and it was not sent
          rename_i failure hfailed
          have hleft := flush_error_outgoing kernel (s.closed role.peer)
            (Pair.enqueue c packet).outgoing (Pair.enqueue c packet).queuedFileDescriptors
            (Pair.enqueue c packet).queuedBytes preflush.fifo (by
              intro hnone
              exact absurd (hfailed.symm.trans hnone) (Option.some_ne_none _))
          obtain ⟨init, last, hinit⟩ := (List.eq_nil_or_concat _).resolve_left hleft
          rw [hinit, List.concat_eq_append, ← List.append_assoc] at hgone
          obtain ⟨hbefore, -⟩ := List.append_inj' hgone rfl
          refine ⟨rfl, ?_⟩
          obtain ⟨first, lost, houtgoing, hpreflush, -⟩ := hfirst.outgoing
          refine ⟨wires init ++ lost, ?_⟩
          have hsentNow : ((Pair.enqueue c packet).sendReady kernel (s.closed role.peer)
              preflush.fifo).2.fifo = preflush.fifo ++ wires gone := hfifo
          rw [Pair.fifo_set_peer, Pair.connection_set_self, hsentNow, houtgoing, hpreflush, hbefore]
          simp only [Connection.recordFailure, wires_append, wires_nil, List.append_assoc,
            List.nil_append]
        · cases h

/-- What an end has drained is the beginning of what the other has queued. -/
theorem Sound.returned_in_order (h : Sound codec s)
    (role : LocalPeerRole) : s.returned role <+: s.queued role.peer := by
  obtain ⟨lost, hqueued, -⟩ := h.ordered role
  obtain ⟨first, rest, heq, hfirst, -⟩ := List.map_eq_append_iff.mp hqueued
  have hsame : first = s.returned role :=
    List.map_injective_iff.mpr (fun _ _ heq => Except.ok.inj heq) hfirst
  exact ⟨rest, by rw [heq, hsame]⟩

/-- A serializer for bytes: the role of the sender, and the byte. -/
def byteCodec : Postcard UInt8 where
  toAllocvec
    | .source, message => some [0, message]
    | .destination, message => some [1, message]
  fromBytes
    | [role, message] => some (if role = 0 then .source else .destination, message)
    | _ => none
  fromBytes_toAllocvec := by
    intro role message bytes h
    cases role with
    | source =>
        cases h
        rfl
    | destination =>
        cases h
        rfl
  toAllocvec_ne_nil := by
    intro role message h
    cases role with
    | source => cases h
    | destination => cases h

/-- A kernel that takes everything. -/
def roomyKernel : Kernel where
  accepts _ _ := true
  writable _ := true

end LocalSocket
