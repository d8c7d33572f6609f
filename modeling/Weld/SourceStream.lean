/-
**What a source relay tells its peer.**

The records of a source relay describe its mappings and its cursors.  At most one cursor is on its
way at a time; whatever else has changed waits in `pendingCursors`, and the arrival of an
acknowledgement sends the next one.

The invariant is about the source alone: `acks` are the acknowledgements still on their way to it,
the peer has received the first `r` records, and `past` are the records from before the call.  Part
of it is asked only of `calm` surroundings, in which nothing is revoked, the relay is mapped by hand
and it does not run out of sequence numbers: there it does not fail.

Main definitions: `Streams`, `Conveys`.

Main results:

* `Conveys.poll`, `Conveys.step` — every call keeps the invariant.
-/

import Weld.RelayPair
import Weld.SourceRelayInvariant

namespace Hoist

open Client Gamepad SourceRelayAdapter AList

namespace SourceRelayAdapter

/-- The cursor of a surface, as far as the relay knows. -/
def cursorOf (s : SourceRelayAdapter) (x : ClientSurfaceId) : Option ClientCursor :=
  (s.cache.lookup x).bind (·.cursor)

/-- The cursor the peer was sent last for the current mapping. -/
def sentCursorOf (s : SourceRelayAdapter) (x : ClientSurfaceId) : Option ClientCursor :=
  (s.cache.lookup x).bind (·.sentCursor)

theorem stream_append (s : SourceRelayAdapter) (command : SourcePortCommand) :
    (s.submitted ++ [command]).filterMap (·.record) = s.stream ++ command.record.toList := by
  rw [List.filterMap_append]
  cases hrecord : command.record with
  | none | some => simp [stream, hrecord]

end SourceRelayAdapter

/-! ### The invariant -/

/-- The numbers of the cursor updates of a stream. -/
def sequences (records : List DestinationPortRecord) : List ℕ :=
  (cursorUpdates records).map (·.sequence)

/-- The records describe the mappings and the cursors sent, one cursor is on its way at most, and
the numbers of the cursors grow. -/
structure Streams (calm : Prop) (upstream : ClientSourceId) (past : List DestinationPortRecord)
    (r : ℕ) (acks : List CursorInFlight) (s : SourceRelayAdapter) : Prop where
  alive : calm → s.failed = false ∧ s.admission = .manual
  wellFormed : Mirror.WellFormed s.upstreamSource s.stream
  own : ∀ x ∈ s.mappings, x.source = s.upstreamSource
  mapped : ∀ x session, s.mappings.lookup x = some session →
    (Mirror.replay s.stream).sessions x = some session
  unmapped : s.failed = false → ∀ x, x ∉ s.mappings → (Mirror.replay s.stream).sessions x = none
  sent : s.failed = false → ∀ x cursor, s.sentCursorOf x = some cursor →
    x ∈ s.mappings ∧ (Mirror.replay s.stream).cursors x = some cursor
  received : r ≤ past.length ∧ past <+: s.stream
  increasing : (sequences s.stream).Pairwise (· < ·)
  below : ∀ next, s.nextCursorSequence = some next → ∀ q ∈ sequences s.stream, q < next
  single : (acks ++ cursorUpdates (s.stream.drop r)).length ≤ 1
  inFlight : s.failed = false → acks ++ cursorUpdates (s.stream.drop r) = s.cursorInFlight.toList
  fresh : calm → s.nextCursorSequence = none → cursorUpdates (s.stream.drop past.length) ≠ []
  upstream : s.upstreamSource = upstream

/-- Every mapped surface whose cursor was not sent is in the list. -/
def Offered (waiting : List ClientSurfaceId) (s : SourceRelayAdapter) : Prop :=
  s.failed = false → ∀ x ∈ s.mappings, ∀ cursor, s.cursorOf x = some cursor →
    s.sentCursorOf x = some cursor ∨ x ∈ waiting

/-- The records convey the state of the relay, `late` apart: a cursor that was not sent is pending,
and nothing is pending while nothing is on its way. -/
structure Conveys (calm : Prop) (upstream : ClientSourceId) (past : List DestinationPortRecord)
    (r : ℕ) (acks : List CursorInFlight) (late : List ClientSurfaceId) (s : SourceRelayAdapter) :
    Prop extends Streams calm upstream past r acks s where
  offered : Offered (s.pendingCursors ++ late) s
  idle : s.cursorInFlight = none → s.pendingCursors = []

open Conveys

/-- The two states tell the peer the same. -/
structure SamePort (s t : SourceRelayAdapter) : Prop where
  upstreamSource : t.upstreamSource = s.upstreamSource
  admission : t.admission = s.admission
  failed : t.failed = s.failed
  mappings : t.mappings = s.mappings
  stream : t.stream = s.stream
  cursor : ∀ x, t.cursorOf x = s.cursorOf x
  sentCursor : ∀ x, t.sentCursorOf x = s.sentCursorOf x
  pendingCursors : t.pendingCursors = s.pendingCursors
  cursorInFlight : t.cursorInFlight = s.cursorInFlight
  nextCursorSequence : t.nextCursorSequence = s.nextCursorSequence

open SamePort

theorem SamePort.tick (s : SourceRelayAdapter) : SamePort s s.tick :=
  ⟨rfl, rfl, rfl, rfl, rfl, fun _ => rfl, fun _ => rfl, rfl, rfl, rfl⟩

section Invariant

variable {calm : Prop} {upstream : ClientSourceId} {past : List DestinationPortRecord} {r : ℕ}
  {acks : List CursorInFlight} {late : List ClientSurfaceId}
  {env : SourceEnvironment} {s t : SourceRelayAdapter}

theorem Streams.same (e : SamePort s t) (h : Streams calm upstream past r acks s) :
    Streams calm upstream past r acks t where
  alive hcalm := by
    rw [e.failed, e.admission]
    exact h.alive hcalm
  wellFormed := by
    rw [e.stream, e.upstreamSource]
    exact h.wellFormed
  own := by
    rw [e.mappings, e.upstreamSource]
    exact h.own
  mapped := by
    rw [e.mappings, e.stream]
    exact h.mapped
  unmapped := by
    rw [e.failed, e.mappings, e.stream]
    exact h.unmapped
  sent hfailed x cursor hsent := by
    rw [e.failed] at hfailed
    rw [e.sentCursor] at hsent
    rw [e.mappings, e.stream]
    exact h.sent hfailed x cursor hsent
  received := by
    rw [e.stream]
    exact h.received
  increasing := by
    rw [e.stream]
    exact h.increasing
  below := by
    rw [e.stream, e.nextCursorSequence]
    exact h.below
  single := by
    rw [e.stream]
    exact h.single
  inFlight := by
    rw [e.failed, e.stream, e.cursorInFlight]
    exact h.inFlight
  fresh := by
    rw [e.stream, e.nextCursorSequence]
    exact h.fresh
  upstream := by
    rw [e.upstreamSource]
    exact h.upstream

theorem Offered.same {waiting : List ClientSurfaceId} (e : SamePort s t) (h : Offered waiting s) :
    Offered waiting t := by
  intro hfailed x hx cursor hcursor
  rw [e.failed] at hfailed
  rw [e.mappings] at hx
  rw [e.cursor] at hcursor
  rw [e.sentCursor]
  exact h hfailed x hx cursor hcursor

theorem Conveys.same (e : SamePort s t) (h : Conveys calm upstream past r acks late s) :
    Conveys calm upstream past r acks late t where
  toStreams := h.toStreams.same e
  offered := by
    rw [e.pendingCursors]
    exact h.offered.same e
  idle := by
    rw [e.cursorInFlight, e.pendingCursors]
    exact h.idle

/-- The two states agree on what a relay that has failed still tells. -/
structure SameRest (s t : SourceRelayAdapter) : Prop where
  upstreamSource : t.upstreamSource = s.upstreamSource
  mappings : t.mappings = s.mappings
  stream : t.stream = s.stream
  nextCursorSequence : t.nextCursorSequence = s.nextCursorSequence

variable (env) in
theorem sameRest_fail (s : SourceRelayAdapter) (reason : String) :
    SameRest s (s.fail env reason) := by
  unfold SourceRelayAdapter.fail
  split_ifs <;> exact ⟨rfl, rfl, rfl, rfl⟩

/-- A relay that failed tells nothing of cursors any more. -/
theorem Streams.failed (h : Streams calm upstream past r acks s) (hcalm : ¬ calm) (e : SameRest s t)
    (hfailed : t.failed = true) : Streams calm upstream past r acks t := by
  have hdead : t.failed ≠ false := by
    rw [hfailed]
    decide
  have hstream := e.stream
  refine ⟨fun hc => absurd hc hcalm, ?_, ?_, ?_, fun hf => absurd hf hdead,
    fun hf => absurd hf hdead, ?_, ?_, ?_, ?_, fun hf => absurd hf hdead,
    fun hc => absurd hc hcalm, e.upstreamSource.trans h.upstream⟩
  · rw [hstream, e.upstreamSource]
    exact h.wellFormed
  · rw [e.mappings, e.upstreamSource]
    exact h.own
  · rw [e.mappings, hstream]
    exact h.mapped
  · rw [hstream]
    exact h.received
  · rw [hstream]
    exact h.increasing
  · rw [hstream, e.nextCursorSequence]
    exact h.below
  · rw [hstream]
    exact h.single

theorem pendingCursors_fail {reason : String} (halive : s.failed = false) :
    (s.fail env reason).pendingCursors = [] := by
  have hdead : ¬ s.failed = true := by
    rw [halive]
    decide
  rw [SourceRelayAdapter.fail, if_neg hdead]

theorem Streams.fail (h : Streams calm upstream past r acks s) (hcalm : ¬ calm) (halive : s.failed = false)
    (reason : String) : Conveys calm upstream past r acks late (s.fail env reason) where
  toStreams := h.failed hcalm (sameRest_fail env s reason) (failed_fail s reason)
  offered hf := by
    rw [failed_fail] at hf
    cases hf
  idle _ := pendingCursors_fail halive

theorem Conveys.fail (h : Conveys calm upstream past r acks late s) (hcalm : ¬ calm) (reason : String) :
    Conveys calm upstream past r acks late (s.fail env reason) := by
  cases halive : s.failed with
  | true =>
      rw [SourceRelayAdapter.fail, if_pos halive]
      exact h
  | false => exact h.toStreams.fail hcalm halive reason

/-! ### Asking the port -/

/-- The port refuses nothing, and in calm surroundings nothing is revoked. -/
structure Conforming (calm : Prop) (env : SourceEnvironment) : Prop extends env.ErrorFree where
  authorized : calm → ∀ i, env.authorized i = true

variable (henv : Conforming calm env)
include henv

theorem submit_eq (s : SourceRelayAdapter) (command : SourcePortCommand) :
    s.submit env command =
      ({ s with submitted := s.submitted ++ [command], calls := s.calls + 1 }, true) := by
  unfold SourceRelayAdapter.submit
  rw [henv.submit]

theorem Conveys.checkAccess (h : Conveys calm upstream past r acks late s) :
    Conveys calm upstream past r acks late (s.checkAccess env).1 := by
  unfold SourceRelayAdapter.checkAccess
  split_ifs with hfailed hauthorized
  · exact h
  · exact same (tick s) h
  · have hcalm : ¬ calm := by
      intro hcalm
      rw [isAuthorized, henv.authorized hcalm, Bool.or_true] at hauthorized
      exact hauthorized rfl
    have hcleared := same (s := s)
      (t := { s with effects := [], presentationUpdates := [] }.tick)
      ⟨rfl, rfl, rfl, rfl, rfl, fun _ => rfl, fun _ => rfl, rfl, rfl, rfl⟩ h
    exact hcleared.fail hcalm _

variable {record : DestinationPortRecord} {command : SourcePortCommand} {event : ClientSurfaceEvent}
  {sequence : ℕ} {envelopes : List DestinationEnvelope}

omit henv in
/-- A record that carries no cursor is appended; `t` is the state that goes with it. -/
theorem Streams.extend (h : Streams calm upstream past r acks s)
    (hstream : t.stream = s.stream ++ [record]) (hcursor : record.cursorUpdate = none)
    (haccepts : (Mirror.replay s.stream).Accepts s.upstreamSource record)
    (hupstream : t.upstreamSource = s.upstreamSource)
    (halive : calm → t.failed = false ∧ t.admission = .manual)
    (hnext : t.nextCursorSequence = s.nextCursorSequence)
    (hflight : t.failed = false → s.failed = false ∧ t.cursorInFlight = s.cursorInFlight)
    (hmapped : ∀ x session, t.mappings.lookup x = some session → x.source = s.upstreamSource ∧
      ((Mirror.replay s.stream).step record).sessions x = some session)
    (hunmapped : t.failed = false → ∀ x, x ∉ t.mappings →
      ((Mirror.replay s.stream).step record).sessions x = none)
    (hsent : t.failed = false → ∀ x cursor, t.sentCursorOf x = some cursor →
      x ∈ t.mappings ∧ ((Mirror.replay s.stream).step record).cursors x = some cursor) :
    Streams calm upstream past r acks t := by
  have hupdates : ∀ n ≤ s.stream.length,
      cursorUpdates (t.stream.drop n) = cursorUpdates (s.stream.drop n) := by
    intro n hn
    rw [hstream, List.drop_append_of_le_length hn, cursorUpdates_append]
    simp [cursorUpdates, hcursor]
  have hall : cursorUpdates t.stream = cursorUpdates s.stream := by
    have hzero := hupdates 0 (Nat.zero_le _)
    simpa using hzero
  have hr : r ≤ s.stream.length := h.received.1.trans h.received.2.length_le
  refine ⟨halive, ?_, ?_, ?_, ?_, ?_, ⟨h.received.1, ?_⟩, ?_, ?_, ?_, ?_, ?_,
    hupstream.trans h.upstream⟩
  · rw [hupstream, hstream]
    exact h.wellFormed.concat haccepts
  · intro x hx
    obtain ⟨session, hsession⟩ := exists_lookup hx
    rw [hupstream]
    exact (hmapped x session hsession).1
  · intro x session hsession
    rw [hstream, Mirror.replay_append_singleton]
    exact (hmapped x session hsession).2
  · rw [hstream, Mirror.replay_append_singleton]
    exact hunmapped
  · rw [hstream, Mirror.replay_append_singleton]
    exact hsent
  · rw [hstream]
    exact h.received.2.trans (List.prefix_append _ _)
  · rw [sequences, hall]
    exact h.increasing
  · rw [sequences, hall, hnext]
    exact h.below
  · rw [hupdates r hr]
    exact h.single
  · intro hf
    obtain ⟨hfailed, hsame⟩ := hflight hf
    rw [hupdates r hr, hsame]
    exact h.inFlight hfailed
  · rw [hupdates _ h.received.2.length_le, hnext]
    exact h.fresh

/-- The peer learns nothing of mappings or cursors from the command. -/
def Quiet (s : SourceRelayAdapter) (command : SourcePortCommand) : Prop :=
  ∀ record, command.record = some record → record.cursorUpdate = none ∧
    (Mirror.replay s.stream).Accepts s.upstreamSource record ∧
    (Mirror.replay s.stream).step record = Mirror.replay s.stream

theorem Conveys.submit (h : Conveys calm upstream past r acks late s)
    (hquiet : Quiet s command) : Conveys calm upstream past r acks late (s.submit env command).1 := by
  rw [submit_eq henv]
  cases hrecord : command.record with
  | none =>
      refine same (s := s) ⟨rfl, rfl, rfl, rfl, ?_, fun _ => rfl, fun _ => rfl, rfl, rfl, rfl⟩ h
      have hstream := stream_append s command
      rw [hrecord, Option.toList_none, List.append_nil] at hstream
      exact hstream
  | some record =>
      obtain ⟨hcursor, haccepts, hsame⟩ := hquiet record hrecord
      have hstream := stream_append s command
      rw [hrecord, Option.toList_some] at hstream
      have hstreams : Streams calm upstream past r acks
          ({ s with submitted := s.submitted ++ [command], calls := s.calls + 1 } :
            SourceRelayAdapter) := by
        refine h.toStreams.extend hstream hcursor haccepts rfl h.alive rfl (fun hf => ⟨hf, rfl⟩)
          ?_ ?_ ?_
        · intro x session hsession
          rw [hsame]
          refine ⟨h.own x ?_, h.mapped x session hsession⟩
          exact mem_of_lookup hsession
        · rw [hsame]
          exact h.unmapped
        · rw [hsame]
          exact h.sent
      exact ⟨hstreams, h.offered, h.idle⟩

variable {session : HoistSessionId} {x : ClientSurfaceId} {cursor : ClientCursor}
  {envelope : DestinationEnvelope}

omit henv in
theorem quiet_surface (h : Streams calm upstream past r acks s)
    (hmapped : s.mappings.lookup event.surface = some session)
    (hkind : event.kind ≠ .destroyed ∧ event.kind ≠ .role .layer) :
    Quiet s (.surface session event) := by
  rintro record ⟨⟩
  have hmem : event.surface ∈ s.mappings := mem_of_lookup hmapped
  refine ⟨rfl, ⟨h.own _ hmem, h.mapped _ _ hmapped, hkind.2⟩, ?_⟩
  obtain ⟨x, kind⟩ := event
  cases kind with
  | destroyed => exact absurd rfl hkind.1
  | role | commit | interaction | stateRequest | metadata => rfl

/-- An event of a mapped surface is sent while the relay is live. -/
theorem Conveys.sendSurface (h : Conveys calm upstream past r acks late s)
    (hmapped : s.mappings.lookup event.surface = some session)
    (hkind : event.kind ≠ .destroyed ∧ event.kind ≠ .role .layer) :
    Conveys calm upstream past r acks late (s.sendSurface env session event) := by
  have hc := h.checkAccess henv
  simp only [SourceRelayAdapter.sendSurface]
  split_ifs
  · refine hc.submit henv (quiet_surface hc.toStreams ?_ hkind)
    rw [mappings_checkAccess]
    exact hmapped
  · exact hc

theorem Conveys.gamepadStatus (h : Conveys calm upstream past r acks late s)
    (status : Option GamepadStatus) : Conveys calm upstream past r acks late (s.gamepadStatus env status) := by
  cases status with
  | none => exact h
  | some status =>
      refine h.submit henv ?_
      rintro record ⟨⟩
      exact ⟨rfl, rfl, rfl⟩

omit henv in
theorem quiet_of_record_none (s : SourceRelayAdapter)
    (h : command.record = none) : Quiet s command := by
  intro record hrecord
  rw [h] at hrecord
  cases hrecord

/-! ### Sending a cursor -/

omit henv in
theorem cursorUpdates_drop_ne_nil {records : List DestinationPortRecord} {m n : ℕ} (hmn : m ≤ n)
    (h : cursorUpdates (records.drop n) ≠ []) : cursorUpdates (records.drop m) ≠ [] := by
  obtain ⟨k, rfl⟩ := Nat.exists_eq_add_of_le hmn
  rw [← List.drop_drop] at h
  intro hnil
  refine h (List.eq_nil_iff_forall_not_mem.mpr fun u hu => ?_)
  obtain ⟨record, hrecord, hupdate⟩ := List.mem_filterMap.mp hu
  have hmem : u ∈ cursorUpdates (records.drop m) :=
    List.mem_filterMap.mpr ⟨record, List.mem_of_mem_drop hrecord, hupdate⟩
  rw [hnil] at hmem
  cases hmem

/-- The state in which a cursor is submitted. -/
def transmitting (s : SourceRelayAdapter) (session : HoistSessionId) (x : ClientSurfaceId)
    (cursor : ClientCursor) (sequence : ℕ) : SourceRelayAdapter :=
  { s with
    nextCursorSequence := checkedSucc sequence
    cache := s.cache.modify x fun cached => { cached with sentCursor := some cursor }
    cursorInFlight := some ⟨session, x, sequence⟩
    submitted := s.submitted ++ [.cursor session ⟨x, cursor⟩ sequence]
    calls := s.calls + 1 }

omit henv in
theorem cursorOf_transmitting (session : HoistSessionId) (x y : ClientSurfaceId)
    (cursor : ClientCursor) (sequence : ℕ) :
    (transmitting s session x cursor sequence).cursorOf y = s.cursorOf y := by
  simp only [cursorOf, transmitting, lookup_modify]
  split_ifs
  · cases s.cache.lookup y <;> rfl
  · rfl

omit henv in
theorem sentCursorOf_transmitting (session : HoistSessionId)
    (hcursor : s.cursorOf x = some cursor) (sequence : ℕ)
    (y : ClientSurfaceId) : (transmitting s session x cursor sequence).sentCursorOf y =
      if y = x then some cursor else s.sentCursorOf y := by
  simp only [sentCursorOf, transmitting, lookup_modify]
  split_ifs with hy
  · subst hy
    obtain ⟨cached, hcached, -⟩ := Option.bind_eq_some_iff.mp hcursor
    rw [hcached]
    rfl
  · rfl

omit henv in
/-- With nothing on its way, the cursor of a mapped surface may be sent. -/
theorem Streams.transmitted (h : Streams calm upstream past r acks s) (halive : s.failed = false)
    (hidle : s.cursorInFlight = none) (hmapped : s.mappings.lookup x = some session)
    (hcursor : s.cursorOf x = some cursor) (hnext : s.nextCursorSequence = some sequence) :
    Streams calm upstream past r acks (transmitting s session x cursor sequence) := by
  have hx : x ∈ s.mappings := mem_of_lookup hmapped
  have hstream : (transmitting s session x cursor sequence).stream =
      s.stream ++ [⟨session, .cursor ⟨x, cursor⟩ sequence⟩] := stream_append s _
  have hstep : (Mirror.replay (s.stream ++ [⟨session, .cursor ⟨x, cursor⟩ sequence⟩])) =
      ⟨(Mirror.replay s.stream).sessions,
        Function.update (Mirror.replay s.stream).cursors x (some cursor)⟩ := by
    rw [Mirror.replay_append_singleton]
    simp only [Mirror.step, h.mapped x session hmapped, reduceCtorEq, if_false]
  have hnone := h.inFlight halive
  rw [hidle, Option.toList_none, List.append_eq_nil_iff] at hnone
  have hr : r ≤ s.stream.length := h.received.1.trans h.received.2.length_le
  have hupdates : ∀ n ≤ s.stream.length,
      cursorUpdates (List.drop n (s.stream ++ [⟨session, .cursor ⟨x, cursor⟩ sequence⟩])) =
        cursorUpdates (s.stream.drop n) ++ [⟨session, x, sequence⟩] := by
    intro n hn
    rw [List.drop_append_of_le_length hn, cursorUpdates_append]
    rfl
  have hall : sequences (s.stream ++ [⟨session, .cursor ⟨x, cursor⟩ sequence⟩]) =
      sequences s.stream ++ [sequence] := by
    rw [sequences, cursorUpdates_append, List.map_append]
    rfl
  refine ⟨h.alive, ?_, h.own, ?_, ?_, ?_, ⟨h.received.1, ?_⟩, ?_, ?_, ?_, ?_, ?_, h.upstream⟩
  · rw [hstream]
    refine h.wellFormed.concat ⟨h.own x hx, fun k hk => ?_⟩
    rw [h.mapped x session hmapped] at hk
    exact (Option.some.inj hk).symm
  · rw [hstream, hstep]
    exact h.mapped
  · rw [hstream, hstep]
    exact h.unmapped
  · intro _ y c hy
    rw [sentCursorOf_transmitting session hcursor] at hy
    rw [hstream, hstep]
    split_ifs at hy with hyx
    · rw [hyx]
      exact ⟨hx, by rw [← hy]; exact Function.update_self ..⟩
    · obtain ⟨hmem, hc⟩ := h.sent halive y c hy
      exact ⟨hmem, (Function.update_of_ne hyx ..).trans hc⟩
  · rw [hstream]
    exact h.received.2.trans (List.prefix_append _ _)
  · rw [hstream, hall]
    refine List.pairwise_append.mpr ⟨h.increasing, List.pairwise_singleton _ _, ?_⟩
    intro q hq q' hq'
    rw [List.mem_singleton.mp hq']
    exact h.below sequence hnext q hq
  · intro next hsucc q hq
    obtain ⟨-, rfl⟩ := checkedSucc_eq_some.mp hsucc
    rw [hstream, hall, List.mem_append, List.mem_singleton] at hq
    rcases hq with hq | rfl
    · have hlt := h.below sequence hnext q hq
      omega
    · omega
  · rw [hstream, hupdates r hr, hnone.1, hnone.2]
    exact le_rfl
  · intro _
    rw [hstream, hupdates r hr, hnone.1, hnone.2]
    rfl
  · intro _ _ hnil
    rw [hstream, hupdates _ h.received.2.length_le] at hnil
    exact absurd hnil (by simp)

section

variable (h : Streams calm upstream past r acks s) (halive : s.failed = false)
include h halive

/-- The cursor of a mapped surface is sent, unless the numbers are used up. -/
theorem Streams.transmitCursor (hidle : s.cursorInFlight = none)
    (hmapped : s.mappings.lookup x = some session) (hcursor : s.cursorOf x = some cursor)
    (hoffered : Offered (x :: s.pendingCursors) s) :
    Conveys calm upstream past r acks late (s.transmitCursor env session x cursor) := by
  unfold SourceRelayAdapter.transmitCursor
  split
  · rename_i hnext
    refine h.fail ?_ halive _
    -- calm surroundings run out of numbers only with the last one on its way
    intro hcalm
    have hnone := h.inFlight halive
    rw [hidle, Option.toList_none, List.append_eq_nil_iff] at hnone
    exact cursorUpdates_drop_ne_nil h.received.1 (h.fresh hcalm hnext) hnone.2
  · rename_i sequence hnext
    rw [submit_eq henv]
    have hsent := h.transmitted halive hidle hmapped hcursor hnext
    refine ⟨hsent, ?_, nofun⟩
    intro _ y hy c hc
    change (transmitting s session x cursor sequence).cursorOf y = some c at hc
    change (transmitting s session x cursor sequence).sentCursorOf y = some c ∨ _
    rw [cursorOf_transmitting] at hc
    rw [sentCursorOf_transmitting session hcursor]
    split_ifs with hyx
    · rw [hyx, hcursor] at hc
      exact Or.inl hc
    · refine (hoffered halive y hy c hc).imp_right fun hmem => ?_
      exact List.mem_append_left _ ((List.mem_cons.mp hmem).resolve_left hyx)

/-- The loop over the pending cursors sends the first one that still needs it. -/
theorem Streams.sendPending (hidle : s.cursorInFlight = none) (pending : List ClientSurfaceId)
    (hoffered : Offered pending s) : Conveys calm upstream past r acks late (s.sendPending env pending) := by
  induction pending with
  | nil =>
      have hstreams : Streams calm upstream past r acks { s with pendingCursors := [] } :=
        ⟨h.alive, h.wellFormed, h.own, h.mapped, h.unmapped, h.sent, h.received, h.increasing,
          h.below, h.single, h.inFlight, h.fresh, h.upstream⟩
      refine ⟨hstreams, ?_, fun _ => rfl⟩
      intro hf x hx cursor hcursor
      exact (hoffered hf x hx cursor hcursor).imp_right fun hmem => absurd hmem List.not_mem_nil
  | cons x pending ih =>
      simp only [SourceRelayAdapter.sendPending]
      split
      · rename_i hskip
        refine ih ?_
        intro hf y hy cursor hcursor
        rcases hoffered hf y hy cursor hcursor with hsent | hmem
        · exact Or.inl hsent
        · rcases List.mem_cons.mp hmem with rfl | hmem
          · -- a mapped surface is skipped only when its cursor was sent
            left
            obtain ⟨session, hsession⟩ := exists_lookup hy
            obtain ⟨cached, hcached, hc⟩ := Option.bind_eq_some_iff.mp hcursor
            simp only [cursorToSend, hsession, hcached, hc] at hskip
            split_ifs at hskip with hsame
            rw [sentCursorOf, hcached]
            exact hsame
          · exact Or.inr hmem
      · rename_i session cursor hsend
        have hboth : s.mappings.lookup x = some session ∧ s.cursorOf x = some cursor := by
          unfold cursorToSend at hsend
          split at hsend
          · rename_i found cached hsession hcached
            split at hsend
            · rename_i c hc
              split_ifs at hsend
              cases hsend
              exact ⟨hsession, by rw [cursorOf, hcached]; exact hc⟩
            · cases hsend
          · cases hsend
        have hstreams : Streams calm upstream past r acks { s with pendingCursors := pending } :=
          ⟨h.alive, h.wellFormed, h.own, h.mapped, h.unmapped, h.sent, h.received, h.increasing,
            h.below, h.single, h.inFlight, h.fresh, h.upstream⟩
        exact hstreams.transmitCursor henv halive hidle hboth.1 hboth.2 hoffered

/-- Past the access check nothing has happened, or the relay failed in order. -/
theorem Streams.checkAccess :
    ((s.checkAccess env).2 = true ∧ (s.checkAccess env).1 = s.tick) ∨
      ((s.checkAccess env).2 = false ∧
        ∀ late, Conveys calm upstream past r acks late (s.checkAccess env).1) := by
  cases hlive : (s.checkAccess env).2 with
  | true => exact Or.inl ⟨rfl, (checkAccess_live hlive).2⟩
  | false =>
      right
      refine ⟨rfl, fun late => ?_⟩
      have hdead : ¬ s.failed = true := by
        rw [halive]
        decide
      unfold SourceRelayAdapter.checkAccess at hlive ⊢
      split_ifs at hlive ⊢ with hauthorized
      have hcalm : ¬ calm := by
        intro hcalm
        rw [isAuthorized, henv.authorized hcalm, Bool.or_true] at hauthorized
        exact hauthorized rfl
      have hcleared := Streams.same (s := s)
        (t := { s with effects := [], presentationUpdates := [] }.tick)
        ⟨rfl, rfl, rfl, rfl, rfl, fun _ => rfl, fun _ => rfl, rfl, rfl, rfl⟩ h
      exact hcleared.fail hcalm halive _

/-- Everything that waits is offered again. -/
theorem Streams.sendNextCursor (hoffered : Offered s.pendingCursors s) :
    Conveys calm upstream past r acks late (s.sendNextCursor env) := by
  simp only [SourceRelayAdapter.sendNextCursor]
  rcases h.checkAccess henv halive with ⟨hlive, heq⟩ | ⟨hdead, hc⟩
  · have htick := h.same (tick s)
    rw [hlive, heq]
    cases hflight : s.tick.cursorInFlight with
    | none => exact htick.sendPending henv halive hflight _ hoffered
    | some active =>
        refine ⟨htick, ?_, ?_⟩
        · intro hf x hx cursor hcursor
          exact (hoffered hf x hx cursor hcursor).imp_right fun hmem =>
            List.mem_append_left late hmem
        · intro hnone
          cases hflight.symm.trans hnone
  · rw [hdead]
    exact hc late

end

/-- A late cursor is queued. -/
theorem Conveys.queueCursor (h : Conveys calm upstream past r acks [x] s) :
    Conveys calm upstream past r acks [] (s.queueCursor env x) := by
  have hqueue : s.failed = false → ∀ pending, (∀ y ∈ s.pendingCursors ++ [x], y ∈ pending) →
      Conveys calm upstream past r acks []
        (({ s with pendingCursors := pending } : SourceRelayAdapter).sendNextCursor env) := by
    intro halive pending hpending
    refine Streams.sendNextCursor henv ?_ halive ?_
    · exact ⟨h.alive, h.wellFormed, h.own, h.mapped, h.unmapped, h.sent, h.received, h.increasing,
        h.below, h.single, h.inFlight, h.fresh, h.upstream⟩
    · intro hf y hy cursor hcursor
      exact (h.offered hf y hy cursor hcursor).imp_right fun hmem => hpending y hmem
  unfold SourceRelayAdapter.queueCursor
  split_ifs with hskip hqueued
  · refine ⟨h.toStreams, ?_, h.idle⟩
    intro hf y hy cursor hcursor
    rcases hskip with hx | hdead
    · refine (h.offered hf y hy cursor hcursor).imp_right fun hmem => ?_
      rcases List.mem_append.mp hmem with hmem | hlate
      · exact List.mem_append_left _ hmem
      · rw [List.mem_singleton.mp hlate] at hy
        exact absurd hy hx
    · rw [hf] at hdead
      cases hdead
  · rw [not_or, Bool.not_eq_true] at hskip
    refine hqueue hskip.2 s.pendingCursors fun y hmem => ?_
    rcases List.mem_append.mp hmem with hmem | hlate
    · exact hmem
    · rw [List.mem_singleton.mp hlate]
      exact hqueued
  · rw [not_or, Bool.not_eq_true] at hskip
    exact hqueue hskip.2 _ fun _ hmem => hmem

/-! ### Mapping -/

omit henv in
/-- Nothing was told the peer, though the relay may have failed. -/
def Lapsed (calm : Prop) (s t : SourceRelayAdapter) : Prop :=
  SamePort s t ∨ (¬ calm ∧ SameRest s t ∧ t.failed = true ∧ t.pendingCursors = [])

omit henv in
theorem SamePort.refl (s : SourceRelayAdapter) : SamePort s s :=
  ⟨rfl, rfl, rfl, rfl, rfl, fun _ => rfl, fun _ => rfl, rfl, rfl, rfl⟩

omit henv in
theorem SamePort.trans {u : SourceRelayAdapter} (h : SamePort s t) (h' : SamePort t u) :
    SamePort s u where
  upstreamSource := h'.upstreamSource.trans h.upstreamSource
  admission := h'.admission.trans h.admission
  failed := h'.failed.trans h.failed
  mappings := h'.mappings.trans h.mappings
  stream := h'.stream.trans h.stream
  cursor x := (h'.cursor x).trans (h.cursor x)
  sentCursor x := (h'.sentCursor x).trans (h.sentCursor x)
  pendingCursors := h'.pendingCursors.trans h.pendingCursors
  cursorInFlight := h'.cursorInFlight.trans h.cursorInFlight
  nextCursorSequence := h'.nextCursorSequence.trans h.nextCursorSequence

omit henv in
theorem Conveys.lapsed (h : Conveys calm upstream past r acks late s) (hl : Lapsed calm s t) :
    Conveys calm upstream past r acks late t := by
  rcases hl with hsame | ⟨hcalm, hrest, hfailed, hpending⟩
  · exact h.same hsame
  · refine ⟨h.toStreams.failed hcalm hrest hfailed, fun hf => ?_, fun _ => hpending⟩
    rw [hfailed] at hf
    cases hf

theorem lapsed_checkAccess (hl : Lapsed calm s t) : Lapsed calm s (t.checkAccess env).1 := by
  unfold SourceRelayAdapter.checkAccess
  split_ifs with hfailed hauthorized
  · exact hl
  · rcases hl with hsame | ⟨-, -, hdead, -⟩
    · exact Or.inl (hsame.trans (tick t))
    · exact absurd hdead hfailed
  · right
    rcases hl with hsame | ⟨-, -, hdead, -⟩
    · refine ⟨fun hcalm => ?_, ?_, failed_fail _ _, ?_⟩
      · rw [isAuthorized, henv.authorized hcalm, Bool.or_true] at hauthorized
        exact hauthorized rfl
      · have hrest := sameRest_fail env
          ({ t with effects := [], presentationUpdates := [] } : SourceRelayAdapter).tick
          "access session revoked"
        exact ⟨hrest.upstreamSource.trans hsame.upstreamSource, hrest.mappings.trans hsame.mappings,
          hrest.stream.trans hsame.stream, hrest.nextCursorSequence.trans hsame.nextCursorSequence⟩
      · exact pendingCursors_fail (by simpa using hfailed)
    · exact absurd hdead hfailed

/-- Claiming a presentation tells the peer nothing. -/
theorem lapsed_setPresentation (s : SourceRelayAdapter) (x : ClientSurfaceId)
    (claim : ClientPresentationClaim) : Lapsed calm s (s.setPresentation env x claim) := by
  refine Cascade.run_invariant (P := Lapsed calm s) ?_ _ x (Or.inl (refl s))
  intro t y ht
  have hc := lapsed_checkAccess henv ht
  unfold setPresentationBody
  simp only []
  split_ifs with hgo
  · rw [Bool.and_eq_true] at hgo
    obtain ⟨halive, heq⟩ := checkAccess_live hgo.1
    rw [heq] at hc ⊢
    have hsame : SamePort s t.tick := by
      rcases hc with hsame | ⟨-, -, hdead, -⟩
      · exact hsame
      · exact absurd (halive.symm.trans hdead) nofun
    refine Or.inl (hsame.trans ?_)
    unfold claimPresentation
    split_ifs
    · exact ⟨rfl, rfl, rfl, rfl, rfl, fun _ => rfl, fun _ => rfl, rfl, rfl, rfl⟩
    · obtain ⟨accepted, hport⟩ := henv.setPresentation t.tick.calls y claim
      rw [hport]
      exact ⟨rfl, rfl, rfl, rfl, rfl, fun _ => rfl, fun _ => rfl, rfl, rfl, rfl⟩
  · exact hc

theorem Conveys.setPresentation (h : Conveys calm upstream past r acks late s) (x : ClientSurfaceId)
    (claim : ClientPresentationClaim) :
    Conveys calm upstream past r acks late (s.setPresentation env x claim) :=
  h.lapsed (lapsed_setPresentation henv s x claim)

/-- A surface is enlisted, its presentation is claimed, and the peer is told. -/
theorem Conveys.enlist (h : Conveys calm upstream past r acks [] s) (halive : s.failed = false)
    (hx : x ∉ s.mappings)
    (hsource : x.source = s.upstreamSource) (hl : Lapsed calm (s.enlist session x) t) :
    Conveys calm upstream past r acks [x] (t.submit env (.mapSurface session x)).1 := by
  rw [submit_eq henv]
  have hrest : SameRest (s.enlist session x) t := by
    rcases hl with hsame | ⟨-, hrest, -, -⟩
    · exact ⟨hsame.upstreamSource, hsame.mappings, hsame.stream, hsame.nextCursorSequence⟩
    · exact hrest
  have hsame : t.failed = false → SamePort (s.enlist session x) t := by
    intro hf
    rcases hl with hsame | ⟨-, -, hdead, -⟩
    · exact hsame
    · exact absurd (hf.symm.trans hdead) nofun
  have hcalm : calm → SamePort (s.enlist session x) t := fun hc =>
    hl.resolve_right fun hfailed => hfailed.1 hc
  have hmappings : t.mappings = s.mappings.insert x session := hrest.mappings
  have hstream : (t.submitted ++ [SourcePortCommand.mapSurface session x]).filterMap (·.record) =
      s.stream ++ [⟨session, .mappedSurface x⟩] := by
    rw [stream_append, hrest.stream]
    rfl
  have hstreams : Streams calm upstream past r acks
      ({ t with
          submitted := t.submitted ++ [.mapSurface session x]
          calls := t.calls + 1 } : SourceRelayAdapter) := by
    refine h.toStreams.extend hstream rfl ⟨hsource, h.unmapped halive x hx⟩ hrest.upstreamSource ?_
      hrest.nextCursorSequence ?_ ?_ ?_ ?_
    · intro hc
      obtain ⟨hfailed, hadmission⟩ := h.alive hc
      exact ⟨(hcalm hc).failed.trans hfailed, (hcalm hc).admission.trans hadmission⟩
    · intro hf
      exact ⟨halive, (hsame hf).cursorInFlight⟩
    · intro y k hy
      change t.mappings.lookup y = some k at hy
      rw [hmappings, lookup_insert_eq] at hy
      simp only [Mirror.step, Function.update_apply]
      split_ifs at hy ⊢ with hyx
      · rw [hyx]
        exact ⟨hsource, hy⟩
      · exact ⟨h.own y (mem_of_lookup hy), h.mapped y k hy⟩
    · intro _ y hy
      change y ∉ t.mappings at hy
      rw [hmappings, mem_insert, not_or] at hy
      simp only [Mirror.step, Function.update_of_ne hy.1]
      exact h.unmapped halive y hy.2
    · intro hf y cursor hcursor
      have hsent : s.sentCursorOf y = some cursor := ((hsame hf).sentCursor y).symm.trans hcursor
      obtain ⟨hmem, hmirror⟩ := h.sent halive y cursor hsent
      have hyx : y ≠ x := by
        rintro rfl
        exact hx hmem
      refine ⟨?_, ?_⟩
      · change y ∈ t.mappings
        rw [hmappings]
        exact (mem_insert _).mpr (Or.inr hmem)
      · simp only [Mirror.step, Function.update_of_ne hyx]
        exact hmirror
  refine ⟨hstreams, ?_, ?_⟩
  · intro hf y hy cursor hcursor
    have e := hsame hf
    change y ∈ t.mappings at hy
    rw [hmappings, mem_insert] at hy
    rcases hy with rfl | hy
    · exact Or.inr (List.mem_append_right _ (List.mem_singleton.mpr rfl))
    · have hoffered := h.offered halive y hy cursor ((e.cursor y).symm.trans hcursor)
      rw [List.append_nil] at hoffered
      change t.sentCursorOf y = some cursor ∨ y ∈ t.pendingCursors ++ [x]
      rw [e.sentCursor, e.pendingCursors]
      exact hoffered.imp_right fun hmem => List.mem_append_left _ hmem
  · intro hidle
    change t.pendingCursors = []
    rcases hl with e | ⟨-, -, -, hpending⟩
    · rw [e.pendingCursors]
      exact h.idle (e.cursorInFlight.symm.trans hidle)
    · exact hpending

omit henv in
theorem mappings_sendSurface (session : HoistSessionId) (event : ClientSurfaceEvent) :
    (s.sendSurface env session event).mappings = s.mappings := by
  simp only [SourceRelayAdapter.sendSurface]
  split_ifs
  · rw [mappings_submit, mappings_checkAccess]
  · exact mappings_checkAccess s

variable (env) in
omit henv in
/-- Failing forgets the cache, and claiming a presentation does nothing else to it. -/
theorem cache_setPresentation (s : SourceRelayAdapter) (x : ClientSurfaceId)
    (claim : ClientPresentationClaim) :
    (s.setPresentation env x claim).cache = s.cache ∨
      (s.setPresentation env x claim).cache = ∅ := by
  have hfail : ∀ (t : SourceRelayAdapter) reason,
      (t.fail env reason).cache = t.cache ∨ (t.fail env reason).cache = ∅ := by
    intro t reason
    unfold SourceRelayAdapter.fail
    split_ifs
    · exact Or.inl rfl
    · exact Or.inr rfl
  refine Cascade.run_invariant (P := fun t : SourceRelayAdapter => t.cache = s.cache ∨ t.cache = ∅)
    ?_ _ x (Or.inl rfl)
  intro t y ht
  have hthen : ∀ (u v : SourceRelayAdapter), u.cache = s.cache ∨ u.cache = ∅ →
      v.cache = u.cache ∨ v.cache = ∅ → v.cache = s.cache ∨ v.cache = ∅ := by
    intro u v hu hv
    rcases hv with hv | hv
    · rw [hv]
      exact hu
    · exact Or.inr hv
  have hcheck : (t.checkAccess env).1.cache = t.cache ∨ (t.checkAccess env).1.cache = ∅ := by
    unfold SourceRelayAdapter.checkAccess
    split_ifs
    · exact Or.inl rfl
    · exact Or.inl rfl
    · exact hfail _ _
  have hc := hthen t _ ht hcheck
  unfold setPresentationBody
  simp only []
  split_ifs
  · unfold claimPresentation
    split_ifs
    · exact hc
    · split
      · exact hthen (t.checkAccess env).1 _ hc (hfail _ _)
      · exact hc
  · exact hc

/-- A new mapping is told what was observed before it. -/
theorem Conveys.replay (h : Conveys calm upstream past r acks late s)
    (hmapped : s.mappings.lookup x = some session) (hrole : s.roleOf x ≠ some .layer) :
    Conveys calm upstream past r acks late (s.replay env session x) := by
  have hsent : ∀ {t : SourceRelayAdapter} (kind : ClientSurfaceEventKind),
      Conveys calm upstream past r acks late t → t.mappings = s.mappings →
      kind ≠ .destroyed ∧ kind ≠ .role .layer →
      Conveys calm upstream past r acks late (t.sendSurface env session ⟨x, kind⟩) ∧
        (t.sendSurface env session ⟨x, kind⟩).mappings = s.mappings := by
    intro t kind ht hsame hkind
    refine ⟨ht.sendSurface henv ?_ hkind, (mappings_sendSurface _ _).trans hsame⟩
    rw [hsame]
    exact hmapped
  unfold SourceRelayAdapter.replay
  split
  · exact h
  · rename_i cached hcached
    have hrole' : ∀ role, cached.role = some role → role ≠ .layer := by
      rintro role hcache rfl
      exact hrole (by rw [roleOf, hcached]; exact hcache)
    have h1 : Conveys calm upstream past r acks late (s.replayRole env session x cached.role) ∧
        (s.replayRole env session x cached.role).mappings = s.mappings := by
      cases hr : cached.role with
      | none => exact ⟨h, rfl⟩
      | some role =>
          refine hsent (.role role) h rfl ⟨nofun, fun heq => ?_⟩
          exact hrole' role hr (by injection heq)
    have h2 : ∀ {t : SourceRelayAdapter} metadata, Conveys calm upstream past r acks late t →
        t.mappings = s.mappings →
        Conveys calm upstream past r acks late (t.replayMetadata env session x metadata) ∧
          (t.replayMetadata env session x metadata).mappings = s.mappings := by
      intro t metadata ht hsame
      cases metadata with
      | none => exact ⟨ht, hsame⟩
      | some metadata =>
          refine hsent (.metadata metadata) ?_ hsame ⟨nofun, nofun⟩
          refine same (s := t) ⟨rfl, rfl, rfl, rfl, rfl, fun y => ?_, fun y => ?_, rfl, rfl, rfl⟩ ht
          all_goals
            simp only [cursorOf, sentCursorOf, lookup_modify]
            split_ifs
            · cases t.cache.lookup y <;> rfl
            · rfl
    obtain ⟨h2, hmap2⟩ := h2 cached.metadata h1.1 h1.2
    cases hcommit : cached.commit with
    | none => exact h2
    | some commit => exact (hsent (.commit commit) h2 hmap2 ⟨nofun, nofun⟩).1

variable (h : Conveys calm upstream past r acks [] s)
include h

theorem Conveys.mapAdmitted (halive : s.failed = false) {role : ClientSurfaceRole} (hx : x ∉ s.mappings)
    (hsource : x.source = s.upstreamSource) (hrole : s.roleOf x ≠ some .layer) :
    Conveys calm upstream past r acks [] (s.mapAdmitted env session x role).1 := by
  have hl := lapsed_setPresentation henv (s.enlist session x) x
    ((s.enlist session x).initialClaim role)
  have htold := h.enlist henv halive hx hsource hl
  have hmapped : (s.enlist session x).mappings.lookup x = some session := lookup_insert _
  unfold SourceRelayAdapter.mapAdmitted
  simp only []
  rw [submit_eq henv] at htold ⊢
  rw [if_pos rfl]
  refine same (tick _) ((htold.replay henv ?_ ?_).queueCursor henv)
  · rcases hl with hsame | ⟨-, hrest, -, -⟩
    · exact (congrArg (lookup x) hsame.mappings).trans hmapped
    · exact (congrArg (lookup x) hrest.mappings).trans hmapped
  · -- the role that allowed the mapping is cached still, unless the relay failed
    have hcache := cache_setPresentation env (s.enlist session x) x
      ((s.enlist session x).initialClaim role)
    change ((lookup x _).bind _) ≠ _
    rcases hcache with hcache | hcache
    · rw [hcache]
      exact hrole
    · rw [hcache]
      exact nofun

theorem Conveys.map (session : HoistSessionId) (x : ClientSurfaceId) :
    Conveys calm upstream past r acks [] (s.map env session x) := by
  refine Cascade.run_invariant (P := Conveys calm upstream past r acks []) ?_ _ x h
  intro t y ht
  have hc := ht.checkAccess henv
  unfold mapBody
  simp only []
  split_ifs with hlive
  · obtain ⟨halive, heq⟩ := checkAccess_live hlive
    have hgoing : (t.checkAccess env).1.failed = false := by
      rw [heq]
      exact halive
    have htick := same (tick _) hc
    unfold mapLive
    split_ifs with hgo
    · simp only [Bool.and_eq_true, decide_eq_true_eq] at hgo
      split
      · exact same (s := (t.checkAccess env).1.tick)
          ⟨rfl, rfl, rfl, rfl, rfl, fun _ => rfl, fun _ => rfl, rfl, rfl, rfl⟩ htick
      · rename_i role hrole
        split_ifs with hmappable
        · refine htick.mapAdmitted henv hgoing hgo.2 hgo.1.2 ?_
          change (t.checkAccess env).1.roleOf y ≠ some .layer
          rw [hrole]
          rintro ⟨⟩
          cases hmappable
        · exact htick
    · exact htick
  · exact hc

/-! ### Taking surfaces away -/

omit h in
omit henv in
/-- The peer forgets a surface, and so does the relay. -/
theorem Conveys.forgotten (h : Conveys calm upstream past r acks [] s)
    (hstream : t.stream = s.stream ++ [record]) (hcursor : record.cursorUpdate = none)
    (haccepts : (Mirror.replay s.stream).Accepts s.upstreamSource record)
    (hforget : ∀ m : Mirror, m.step record = m.forget x)
    (hupstream : t.upstreamSource = s.upstreamSource) (hadmission : t.admission = s.admission)
    (hfailed : t.failed = s.failed) (hflight : t.cursorInFlight = s.cursorInFlight)
    (hnext : t.nextCursorSequence = s.nextCursorSequence)
    (hmappings : t.mappings = s.mappings.erase x)
    (hcursors : ∀ y, y ≠ x → t.cursorOf y = s.cursorOf y)
    (hsent : ∀ y, t.sentCursorOf y = if y = x then none else s.sentCursorOf y)
    (hpending : t.pendingCursors = s.pendingCursors.filter (· != x)) :
    Conveys calm upstream past r acks [] t := by
  have hstreams : Streams calm upstream past r acks t := by
    refine h.toStreams.extend hstream hcursor haccepts hupstream ?_ hnext ?_ ?_ ?_ ?_
    · rw [hfailed, hadmission]
      exact h.alive
    · rw [hfailed]
      exact fun hf => ⟨hf, hflight⟩
    · intro y session hy
      rw [hmappings, lookup_erase_eq] at hy
      rw [hforget]
      split_ifs at hy with hyx
      refine ⟨h.own y (mem_of_lookup hy), ?_⟩
      simp only [Mirror.forget, Function.update_of_ne hyx]
      exact h.mapped y session hy
    · rw [hfailed]
      intro hf y hy
      rw [hmappings, mem_erase, not_and] at hy
      rw [hforget]
      by_cases hyx : y = x
      · simp [Mirror.forget, hyx]
      · simp only [Mirror.forget, Function.update_of_ne hyx]
        exact h.unmapped hf y (hy hyx)
    · rw [hfailed]
      intro hf y cursor hy
      rw [hsent] at hy
      rw [hforget, hmappings]
      split_ifs at hy with hyx
      obtain ⟨hmem, hmirror⟩ := h.sent hf y cursor hy
      refine ⟨mem_erase.mpr ⟨hyx, hmem⟩, ?_⟩
      simp only [Mirror.forget, Function.update_of_ne hyx]
      exact hmirror
  refine ⟨hstreams, ?_, ?_⟩
  · rw [Offered, hfailed]
    intro hf y hy cursor hc
    rw [hmappings] at hy
    obtain ⟨hyx, hmem⟩ := mem_erase.mp hy
    rw [hcursors y hyx] at hc
    rw [hsent, if_neg hyx, hpending, List.append_nil]
    have hoffered := h.offered hf y hmem cursor hc
    rw [List.append_nil] at hoffered
    exact hoffered.imp_right fun hp => List.mem_filter.mpr ⟨hp, bne_iff_ne.mpr hyx⟩
  · rw [hflight, hpending]
    intro hidle
    rw [h.idle hidle, List.filter_nil]

omit h in
variable (env) in
omit henv in
theorem stream_withdraw (s : SourceRelayAdapter) (x : ClientSurfaceId) :
    (s.withdraw env x).submitted = s.submitted ∧ (s.withdraw env x).admission = s.admission ∧
      (s.withdraw env x).cursorInFlight = s.cursorInFlight ∧
      (s.withdraw env x).nextCursorSequence = s.nextCursorSequence ∧
      (s.withdraw env x).pendingCursors = s.pendingCursors.filter (· != x) ∧
      (s.withdraw env x).upstreamSource = s.upstreamSource ∧
      (s.withdraw env x).failed = s.failed ∧
      (s.withdraw env x).cache = s.cache.modify x fun cached =>
        { cached with sentCursor := none, sentMetadata := none } := by
  unfold withdraw releasePresentation
  split_ifs <;> exact ⟨rfl, rfl, rfl, rfl, rfl, rfl, rfl, rfl⟩

theorem Conveys.unmapBody (x : ClientSurfaceId) :
    Conveys calm upstream past r acks [] (unmapBody env s x).1 := by
  have hdrop : Conveys calm upstream past r acks [] (s.dropReservation x) := same (s := s)
    ⟨rfl, rfl, rfl, rfl, rfl, fun _ => rfl, fun _ => rfl, rfl, rfl, rfl⟩ h
  simp only [SourceRelayAdapter.unmapBody]
  split
  · exact hdrop
  · rename_i session hsession
    rw [submit_eq henv, if_pos rfl]
    obtain ⟨hsubmitted, hadmission, hflight, hnext, hpending, hupstream, hfailed, hcache⟩ :=
      stream_withdraw env (s.dropReservation x) x
    have hstream := stream_append (s.dropReservation x) (.withdrawSurface session x)
    rw [← hsubmitted] at hstream
    have hmappings : ((s.dropReservation x).withdraw env x).mappings = s.mappings.erase x :=
      mappings_withdraw (s.dropReservation x) x
    refine same (tick _) (forgotten (x := x) hdrop hstream rfl trivial
      (fun _ => rfl) hupstream hadmission hfailed hflight hnext hmappings ?_ ?_ hpending)
    · intro y hy
      change ((withdraw env (s.dropReservation x) x).cache.lookup y).bind _ = _
      rw [hcache, lookup_modify, if_neg hy]
      rfl
    · intro y
      change ((withdraw env (s.dropReservation x) x).cache.lookup y).bind _ = _
      rw [hcache, lookup_modify]
      split_ifs
      · cases (s.dropReservation x).cache.lookup y <;> rfl
      · rfl

theorem Conveys.unmap (x : ClientSurfaceId) : Conveys calm upstream past r acks [] (s.unmap env x) :=
  Cascade.run_invariant (P := Conveys calm upstream past r acks []) (fun _ y ht => ht.unmapBody henv y) _ x h

omit h in
omit henv in
/-- A surface that is not mapped may be forgotten. -/
theorem Conveys.forgetSurface (h : Conveys calm upstream past r acks [] s)
    (hx : x ∉ s.mappings) : Conveys calm upstream past r acks [] (s.forgetSurface x) := by
  have hcursors : ∀ y, y ≠ x → (s.forgetSurface x).cursorOf y = s.cursorOf y ∧
      (s.forgetSurface x).sentCursorOf y = s.sentCursorOf y := by
    intro y hy
    constructor
    · simp only [cursorOf, SourceRelayAdapter.forgetSurface, lookup_erase_eq, if_neg hy]
    · simp only [sentCursorOf, SourceRelayAdapter.forgetSurface, lookup_erase_eq, if_neg hy]
  have hgone : (s.forgetSurface x).sentCursorOf x = none := by
    simp [sentCursorOf, SourceRelayAdapter.forgetSurface]
  refine ⟨⟨h.alive, h.wellFormed, h.own, h.mapped, h.unmapped, ?_, h.received, h.increasing,
    h.below, h.single, h.inFlight, h.fresh, h.upstream⟩, ?_, ?_⟩
  · intro hf y cursor hy
    by_cases hyx : y = x
    · rw [hyx, hgone] at hy
      cases hy
    · rw [(hcursors y hyx).2] at hy
      exact h.sent hf y cursor hy
  · intro hf y hy cursor hc
    have hyx : y ≠ x := by
      rintro rfl
      exact hx hy
    rw [(hcursors y hyx).1] at hc
    rw [(hcursors y hyx).2, List.append_nil]
    have hoffered := h.offered hf y hy cursor hc
    rw [List.append_nil] at hoffered
    exact hoffered.imp_right fun hp => List.mem_filter.mpr ⟨hp, bne_iff_ne.mpr hyx⟩
  · intro hidle
    change s.pendingCursors.filter _ = []
    rw [h.idle hidle, List.filter_nil]

omit h in
omit henv in
/-- The mappings of a relay that has failed may go. -/
theorem Streams.unlist (h : Streams calm upstream past r acks s) (hfailed : s.failed = true)
    (x : ClientSurfaceId) : Streams calm upstream past r acks (s.unlist x) := by
  have hdead : s.failed ≠ false := by
    rw [hfailed]
    decide
  refine ⟨h.alive, h.wellFormed, ?_, ?_, fun hf => absurd hf hdead, fun hf => absurd hf hdead,
    h.received, h.increasing, h.below, h.single, h.inFlight, h.fresh, h.upstream⟩
  · intro y hy
    exact h.own y (mem_erase.mp hy).2
  · intro y session hy
    change (s.mappings.erase x).lookup y = some session at hy
    rw [lookup_erase_eq] at hy
    split_ifs at hy
    exact h.mapped y session hy

/-- A destroyed surface leaves with its own event, and is forgotten. -/
theorem Conveys.sendDestroyed (x : ClientSurfaceId) :
    Conveys calm upstream past r acks [] ((s.sendDestroyed env x).forgetSurface x) := by
  unfold SourceRelayAdapter.sendDestroyed
  split
  · rename_i session hsession
    have hmem : x ∈ s.mappings := mem_of_lookup hsession
    simp only [SourceRelayAdapter.sendSurface]
    cases hlive : ((s.unlist x).checkAccess env).2 with
    | true =>
        obtain ⟨hgoing, heq⟩ := checkAccess_live hlive
        rw [if_pos rfl, heq, submit_eq henv]
        refine forgotten (x := x) h (stream_append s _) rfl
          ⟨h.own x hmem, h.mapped x session hsession, by simp⟩ (fun _ => rfl) rfl rfl rfl rfl rfl rfl
          ?_ ?_ rfl
        · intro y hy
          change ((s.cache.erase x).lookup y).bind _ = _
          rw [lookup_erase_eq, if_neg hy]
          rfl
        · intro y
          change ((s.cache.erase x).lookup y).bind _ = _
          rw [lookup_erase_eq]
          split_ifs <;> rfl
    | false =>
        rw [if_neg (by decide)]
        have hdead := failed_of_not_live hlive
        have hl : Lapsed calm (s.unlist x) ((s.unlist x).checkAccess env).1 :=
          lapsed_checkAccess henv (Or.inl (refl (s.unlist x)))
        have hcalm : ¬ calm := by
          intro hc
          rcases hl with hsame | ⟨hcalm, -⟩
          · have hsteady := hsame.failed.symm.trans hdead
            cases hsteady.symm.trans (h.alive hc).1
          · exact hcalm hc
        -- the mapping goes before the relay notices that it was revoked
        have hfailed : Streams calm upstream past r acks { s with failed := true } :=
          h.toStreams.failed hcalm ⟨rfl, rfl, rfl, rfl⟩ rfl
        have hgone : Streams calm upstream past r acks { s.unlist x with failed := true } :=
          hfailed.unlist rfl x
        have hnot : ((s.unlist x).checkAccess env).1.failed ≠ false := by
          rw [hdead]
          decide
        rcases hl with hsame | ⟨-, hrest, -, hpending⟩
        · refine ⟨hgone.failed hcalm ⟨hsame.upstreamSource, hsame.mappings, hsame.stream,
            hsame.nextCursorSequence⟩ hdead, fun hf => absurd hf hnot, fun hidle => ?_⟩
          have hpending := h.idle (hsame.cursorInFlight.symm.trans hidle)
          change ((s.unlist x).checkAccess env).1.pendingCursors.filter _ = []
          rw [hsame.pendingCursors]
          exact (congrArg (List.filter _) hpending).trans List.filter_nil
        · refine ⟨hgone.failed hcalm ⟨hrest.upstreamSource, hrest.mappings, hrest.stream,
            hrest.nextCursorSequence⟩ hdead, fun hf => absurd hf hnot, fun _ => ?_⟩
          change ((s.unlist x).checkAccess env).1.pendingCursors.filter _ = []
          rw [hpending, List.filter_nil]
  · rename_i hnone
    exact h.forgetSurface (lookup_eq_none.mp hnone)

omit h in
omit henv in
theorem samePort_releasePresentation (s : SourceRelayAdapter) (x : ClientSurfaceId) :
    SamePort s (s.releasePresentation x) := by
  unfold releasePresentation
  split_ifs
  · exact ⟨rfl, rfl, rfl, rfl, rfl, fun _ => rfl, fun _ => rfl, rfl, rfl, rfl⟩
  · exact refl s

omit h in
variable (env) in
omit henv in
theorem samePort_releaseInput (s : SourceRelayAdapter) (owns : ClientSurfaceId → Bool) :
    SamePort s (s.releaseInput env owns) :=
  ⟨rfl, rfl, rfl, rfl, rfl, fun _ => rfl, fun _ => rfl, rfl, rfl, rfl⟩

theorem Conveys.observeDestroyed (x : ClientSurfaceId) :
    Conveys calm upstream past r acks [] (s.observeDestroyed env x) := by
  have hpopups : Conveys calm upstream past r acks []
      ((s.cachedPopups env x).foldl (fun s child => s.unmap env child) (s.dropReservation x).tick) := by
    refine Cascade.foldl_invariant (P := Conveys calm upstream past r acks [])
      (fun t y _ ht => ht.unmap henv y) ?_
    exact same (s := s) ⟨rfl, rfl, rfl, rfl, rfl, fun _ => rfl, fun _ => rfl, rfl, rfl, rfl⟩ h
  have hreleased := hpopups.same (samePort_releasePresentation _ x)
  exact sendDestroyed henv (hreleased.same (samePort_releaseInput env _ _)) x

/-! ### Observing -/

omit h in
omit henv in
/-- Remembering what is no cursor. -/
theorem samePort_remember (s : SourceRelayAdapter) (x : ClientSurfaceId)
    {f : CachedSurface → CachedSurface}
    (hf : ∀ cached, (f cached).cursor = cached.cursor ∧ (f cached).sentCursor = cached.sentCursor) :
    SamePort s (s.remember x f) := by
  have hcache : ∀ y, (s.remember x f).cache.lookup y =
      if y = x then some (f ((s.cache.lookup x).getD {})) else s.cache.lookup y :=
    fun y => lookup_insert_eq ..
  refine ⟨rfl, rfl, rfl, rfl, rfl, fun y => ?_, fun y => ?_, rfl, rfl, rfl⟩
  · rw [cursorOf, cursorOf, hcache]
    split_ifs with hy
    · rw [hy, Option.bind_some, (hf _).1]
      cases s.cache.lookup x <;> rfl
    · rfl
  · rw [sentCursorOf, sentCursorOf, hcache]
    split_ifs with hy
    · rw [hy, Option.bind_some, (hf _).2]
      cases s.cache.lookup x <;> rfl
    · rfl

omit h in
omit henv in
theorem samePort_dropContent (s : SourceRelayAdapter) (x : ClientSurfaceId) :
    SamePort s (s.dropContent x) := by
  refine ⟨rfl, rfl, rfl, rfl, rfl, fun y => ?_, fun y => ?_, rfl, rfl, rfl⟩
  · simp only [cursorOf, dropContent, lookup_mapValues]
    cases s.cache.lookup y with
    | none => rfl
    | some cached => simp only [Option.map_some, Option.bind_some]; split_ifs <;> rfl
  · simp only [sentCursorOf, dropContent, lookup_mapValues]
    cases s.cache.lookup y with
    | none => rfl
    | some cached => simp only [Option.map_some, Option.bind_some]; split_ifs <;> rfl

theorem Conveys.admitSurface (x : ClientSurfaceId) :
    Conveys calm upstream past r acks [] (s.admitSurface env x) := by
  have htick := same (tick s) h
  unfold SourceRelayAdapter.admitSurface
  split_ifs with hskip
  · exact h
  · rw [not_or, not_not] at hskip
    unfold SourceRelayAdapter.admitRole
    split
    · split
      · refine htick.fail (fun hcalm => ?_) _
        -- calm surroundings admit nothing by themselves
        exact absurd (hskip.1.symm.trans (h.alive hcalm).2) nofun
      · refine map henv ?_ _ x
        exact same (s := s.tick)
          ⟨rfl, rfl, rfl, rfl, rfl, fun _ => rfl, fun _ => rfl, rfl, rfl, rfl⟩ htick
    · split
      · exact htick
      · exact htick.map henv _ x
    · exact htick
    · exact htick
  · exact htick

theorem Conveys.observeMetadata (x : ClientSurfaceId) (metadata : ClientSurfaceMetadata) :
    Conveys calm upstream past r acks [] (s.observeMetadata env x metadata) := by
  have hknown := h.same (samePort_remember s x
    (f := fun cached => { cached with metadata := some metadata }) fun _ => ⟨rfl, rfl⟩)
  simp only [SourceRelayAdapter.observeMetadata]
  split
  · rename_i session hsession
    split_ifs
    · exact hknown
    · refine sendSurface henv ?_ hsession (by simp)
      exact hknown.same (samePort_remember _ x fun _ => ⟨rfl, rfl⟩)
  · exact hknown

theorem Conveys.observeRole (x : ClientSurfaceId) (role : ClientSurfaceRole) :
    Conveys calm upstream past r acks [] (s.observeRole env x role) := by
  have hknown := h.same (samePort_remember s x
    (f := fun cached => { cached with role := some role }) fun _ => ⟨rfl, rfl⟩)
  simp only [SourceRelayAdapter.observeRole]
  split_ifs with hdesktop
  · exact (hknown.unmap henv x).same (samePort_dropContent _ x)
  · split
    · refine map henv (same ?_ hknown) _ x
      exact ⟨rfl, rfl, rfl, rfl, rfl, fun _ => rfl, fun _ => rfl, rfl, rfl, rfl⟩
    · split
      · rename_i session hsession
        refine hknown.sendSurface henv hsession ⟨by simp, ?_⟩
        -- a layer role has taken the surface out already
        rintro hlayer
        have hrole : role = .layer := by injection hlayer
        refine hdesktop ?_
        rw [desktopSurface, roleOf, remember, lookup_insert, hrole]
        rfl
      · split
        · exact hknown.map henv _ x
        · exact hknown.admitSurface henv x

omit h in
omit henv in
/-- A commit without content takes the cursor away. -/
theorem Conveys.rememberCommit (h : Conveys calm upstream past r acks [] s) (x : ClientSurfaceId)
    (commit : ClientSurfaceCommit) :
    Conveys calm upstream past r acks [] (s.rememberCommit x commit) := by
  have hcache : ∀ y, (s.rememberCommit x commit).cache.lookup y =
      if y = x then some (commitTo commit ((s.cache.lookup x).getD {})) else s.cache.lookup y :=
    fun y => lookup_insert_eq ..
  have hcursor : ∀ y, (s.rememberCommit x commit).cursorOf y =
      if y = x ∧ commit.mapped = false then none else s.cursorOf y := by
    intro y
    rw [cursorOf, cursorOf, hcache]
    obtain rfl | hy := eq_or_ne y x
    · cases hmapped : commit.mapped <;> cases s.cache.lookup y <;> simp [commitTo, hmapped]
    · simp [hy]
  have hsent : ∀ y, (s.rememberCommit x commit).sentCursorOf y =
      if y = x ∧ commit.mapped = false then none else s.sentCursorOf y := by
    intro y
    rw [sentCursorOf, sentCursorOf, hcache]
    obtain rfl | hy := eq_or_ne y x
    · cases hmapped : commit.mapped <;> cases s.cache.lookup y <;> simp [commitTo, hmapped]
    · simp [hy]
  refine ⟨⟨h.alive, h.wellFormed, h.own, h.mapped, h.unmapped, ?_, h.received, h.increasing,
    h.below, h.single, h.inFlight, h.fresh, h.upstream⟩, ?_, ?_⟩
  · intro hf y cursor hy
    rw [hsent] at hy
    split_ifs at hy
    exact h.sent hf y cursor hy
  · intro hf y hy cursor hc
    rw [hcursor] at hc
    rw [hsent]
    split_ifs at hc ⊢ with hgone
    have hoffered := h.offered hf y hy cursor hc
    rw [List.append_nil] at hoffered ⊢
    refine hoffered.imp_right fun hmem => ?_
    simp only [SourceRelayAdapter.rememberCommit]
    split_ifs with hmapped
    · exact hmem
    · refine List.mem_filter.mpr ⟨hmem, bne_iff_ne.mpr fun hyx => hgone ⟨hyx, ?_⟩⟩
      simpa using hmapped
  · intro hidle
    simp only [SourceRelayAdapter.rememberCommit]
    rw [h.idle hidle, List.filter_nil, ite_self]

theorem Conveys.observeCommit (x : ClientSurfaceId) (commit : ClientSurfaceCommit) :
    Conveys calm upstream past r acks [] (s.observeCommit env x commit) := by
  have hknown := h.rememberCommit x commit
  unfold SourceRelayAdapter.observeCommit
  split_ifs
  · exact h
  · split
    · rename_i session hsession
      exact hknown.sendSurface henv hsession ⟨nofun, nofun⟩
    · exact hknown.admitSurface henv x

theorem Conveys.observe (event : ClientSurfaceEvent) :
    Conveys calm upstream past r acks [] (s.observe env event) := by
  have hc := h.checkAccess henv
  simp only [SourceRelayAdapter.observe]
  split_ifs
  · exact hc
  · obtain ⟨x, kind⟩ := event
    cases kind with
    | metadata metadata => exact hc.observeMetadata henv x metadata
    | role role => exact hc.observeRole henv x role
    | commit commit => exact hc.observeCommit henv x commit
    | interaction | stateRequest =>
        simp only []
        split
        · rename_i session hsession
          exact hc.sendSurface henv hsession (by simp)
        · exact hc
    | destroyed => exact hc.observeDestroyed henv x

omit h in
omit henv in
/-- A new cursor is late. -/
theorem Conveys.rememberCursor (h : Conveys calm upstream past r acks [] s) (x : ClientSurfaceId)
    (cursor : ClientCursor) : Conveys calm upstream past r acks [x]
      (s.remember x fun cached => { cached with cursor := some cursor }) := by
  have hcursor : ∀ y, y ≠ x → (s.remember x fun cached =>
      { cached with cursor := some cursor }).cursorOf y = s.cursorOf y := by
    intro y hy
    rw [cursorOf, cursorOf, remember, lookup_insert_ne hy]
  have hsent : ∀ y, (s.remember x fun cached =>
      { cached with cursor := some cursor }).sentCursorOf y = s.sentCursorOf y := by
    intro y
    rw [sentCursorOf, sentCursorOf, remember, lookup_insert_eq]
    split_ifs with hy
    · rw [hy]
      cases s.cache.lookup x <;> rfl
    · rfl
  refine ⟨⟨h.alive, h.wellFormed, h.own, h.mapped, h.unmapped, ?_, h.received, h.increasing,
    h.below, h.single, h.inFlight, h.fresh, h.upstream⟩, ?_, h.idle⟩
  · intro hf y c hy
    rw [hsent] at hy
    exact h.sent hf y c hy
  · intro hf y hy c hc
    by_cases hyx : y = x
    · exact Or.inr (List.mem_append_right _ (List.mem_singleton.mpr hyx))
    · rw [hcursor y hyx] at hc
      rw [hsent]
      have hoffered := h.offered hf y hy c hc
      rw [List.append_nil] at hoffered
      exact hoffered.imp_right fun hmem => List.mem_append_left _ hmem

theorem Conveys.observeCursorUpdate (update : ClientCursorUpdate) :
    Conveys calm upstream past r acks [] (s.observeCursorUpdate env update) := by
  have hc := h.checkAccess henv
  simp only [SourceRelayAdapter.observeCursorUpdate]
  split_ifs
  · exact hc
  · exact hc.same (samePort_remember _ _ fun _ => ⟨rfl, rfl⟩)
  · exact queueCursor henv (hc.rememberCursor _ _)

theorem Conveys.observeRetiredBuffer (buffer : ClientBufferId) :
    Conveys calm upstream past r acks [] (s.observeRetiredBuffer env buffer) := by
  have hc := h.checkAccess henv
  simp only [SourceRelayAdapter.observeRetiredBuffer]
  split_ifs
  · exact hc.submit henv (quiet_of_record_none _ rfl)
  · exact hc

omit h

/-! ### Accepting messages -/

omit henv in
/-- The message is not for a surface that is mapped under another session by now. -/
def Current (s : SourceRelayAdapter) (envelope : DestinationEnvelope) : Prop :=
  ∀ x session, s.messageTarget envelope.message = some x → s.mappings.lookup x = some session →
    session = envelope.session

omit henv in
/-- The message works no gamepad, and asks for the focus of the source it is sent to. -/
def Polite (upstream : ClientSourceId) (envelope : DestinationEnvelope) : Prop :=
  (∀ request, envelope.message ≠ .gamepad request) ∧
    ∀ focus, envelope.message = .request (.focus focus) → focus.source = upstream

theorem Conveys.expireGamepad (h : Conveys calm upstream past r acks late s) (now : Instant) :
    Conveys calm upstream past r acks late (s.expireGamepad env now) := by
  refine gamepadStatus henv ?_ _
  exact same (s := s) ⟨rfl, rfl, rfl, rfl, rfl, fun _ => rfl, fun _ => rfl, rfl, rfl, rfl⟩ h

theorem Conveys.acceptGamepad (h : Conveys calm upstream past r acks late s) (hcalm : ¬ calm)
    (session : HoistSessionId) (request : GamepadRequest) :
    Conveys calm upstream past r acks late (s.acceptGamepad env session request).1 := by
  have htick := same (tick s) h
  have hexpired := htick.expireGamepad henv (env.now s.tick.calls)
  simp only [SourceRelayAdapter.acceptGamepad]
  split_ifs
  · exact htick.fail hcalm _
  · exact hexpired
  · refine gamepadStatus henv ?_ _
    exact same (s := s.tick.expireGamepad env (env.now s.tick.calls))
      ⟨rfl, rfl, rfl, rfl, rfl, fun _ => rfl, fun _ => rfl, rfl, rfl, rfl⟩ hexpired

omit henv in
/-- Acknowledgements to a relay that has failed are lost. -/
theorem Conveys.lost {more : List CursorInFlight} (h : Conveys calm upstream past r acks late s)
    (hfailed : s.failed = true) (hsub : more.Sublist acks) :
    Conveys calm upstream past r more late s := by
  have hdead : s.failed ≠ false := by
    rw [hfailed]
    decide
  refine ⟨⟨h.alive, h.wellFormed, h.own, h.mapped, h.unmapped, h.sent, h.received, h.increasing,
    h.below, ?_, fun hf => absurd hf hdead, h.fresh, h.upstream⟩, h.offered, h.idle⟩
  exact (hsub.append_right _).length_le.trans h.single

/-- The acknowledgement of the cursor in flight lets the next one go. -/
theorem Conveys.acceptCursorReceived
    (h : Conveys calm upstream past r (⟨session, x, sequence⟩ :: acks) [] s)
    (halive : s.failed = false) :
    Conveys calm upstream past r acks [] (s.acceptCursorReceived env session x sequence).1 := by
  have hflight := h.inFlight halive
  cases hactive : s.cursorInFlight with
  | none =>
      rw [hactive] at hflight
      cases hflight
  | some active =>
      rw [hactive, List.cons_append, Option.toList_some] at hflight
      obtain ⟨rfl, hnone⟩ := List.cons_eq_cons.mp hflight
      simp only [SourceRelayAdapter.acceptCursorReceived, hactive, lt_irrefl, if_false, ne_eq,
        not_true_eq_false]
      refine Streams.sendNextCursor henv ?_ halive ?_
      · refine ⟨h.alive, h.wellFormed, h.own, h.mapped, h.unmapped, h.sent, h.received,
          h.increasing, h.below, ?_, fun _ => hnone, h.fresh, h.upstream⟩
        change (acks ++ cursorUpdates (s.stream.drop r)).length ≤ 1
        rw [hnone]
        exact Nat.zero_le 1
      · intro hf y hy cursor hcursor
        have hoffered := h.offered hf y hy cursor hcursor
        rw [List.append_nil] at hoffered
        exact hoffered

theorem Conveys.ignoreUnmapped (h : Conveys calm upstream past r acks late s)
    (envelope : DestinationEnvelope) :
    Conveys calm upstream past r acks late (s.ignoreUnmapped env envelope).1 := by
  unfold SourceRelayAdapter.ignoreUnmapped
  split_ifs
  · exact h.submit henv (quiet_of_record_none s rfl)
  · exact h

theorem Conveys.deliver (h : Conveys calm upstream past r acks late s)
    (message : DestinationMessage) :
    Conveys calm upstream past r acks late (s.deliver env message).1 := by
  have htick := same (tick s) h
  have hrecorded : ∀ ledger effects, Conveys calm upstream past r acks late
      ({ s.tick with remoteInput := ledger, effects := effects } : SourceRelayAdapter) :=
    fun _ _ => same (s := s.tick)
      ⟨rfl, rfl, rfl, rfl, rfl, fun _ => rfl, fun _ => rfl, rfl, rfl, rfl⟩ htick
  simp only [SourceRelayAdapter.deliver]
  split_ifs
  · exact h
  · rw [henv.accept]
    simp only [applyAccepted]
    split
    · exact htick
    · exact htick.setPresentation henv _ _
    · exact hrecorded _ _
    · exact hrecorded _ _
    · exact htick
    · exact htick
    · exact htick
    · exact htick

theorem Conveys.route (h : Conveys calm upstream past r acks late s)
    (envelope : DestinationEnvelope)
    (htarget : s.messageTarget envelope.message = some x) (hcurrent : calm → Current s envelope) :
    Conveys calm upstream past r acks late (s.route env envelope x).1 := by
  unfold SourceRelayAdapter.route
  split
  · exact h.ignoreUnmapped henv envelope
  · rename_i session hsession
    split_ifs with hsame
    · exact h.deliver henv envelope.message
    · exact h.fail (fun hcalm => hsame (hcurrent hcalm x session htarget hsession)) _

theorem Conveys.acceptLive
    (h : Conveys calm upstream past r (envelope.acknowledged.toList ++ acks) [] s)
    (halive : s.failed = false) (hpolite : calm → Polite upstream envelope)
    (hcurrent : calm → Current s envelope) :
    Conveys calm upstream past r acks [] (s.acceptLive env envelope).1 := by
  obtain ⟨session, message⟩ := envelope
  have hrouted : ∀ {x}, s.messageTarget message = some x →
      DestinationEnvelope.acknowledged ⟨session, message⟩ = none →
      Conveys calm upstream past r acks [] (s.route env ⟨session, message⟩ x).1 := by
    intro x htarget hnone
    rw [hnone] at h
    exact route henv h _ htarget hcurrent
  cases message with
  | gamepad request =>
      refine acceptGamepad henv h ?_ session request
      exact fun hcalm => (hpolite hcalm).1 request rfl
  | cursorReceived x sequence => exact acceptCursorReceived henv h halive
  | bufferReleased | reclaim => exact deliver henv h _
  | input input => exact hrouted rfl rfl
  | request request =>
      cases request with
      | clearFocus => exact deliver henv h _
      | surface request => exact hrouted rfl rfl
      | focus focus =>
          simp only [SourceRelayAdapter.acceptLive]
          split_ifs with hforeign
          · refine fail h (fun hcalm => hforeign ?_) _
            rw [h.upstream]
            exact (hpolite hcalm).2 focus rfl
          · split
            · exact h
            · rename_i x htarget
              exact hrouted htarget rfl

omit henv in
theorem failed_of_deliver {message : DestinationMessage} (h : (s.deliver env message).2 = false) :
    (s.deliver env message).1.failed = true := by
  simp only [SourceRelayAdapter.deliver] at h ⊢
  split_ifs at h ⊢
  split at h
  · exact failed_fail _ _
  · cases h

omit henv in
theorem failed_of_route
    (h : (s.route env envelope x).2 = false) : (s.route env envelope x).1.failed = true := by
  unfold SourceRelayAdapter.route at h ⊢
  split at h
  · unfold SourceRelayAdapter.ignoreUnmapped at h ⊢
    split_ifs at h ⊢
    unfold SourceRelayAdapter.submit at h ⊢
    split at h
    · cases h
    · exact failed_fail _ _
  · split_ifs at h ⊢
    · exact failed_of_deliver h
    · exact failed_fail _ _

omit henv in
/-- Only a relay that has failed refuses a message. -/
theorem failed_of_refused (h : (s.acceptDestination env envelope).2 = false) :
    (s.acceptDestination env envelope).1.failed = true := by
  simp only [SourceRelayAdapter.acceptDestination] at h ⊢
  split_ifs at h ⊢ with hlive
  · obtain ⟨session, message⟩ := envelope
    cases message with
    | gamepad request =>
        simp only [SourceRelayAdapter.acceptLive, SourceRelayAdapter.acceptGamepad] at h ⊢
        split_ifs at h ⊢ with _ hfailed
        · exact failed_fail _ _
        · exact hfailed
        · simpa using h
    | cursorReceived x sequence =>
        simp only [SourceRelayAdapter.acceptLive, SourceRelayAdapter.acceptCursorReceived] at h ⊢
        split at h
        · split_ifs at h ⊢
          exact failed_fail _ _
        · split_ifs at h ⊢
          · exact failed_fail _ _
          · simpa using h
    | bufferReleased | reclaim => exact failed_of_deliver h
    | input input => exact failed_of_route h
    | request request =>
        cases request with
        | clearFocus => exact failed_of_deliver h
        | surface request => exact failed_of_route h
        | focus focus =>
            simp only [SourceRelayAdapter.acceptLive] at h ⊢
            split_ifs at h ⊢
            · exact failed_fail _ _
            · split at h
              · cases h
              · exact failed_of_route h
  · exact failed_of_not_live (by simpa using hlive)

theorem Conveys.acceptDestination
    (h : Conveys calm upstream past r (envelope.acknowledged.toList ++ acks) [] s)
    (hpolite : calm → Polite upstream envelope)
    (hcurrent : calm → Current (s.checkAccess env).1 envelope) :
    Conveys calm upstream past r acks [] (s.acceptDestination env envelope).1 := by
  have hc := h.checkAccess henv
  simp only [SourceRelayAdapter.acceptDestination]
  split_ifs with hlive
  · obtain ⟨halive, heq⟩ := checkAccess_live hlive
    refine hc.acceptLive henv ?_ hpolite hcurrent
    rw [heq]
    exact halive
  · exact hc.lost (failed_of_not_live (by simpa using hlive)) (List.sublist_append_right _ _)

/-- A batch is accepted to its end, unless the relay fails. -/
theorem Conveys.acceptAll
    (h : Conveys calm upstream past r (acknowledgements envelopes ++ acks) [] s)
    (hpolite : calm → ∀ envelope ∈ envelopes, Polite upstream envelope)
    (hcurrent : calm → Along env Current s envelopes) :
    Conveys calm upstream past r acks [] (s.acceptAll env envelopes) := by
  induction envelopes generalizing s with
  | nil => exact h
  | cons envelope envelopes ih =>
      have hacks : acknowledgements (envelope :: envelopes) ++ acks =
          envelope.acknowledged.toList ++ (acknowledgements envelopes ++ acks) := by
        rw [acknowledgements, List.filterMap_cons]
        cases envelope.acknowledged <;> rfl
      rw [hacks] at h
      have haccepted := h.acceptDestination henv
        (fun hcalm => hpolite hcalm envelope List.mem_cons_self) (fun hcalm => (hcurrent hcalm).1)
      simp only [SourceRelayAdapter.acceptAll]
      split_ifs with hgoing
      · refine ih haccepted (fun hcalm other hother => ?_) fun hcalm => (hcurrent hcalm).2 hgoing
        exact hpolite hcalm other (List.mem_cons_of_mem _ hother)
      · refine haccepted.lost (failed_of_refused ?_) (List.sublist_append_right _ _)
        simpa using hgoing

/-! ### Every call -/

theorem Conveys.beginPoll (h : Conveys calm upstream past r acks late s) :
    Conveys calm upstream past r acks late (s.beginPoll env) := by
  have hc := h.checkAccess henv
  simp only [SourceRelayAdapter.beginPoll]
  split_ifs
  · exact hc.expireGamepad henv _
  · exact hc

theorem Conveys.prepareBatch (h : Conveys calm upstream past r acks [] s) :
    Conveys calm upstream past r acks [] (s.prepareBatch env) := by
  have hstart : Conveys calm upstream past r acks [] (s.startInput env) := by
    unfold SourceRelayAdapter.startInput
    split_ifs
    · refine gamepadStatus henv ?_ _
      refine same (s := s) ?_ h
      unfold connectInput
      split_ifs <;> exact ⟨rfl, rfl, rfl, rfl, rfl, fun _ => rfl, fun _ => rfl, rfl, rfl, rfl⟩
    · exact same (tick s) h
  simp only [SourceRelayAdapter.prepareBatch, SourceRelayAdapter.startAdmission]
  split_ifs
  · exact hstart
  · exact hstart
  · refine Cascade.foldl_invariant (P := Conveys calm upstream past r acks [])
      (fun t x _ ht => ht.admitSurface henv x) ?_
    exact same (s := s.startInput env)
      ⟨rfl, rfl, rfl, rfl, rfl, fun _ => rfl, fun _ => rfl, rfl, rfl, rfl⟩ hstart
  · exact same (tick _) hstart

theorem Conveys.finishPoll (h : Conveys calm upstream past r acks late s) :
    Conveys calm upstream past r acks late (s.finishPoll env) := by
  have hc := h.checkAccess henv
  simp only [SourceRelayAdapter.finishPoll]
  split_ifs
  · rw [henv.progress]
    exact same (tick _) hc
  · exact hc

/-- A service of the port takes the acknowledgements of its batch. -/
theorem Conveys.poll (h : Conveys calm upstream past r (acknowledgements envelopes ++ acks) [] s)
    (hpolite : calm → ∀ envelope ∈ envelopes, Polite upstream envelope)
    (hcurrent : calm → Along env Current ((s.beginPoll env).prepareBatch env) envelopes) :
    Conveys calm upstream past r acks [] (s.poll env (.ok envelopes)) := by
  have hbegin := h.beginPoll henv
  simp only [SourceRelayAdapter.poll]
  split_ifs with hfailed
  · exact hbegin.lost hfailed (List.sublist_append_right _ _)
  · exact ((hbegin.prepareBatch henv).acceptAll henv hpolite hcurrent).finishPoll henv

omit henv in
/-- The questions of a call are counted anew. -/
theorem SamePort.restart (s : SourceRelayAdapter) : SamePort s { s with calls := 0 } :=
  ⟨rfl, rfl, rfl, rfl, rfl, fun _ => rfl, fun _ => rfl, rfl, rfl, rfl⟩

/-- **Every call keeps the invariant**; the services of the port are above. -/
theorem Conveys.step (h : Conveys calm upstream past r acks [] s) {call : SourceCall}
    (haccess : call ≠ .installAccess) (hpoll : ∀ polled, call ≠ .poll polled) :
    Conveys calm upstream past r acks [] (s.step env call) := by
  have h0 := same (restart s) h
  cases call with
  | installAccess => exact absurd rfl haccess
  | map session x =>
      simp only [SourceRelayAdapter.step, command]
      split_ifs
      · exact h0
      · exact h0.map henv session x
  | unmap x =>
      simp only [SourceRelayAdapter.step, command]
      split_ifs
      · exact h0
      · exact h0.unmap henv x
  | observe event => exact h0.observe henv event
  | observeCursorUpdate update => exact h0.observeCursorUpdate henv update
  | observeRetiredBuffer buffer => exact h0.observeRetiredBuffer henv buffer
  | releaseInput owns => exact same (samePort_releaseInput env _ owns) h0
  | poll polled => exact absurd rfl (hpoll polled)
  | drainPresentationClaims | drainEffects =>
      exact same (s := (({ s with calls := 0 } : SourceRelayAdapter).checkAccess env).1)
        ⟨rfl, rfl, rfl, rfl, rfl, fun _ => rfl, fun _ => rfl, rfl, rfl, rfl⟩ (h0.checkAccess henv)

end Invariant

end Hoist
