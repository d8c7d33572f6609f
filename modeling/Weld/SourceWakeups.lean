/-
**Wake-ups and debts of an encoded source.**

A surface whose cadence does not allow a frame yet waits until somebody asks the scheduler again.
The port is told when: `nextDeadline` is a time at which something can be admitted.  So after every
call of the scheduler that leaves records in the queues, each of them waits for the end of a resize,
for a claim, or for a time no earlier than the deadline announced.

That a surface is never held for longer than one interval is a matter of its deadline.  Commits that
ignore the cadence move it on all the same, and a pause sets it anew at the rate of unclaimed
surfaces: a run in which every batch starts on time and no such pause occurs keeps all surfaces
prompt.

Main definitions: `EncodedSourceState.Orderly`, `SourceRun`, `SourceRunCall`,
`EncodedSourceState.OnTime`.

Main results:

* `EncodedSourceState.covered_of_settled` — nothing waits unannounced;
* `EncodedSourceState.scheduleAt_admits` — at the announced time something is admitted;
* `wakeups_and_debts` — both for all runs, and the surfaces prompt in those on time.
-/

import Weld.EncodedSource
import Weld.SchedulingFairness

namespace Encoded

open Client Gamepad Hoist Transition Transition AList

namespace EncodedSourceState

/-! ### Counting records -/

variable {s t : EncodedSourceState} {surface : ClientSurfaceId}
  {record : PendingEvent HoistSessionId} {event : ClientSurfaceEvent} {session : HoistSessionId}
  {env : SourceBackend} {n : ℕ} {now deadline : Instant}

/-- The records of all queues are those of one surface and those of the others. -/
theorem pendingCount_of_lookup
    {queue : PendingClientEvents HoistSessionId} (h : s.pending.lookup surface = some queue) :
    s.pendingCount = queue.events.length +
      ({ s with pending := s.pending.erase surface } : EncodedSourceState).pendingCount :=
  total_of_lookup h fun _ queue => queue.events.length

theorem pendingCount_insert (s : EncodedSourceState) (surface : ClientSurfaceId)
    (queue : PendingClientEvents HoistSessionId) :
    ({ s with pending := s.pending.insert surface queue } : EncodedSourceState).pendingCount =
      queue.events.length +
        ({ s with pending := s.pending.erase surface } : EncodedSourceState).pendingCount :=
  total_insert s.pending surface queue fun _ queue => queue.events.length

variable {rest : List (PendingEvent HoistSessionId)} {selection : Selection}

/-- **A turn takes one record.** -/
theorem pendingCount_popped (h : s.pending.lookup surface = some ⟨record :: rest⟩) :
    (s.popped surface rest).pendingCount + 1 = s.pendingCount := by
  have hall := pendingCount_of_lookup h
  rw [List.length_cons] at hall
  unfold popped
  cases rest with
  | nil =>
      rw [List.length_nil] at hall
      simp only [List.isEmpty_nil, if_true]
      change ({ s with pending := s.pending.erase surface } : EncodedSourceState).pendingCount + 1
        = s.pendingCount
      omega
  | cons next rest =>
      have hinsert := s.pendingCount_insert surface ⟨next :: rest⟩
      rw [show (⟨next :: rest⟩ : PendingClientEvents HoistSessionId).events = next :: rest from rfl]
        at hinsert
      simp only [List.isEmpty_cons, Bool.false_eq_true, if_false]
      change ({ s with pending := s.pending.insert surface ⟨next :: rest⟩ } :
        EncodedSourceState).pendingCount + 1 = s.pendingCount
      omega

/-! ### The queues fit together -/

/-- The order lists the surfaces with queues, no queue is empty, and all are registered. -/
structure Orderly (s : EncodedSourceState) : Prop where
  listed : ∀ surface, surface ∈ s.pendingOrder ↔ surface ∈ s.pending
  nonempty : ∀ surface queue, s.pending.lookup surface = some queue → queue.events ≠ []
  registered : ∀ surface, surface ∈ s.pending → surface ∈ s.activity.surfaces

theorem Orderly.congr (h : s.Orderly) (hpending : t.pending = s.pending)
    (horder : t.pendingOrder = s.pendingOrder)
    (hactivity : ∀ surface, surface ∈ s.activity.surfaces → surface ∈ t.activity.surfaces) :
    t.Orderly where
  listed := by
    rw [hpending, horder]
    exact h.listed
  nonempty := by
    rw [hpending]
    exact h.nonempty
  registered surface hmem := by
    rw [hpending] at hmem
    exact hactivity surface (h.registered surface hmem)

theorem mem_of_front (h : s.front surface = some event) : surface ∈ s.pending := by
  obtain ⟨record, hrecord, -⟩ := Option.map_eq_some_iff.mp h
  obtain ⟨queue, hqueue, -⟩ := Option.bind_eq_some_iff.mp hrecord
  exact mem_of_lookup hqueue

theorem Orderly.discarded (h : s.Orderly) (surface : ClientSurfaceId) :
    (s.discarded surface).Orderly where
  listed other := by
    simp only [EncodedSourceState.discarded, List.mem_filter, bne_iff_ne, mem_erase, h.listed other]
    exact and_comm
  nonempty other queue hqueue := by
    simp only [EncodedSourceState.discarded, lookup_erase_eq] at hqueue
    split_ifs at hqueue
    exact h.nonempty other queue hqueue
  registered other hmem := h.registered other (mem_erase.mp hmem).2

theorem Orderly.popped (h : s.Orderly) (hmem : surface ∈ s.pending)
    (rest : List (PendingEvent HoistSessionId)) : (s.popped surface rest).Orderly := by
  unfold EncodedSourceState.popped
  split_ifs with hrest
  · exact (h.discarded surface).congr rfl rfl fun _ => id
  · refine ⟨fun other => ?_, fun other queue hqueue => ?_, fun other hother => ?_⟩
    · simp only [List.mem_append, List.mem_filter, bne_iff_ne, List.mem_singleton,
        mem_insert, h.listed other]
      by_cases hsame : other = surface <;> simp [hsame, hmem]
    · simp only [lookup_insert_eq] at hqueue
      split_ifs at hqueue with hsame
      · cases hqueue
        intro hnil
        exact hrest (by rw [show rest = [] from hnil]; rfl)
      · exact h.nonempty other queue hqueue
    · rw [mem_insert] at hother
      rcases hother with rfl | hother
      · exact h.registered other hmem
      · exact h.registered other hother

theorem insert_ne_nil (q : PendingClientEvents HoistSessionId) (session : HoistSessionId)
    (event : ClientSurfaceEvent) (insertion : Insertion) :
    (q.insert session event insertion).events ≠ [] := by
  unfold PendingClientEvents.insert
  split
  · rename_i index previous hfound
    split_ifs
    · obtain ⟨i, -, hprevious⟩ := Option.bind_eq_some_iff.mp hfound
      obtain ⟨record, hrecord, heq⟩ := Option.map_eq_some_iff.mp hprevious
      have hlt := (List.getElem?_eq_some_iff.mp hrecord).1
      intro hnil
      have hlength := congrArg List.length hnil
      simp only [List.length_set, List.length_nil] at hlength
      omega
    · simp
  · simp

/-- **What queueing a record does.** -/
theorem queueEvent_ok (h : s.queueEvent session event = .ok t) :
    ∃ queue : PendingClientEvents HoistSessionId, queue.events ≠ [] ∧
      t = { s with
        pending := s.pending.insert event.surface queue
        pendingOrder :=
          if event.surface ∈ s.pending then s.pendingOrder
          else s.pendingOrder ++ [event.surface] } := by
  unfold queueEvent PendingClientEvents.tryPush at h
  dsimp only at h
  split at h
  · cases h
  · rename_i queue outcome hpush
    cases h
    split_ifs at hpush
    · cases hpush
    · refine ⟨queue, ?_, rfl⟩
      rw [← (Prod.mk.inj hpush).1]
      exact insert_ne_nil _ _ _ _

theorem Orderly.queueEvent (h : s.Orderly) (hregistered : event.surface ∈ s.activity.surfaces)
    (hok : s.queueEvent session event = .ok t) : t.Orderly := by
  obtain ⟨queue, hqueue, rfl⟩ := queueEvent_ok hok
  refine ⟨fun other => ?_, fun other found hfound => ?_, fun other hother => ?_⟩
  · rw [mem_insert]
    by_cases hmem : event.surface ∈ s.pending
    · simp only [hmem, if_true, h.listed other]
      exact ⟨Or.inr, fun hor => hor.elim (fun heq => heq ▸ hmem) id⟩
    · simp only [hmem, if_false, List.mem_append, List.mem_singleton, h.listed other]
      exact or_comm
  · simp only [lookup_insert_eq] at hfound
    split_ifs at hfound
    · cases hfound
      exact hqueue
    · exact h.nonempty other found hfound
  · rw [mem_insert] at hother
    rcases hother with rfl | hother
    · exact hregistered
    · exact h.registered other hother

/-! ### What sending and submitting do -/

/-- The state after a record without buffers is sent. -/
def sent (s : EncodedSourceState) (session : HoistSessionId) (event : ClientSurfaceEvent) :
    EncodedSourceState :=
  { s with output := s.output ++ [.control session event] }

/-- The state after the first frame of a commit is submitted. -/
def submitted (s : EncodedSourceState) (session : HoistSessionId) (event : ClientSurfaceEvent)
    (now : Instant) : EncodedSourceState :=
  { s with
    inFlight := some
      { session, surface := event.surface, event, pending := replacedBufferCount event - 1 }
    pacing := s.pacing.admitted event.surface now }

theorem sendWithoutBuffer_ok (h : s.sendWithoutBuffer session event = .ok t) :
    t = s.sent session event := by
  unfold sendWithoutBuffer at h
  split_ifs at h
  cases h
  rfl

/-- **A record without buffers is sent, a commit with buffers is submitted.** -/
theorem submitOrSendAt_ok (h : s.submitOrSendAt env n session event now = .ok t) :
    replacedBufferCount event = 0 ∧ t = s.sent session event ∨
      0 < replacedBufferCount event ∧ t = s.submitted session event now := by
  unfold submitOrSendAt at h
  split_ifs at h with hmany hnone
  · obtain ⟨-, -, h⟩ := bind_eq_ok.mp h
    exact Or.inl ⟨hnone, sendWithoutBuffer_ok h⟩
  · obtain ⟨-, -, h⟩ := bind_eq_ok.mp h
    obtain ⟨u, hu, rfl⟩ := map_eq_ok.mp h
    obtain ⟨-, -, rfl⟩ := map_eq_ok.mp hu
    exact Or.inr ⟨Nat.pos_of_ne_zero hnone, rfl⟩

/-- An encoder that refuses nothing takes every commit within the limit. -/
theorem exists_submitOrSendAt (n : ℕ) (session : HoistSessionId) (now : Instant)
    (henv : ∀ n, env.refuses n = none)
    (hlimit : replacedBufferCount event ≤ maxReplacementsPerCommit) :
    ∃ t, s.submitOrSendAt env n session event now = .ok t := by
  have huse : ∀ n, use env n = .ok () := fun n => by rw [use, henv n]
  rw [submitOrSendAt, if_neg (by omega), huse]
  simp only [Except.bind]
  split_ifs with hnone
  · exact ⟨_, by rw [sendWithoutBuffer, if_neg (by omega)]⟩
  · exact ⟨_, by rw [submitBatch, huse]; rfl⟩

@[simp] theorem pendingCount_sent (s : EncodedSourceState) (session : HoistSessionId)
    (event : ClientSurfaceEvent) : (s.sent session event).pendingCount = s.pendingCount := rfl

/-! ### Turns -/

theorem turn_some {u : EncodedSourceState} (h : s.turn now = some (selection, record, u)) :
    ∃ rest, s.pending.lookup selection.surface = some ⟨record :: rest⟩ ∧
      u = ({ s with scheduler := (s.selected now).1 } : EncodedSourceState).popped
        selection.surface rest := by
  unfold turn at h
  split at h
  · cases h
  · split at h
    · cases h
    · cases h
    · rename_i hlookup
      cases h
      exact ⟨_, hlookup, rfl⟩

/-- **Somebody who need not wait gets a turn.** -/
theorem exists_turn (h : s.Orderly) (hcandidate : surface ∈ s.candidates)
    (hwaits : s.waits now surface = false) :
    ∃ selection record u, s.turn now = some (selection, record, u) := by
  have hgroup : (s.activity.group surface).isSome = true := by
    rw [Activity.group_isSome]
    exact h.registered surface ((h.listed surface).mp (List.mem_filter.mp hcandidate).1)
  have hselect := s.scheduler.select_isSome s.policy now hcandidate
    (by simp [hwaits] : surface ∉ s.candidates.filter (s.waits now)) hgroup
  obtain ⟨selection, hselection⟩ := Option.isSome_iff_exists.mp hselect
  have hmem := List.mem_filter.mp (Scheduler.select_mem hselection).1
  obtain ⟨⟨events⟩, hqueue⟩ := Option.isSome_iff_exists.mp
    (lookup_isSome.mpr ((h.listed _).mp hmem.1))
  cases events with
  | nil => exact absurd rfl (h.nonempty _ _ hqueue)
  | cons record rest =>
      refine ⟨selection, record, ({ s with scheduler := (s.selected now).1 } :
        EncodedSourceState).popped selection.surface rest, ?_⟩
      have hselected : (s.selected now).2 = some selection := hselection
      rw [turn, hselected]
      simp only [hqueue]

/-- Every surface that could have a turn waits for its cadence. -/
def Settled (s : EncodedSourceState) (now : Instant) : Prop :=
  ∀ surface ∈ s.candidates, s.waits now surface = true

theorem settled_of_turn_none (h : s.Orderly) (hturn : s.turn now = none) : s.Settled now := by
  intro surface hcandidate
  by_contra hwaits
  obtain ⟨selection, record, u, hu⟩ := exists_turn h hcandidate (by simpa using hwaits)
  rw [hturn] at hu
  cases hu

/-- Without records there is nobody to wait. -/
theorem settled_of_pendingCount (h : s.Orderly) (now : Instant)
    (hcount : s.pendingCount = 0) : s.Settled now := by
  intro surface hcandidate
  have hmem := (h.listed surface).mp (List.mem_filter.mp hcandidate).1
  obtain ⟨queue, hqueue⟩ := exists_lookup hmem
  have hall := pendingCount_of_lookup hqueue
  have hpos := List.length_pos_of_ne_nil (h.nonempty surface queue hqueue)
  omega

/-- What a turn leaves. -/
theorem Orderly.turn {u : EncodedSourceState} (h : s.Orderly)
    (hturn : s.turn now = some (selection, record, u)) :
    u.Orderly ∧ u.pendingCount + 1 = s.pendingCount ∧ u.pacing = s.pacing ∧
      u.inFlight = s.inFlight ∧ u.output = s.output ∧ u.admissionDeferred = s.admissionDeferred ∧
      u.transportBlocked = s.transportBlocked := by
  obtain ⟨rest, hlookup, rfl⟩ := turn_some hturn
  have hmem : selection.surface ∈ s.pending := mem_of_lookup hlookup
  have hscheduled : ({ s with scheduler := (s.selected now).1 } : EncodedSourceState).Orderly :=
    h.congr rfl rfl fun _ => id
  refine ⟨hscheduled.popped hmem rest,
    pendingCount_popped (s := { s with scheduler := (s.selected now).1 }) hlookup, ?_⟩
  unfold EncodedSourceState.popped
  split_ifs <;> exact ⟨rfl, rfl, rfl, rfl, rfl⟩

/-! ### Calls of the scheduler -/

/-- What a call of the scheduler that was not closed leaves: either it started the batch of the
surface in `next`, or nobody else could have a turn. -/
structure Ran (now : Instant) (next : Option ClientSurfaceId) (s t : EncodedSourceState) : Prop where
  orderly : t.Orderly
  fewer : t.pendingCount ≤ s.pendingCount
  output : s.output <+: t.output
  outcome : t.inFlight = none ∧ next = none ∧ t.pacing = s.pacing ∧ t.Settled now ∨
    ∃ batch, t.inFlight = some batch ∧ next = some batch.surface ∧
      t.pacing = s.pacing.admitted batch.surface now

theorem ran_of_settled (h : s.Orderly) (hidle : s.inFlight = none) (hsettled : s.Settled now) :
    Ran now none s { s with scheduler := (s.selected now).1 } where
  orderly := h.congr rfl rfl fun _ => id
  fewer := le_rfl
  output := List.prefix_rfl
  outcome := Or.inl ⟨hidle, rfl, rfl, hsettled⟩

/-- **What a call of the scheduler does**, by induction on its turns. -/
theorem scheduleLoop_ok {fuel : ℕ} (h : s.Orderly) (hidle : s.inFlight = none)
    (hfuel : s.pendingCount ≤ fuel) (hok : scheduleLoop env now fuel n s = .ok t) :
    Ran now (nextBatchAfter now fuel s) s t := by
  induction fuel generalizing n s with
  | zero =>
      cases hok
      exact ran_of_settled h hidle (settled_of_pendingCount h now (by omega))
  | succ fuel ih =>
      rw [scheduleLoop] at hok
      rw [nextBatchAfter]
      cases hturn : s.turn now with
      | none =>
          rw [hturn] at hok
          cases hok
          exact ran_of_settled h hidle (settled_of_turn_none h hturn)
      | some taken =>
          obtain ⟨selection, record, u⟩ := taken
          rw [hturn] at hok
          obtain ⟨horderly, hcount, hpacing, hinflight, houtput, -, -⟩ := h.turn hturn
          obtain ⟨v, hv, hrest⟩ := bind_eq_ok.mp hok
          rcases submitOrSendAt_ok hv with ⟨hnone, rfl⟩ | ⟨hsome, rfl⟩
          · -- the record was sent, and the next one has its turn
            have hstill : (u.sent record.scope record.event).inFlight = none := by
              rw [← hidle, ← hinflight]
              rfl
            rw [hstill] at hrest
            have hran := ih (n := n + 2) (s := u.sent record.scope record.event)
              (horderly.congr rfl rfl fun _ => id) hstill
              (by rw [pendingCount_sent]; omega) hrest
            simp only [hnone, if_true]
            refine ⟨hran.orderly, ?_, ?_, ?_⟩
            · have hfewer := hran.fewer
              rw [pendingCount_sent] at hfewer
              omega
            · rw [← houtput]
              exact (List.prefix_append _ _).trans hran.output
            · have hsame : (u.sent record.scope record.event).pacing = s.pacing := hpacing
              rw [← hsame]
              exact hran.outcome
          · -- the record starts a batch
            cases hrest
            simp only [Nat.pos_iff_ne_zero.mp hsome, if_false]
            refine ⟨horderly.congr rfl rfl fun _ => id, ?_, ?_, Or.inr ⟨_, rfl, rfl, ?_⟩⟩
            · change u.pendingCount ≤ s.pendingCount
              omega
            · change s.output <+: u.output
              rw [houtput]
            · change u.pacing.admitted record.event.surface now = _
              rw [hpacing]

theorem inFlight_of_open (h : s.closed = false) : s.inFlight = none := by
  cases hbatch : s.inFlight with
  | none => rfl
  | some batch => simp [closed, hbatch] at h

theorem scheduleAt_ok (h : s.Orderly) (hok : s.scheduleAt env now = .ok t) :
    s.closed = true ∧ t = s ∨ s.closed = false ∧ Ran now (s.nextBatch now) s t := by
  unfold scheduleAt at hok
  split_ifs at hok with hclosed
  · cases hok
    exact Or.inl ⟨hclosed, rfl⟩
  · have hopen : s.closed = false := by simpa using hclosed
    rw [nextBatch, hopen]
    exact Or.inr ⟨rfl, scheduleLoop_ok h (inFlight_of_open hopen) le_rfl hok⟩

/-! ### Nothing waits unannounced -/

/-- Whoever waits is being resized, is paused, or is announced in time. -/
def Covered (s : EncodedSourceState) : Prop :=
  ∀ surface event, s.front surface = some event →
    surface ∈ s.resizing ∨ s.pacing.paused surface = true ∨
      ∃ deadline, s.nextDeadline = some deadline ∧
        ∀ time, s.pacing.ready surface time = true → deadline ≤ time

/-- The announced deadline is that of some surface, and no surface has an earlier one. -/
theorem nextDeadline_of_surface (hopen : s.closed = false)
    (h : s.surfaceDeadline surface = some deadline) :
    ∃ least, s.nextDeadline = some least ∧ least ≤ deadline := by
  have hfront : surface ∈ s.pending := by
    obtain ⟨event, hevent, -⟩ := Option.bind_eq_some_iff.mp h
    exact mem_of_front hevent
  have hmem : deadline ∈ s.pending.keys.filterMap s.surfaceDeadline :=
    List.mem_filterMap.mpr ⟨surface, mem_keys.mp hfront, h⟩
  rw [nextDeadline, if_neg (by simp [hopen])]
  cases hmin : (s.pending.keys.filterMap s.surfaceDeadline).min? with
  | none =>
      rw [List.min?_eq_none_iff] at hmin
      rw [hmin] at hmem
      cases hmem
  | some least => exact ⟨least, rfl, (List.min?_eq_some_iff.mp hmin).2 _ hmem⟩

theorem surface_of_nextDeadline (h : s.nextDeadline = some deadline) :
    s.closed = false ∧ ∃ surface, s.surfaceDeadline surface = some deadline := by
  unfold nextDeadline at h
  split_ifs at h with hclosed
  obtain ⟨surface, -, hsurface⟩ := List.mem_filterMap.mp (List.min?_eq_some_iff.mp h).1
  exact ⟨by simpa using hclosed, surface, hsurface⟩

/-- The deadline of a surface that waits for its cadence alone. -/
theorem surfaceDeadline_of_waits (hwaits : s.waits now surface = true)
    (hresizing : surface ∉ s.resizing) (hpaused : s.pacing.paused surface = false) :
    s.surfaceDeadline surface = s.pacing.deadline surface := by
  cases hfront : s.front surface with
  | none => simp [waits, hfront] at hwaits
  | some event =>
      rw [waits, hfront, Option.any_some, Bool.and_eq_true, Bool.and_eq_true] at hwaits
      simp [surfaceDeadline, hfront, hwaits.1.1, hresizing, hpaused]

/-- **After a call of the scheduler nothing waits unannounced.** -/
theorem covered_of_settled (h : s.Orderly) (hopen : s.closed = false)
    (hsettled : s.Settled now) : s.Covered := by
  intro surface event hfront
  by_cases hresizing : surface ∈ s.resizing
  · exact Or.inl hresizing
  cases hpaused : s.pacing.paused surface with
  | true => exact Or.inr (Or.inl rfl)
  | false =>
      have hcandidate : surface ∈ s.candidates :=
        List.mem_filter.mpr ⟨(h.listed surface).mpr (mem_of_front hfront), by
          simp [hfront, hresizing]⟩
      have hwaits := hsettled surface hcandidate
      have hsame := surfaceDeadline_of_waits hwaits hresizing hpaused
      -- it is not ready, and not paused, so it has a deadline
      cases hdeadline : s.pacing.deadline surface with
      | none =>
          simp [waits, hfront, SourcePacing.ready, hpaused, hdeadline] at hwaits
      | some deadline =>
          obtain ⟨least, hleast, hle⟩ := nextDeadline_of_surface hopen (hsame.trans hdeadline)
          refine Or.inr (Or.inr ⟨least, hleast, fun time htime => hle.trans ?_⟩)
          simpa [SourcePacing.ready, hpaused, hdeadline] using htime

/-! ### At the announced time something is admitted -/

/-- A surface whose deadline has come has a turn. -/
theorem exists_turn_of_deadline (h : s.Orderly) (hdeadline : s.nextDeadline = some deadline) :
    s.closed = false ∧ ∃ selection record u, s.turn deadline = some (selection, record, u) := by
  obtain ⟨hopen, surface, hsurface⟩ := surface_of_nextDeadline hdeadline
  refine ⟨hopen, ?_⟩
  obtain ⟨event, hfront, hevent⟩ := Option.bind_eq_some_iff.mp hsurface
  split_ifs at hevent with hskip
  simp only [Bool.or_eq_true, Bool.not_eq_true', decide_eq_true_eq, not_or] at hskip
  have hready : s.pacing.ready surface deadline = true := by
    simp [SourcePacing.ready, hevent, hskip.2]
  have hcandidate : surface ∈ s.candidates :=
    List.mem_filter.mpr ⟨(h.listed surface).mpr (mem_of_front hfront), by simp [hfront, hskip.1.2]⟩
  exact exists_turn h hcandidate (by simp [waits, hfront, hready])

/-- **A call at the announced time admits a record**: it starts a batch or sends something. -/
theorem scheduleAt_admits (h : s.Orderly) (hdeadline : s.nextDeadline = some deadline)
    (hok : s.scheduleAt env deadline = .ok t) :
    t.pendingCount < s.pendingCount ∧ (t.inFlight.isSome = true ∨ t.output ≠ []) := by
  obtain ⟨hopen, selection, record, u, hturn⟩ := exists_turn_of_deadline h hdeadline
  obtain ⟨horderly, hcount, -, hinflight, -, -, -⟩ := h.turn hturn
  rw [scheduleAt, if_neg (by simp [hopen]), ← hcount, scheduleLoop, hturn] at hok
  obtain ⟨v, hv, hrest⟩ := bind_eq_ok.mp hok
  rcases submitOrSendAt_ok hv with ⟨-, rfl⟩ | ⟨-, rfl⟩
  · have hstill : (u.sent record.scope record.event).inFlight = none :=
      hinflight.trans (inFlight_of_open hopen)
    rw [hstill] at hrest
    have hran := scheduleLoop_ok (s := u.sent record.scope record.event)
      (horderly.congr rfl rfl fun _ => id) hstill le_rfl hrest
    refine ⟨?_, Or.inr ?_⟩
    · have hfewer := hran.fewer
      rw [pendingCount_sent] at hfewer
      omega
    · intro hnil
      have hprefix := hran.output
      rw [hnil, List.prefix_nil] at hprefix
      exact absurd hprefix (by simp [sent])
  · cases hrest
    refine ⟨?_, Or.inl rfl⟩
    change u.pendingCount < s.pendingCount
    omega

/-- No queued commit exceeds the limit of a batch. -/
def WithinLimit (s : EncodedSourceState) : Prop :=
  ∀ surface queue, s.pending.lookup surface = some queue →
    ∀ record ∈ queue.events, replacedBufferCount record.event ≤ maxReplacementsPerCommit

theorem WithinLimit.popped (h : s.WithinLimit)
    (hlookup : s.pending.lookup surface = some ⟨record :: rest⟩) :
    (s.popped surface rest).WithinLimit := by
  intro other queue hqueue
  unfold EncodedSourceState.popped at hqueue
  split_ifs at hqueue
  · simp only [lookup_erase_eq] at hqueue
    split_ifs at hqueue
    exact h other queue hqueue
  · simp only [lookup_insert_eq] at hqueue
    split_ifs at hqueue
    · cases hqueue
      intro later hlater
      exact h surface _ hlookup later (List.mem_cons_of_mem _ hlater)
    · exact h other queue hqueue

theorem exists_scheduleLoop (henv : ∀ n, env.refuses n = none) (now : Instant) (fuel n : ℕ)
    (h : s.WithinLimit) : ∃ t, scheduleLoop env now fuel n s = .ok t := by
  induction fuel generalizing n s with
  | zero => exact ⟨_, rfl⟩
  | succ fuel ih =>
      rw [scheduleLoop]
      cases hturn : s.turn now with
      | none => exact ⟨_, rfl⟩
      | some taken =>
          obtain ⟨selection, record, u⟩ := taken
          obtain ⟨rest, hlookup, hu⟩ := turn_some hturn
          obtain ⟨v, hv⟩ := exists_submitOrSendAt (s := u) n record.scope now henv
            (h _ _ hlookup record List.mem_cons_self)
          have hlimit : u.WithinLimit := by
            rw [hu]
            exact WithinLimit.popped (s := { s with scheduler := (s.selected now).1 }) h hlookup
          simp only [hv, Except.bind]
          split_ifs with hbatch
          · exact ⟨_, rfl⟩
          · rcases submitOrSendAt_ok hv with ⟨-, rfl⟩ | ⟨-, rfl⟩
            · exact ih (n + 2) hlimit
            · exact absurd rfl hbatch

/-- An encoder that refuses nothing lets every call of the scheduler succeed. -/
theorem exists_scheduleAt (h : s.WithinLimit)
    (henv : ∀ n, env.refuses n = none) (now : Instant) : ∃ t, s.scheduleAt env now = .ok t := by
  unfold scheduleAt
  split_ifs
  · exact ⟨s, rfl⟩
  · exact exists_scheduleLoop henv now _ 0 h

/-! ### What the other operations do -/

theorem sendControls_ok {records : List (PendingEvent HoistSessionId)}
    (h : s.sendControls records = .ok t) : ∃ output, t = { s with output := output } := by
  induction records generalizing s with
  | nil =>
      cases h
      exact ⟨_, rfl⟩
  | cons record records ih =>
      rw [sendControls] at h
      split_ifs at h
      · exact ih h
      · obtain ⟨u, hu, h⟩ := bind_eq_ok.mp h
        obtain rfl := sendWithoutBuffer_ok hu
        obtain ⟨output, rfl⟩ := ih h
        exact ⟨output, rfl⟩

/-- A full unmap resets the cadence and leaves nothing in the queue. -/
theorem fullUnmap_ok (h : s.fullUnmap env n session event = .ok t) :
    ∃ output, t = { s.discarded event.surface with
      output := output, pacing := s.pacing.reset event.surface } := by
  obtain ⟨u, hu, h⟩ := bind_eq_ok.mp h
  obtain ⟨-, -, rfl⟩ := map_eq_ok.mp hu
  obtain ⟨v, hv, h⟩ := bind_eq_ok.mp h
  obtain ⟨output, rfl⟩ := sendControls_ok hv
  obtain rfl := sendWithoutBuffer_ok h
  exact ⟨_, rfl⟩

/-- The state without a surface. -/
def forgotten (s : EncodedSourceState) (surface : ClientSurfaceId) : EncodedSourceState :=
  ({ s with
      scheduler := s.scheduler.forget s.activity surface
      activity := s.activity.remove surface
      pacing := s.pacing.forget surface } : EncodedSourceState).discarded surface

theorem cancelSurface_ok (h : s.cancelSurface env n surface = .ok t) : t = s.forgotten surface := by
  obtain ⟨-, -, rfl⟩ := map_eq_ok.mp h
  rfl

theorem Orderly.forgotten (h : s.Orderly) (surface : ClientSurfaceId) :
    (s.forgotten surface).Orderly where
  listed := (h.discarded surface).listed
  nonempty := (h.discarded surface).nonempty
  registered other hmem := by
    obtain ⟨hne, hmem⟩ := mem_erase.mp hmem
    exact Activity.mem_remove.mpr ⟨hne, h.registered other hmem⟩

/-- A completion changes the batch and the output alone. -/
theorem drainOne_ok {completion : EncodeCompletion} (h : s.drainOne env n completion = .ok t) :
    ∃ inFlight output, t = { s with inFlight := inFlight, output := output } := by
  unfold drainOne at h
  split at h
  · cases h
  · cases h
  · split_ifs at h
    · obtain ⟨-, -, rfl⟩ := map_eq_ok.mp h
      exact ⟨_, _, rfl⟩
    · split at h
      · cases h
      · dsimp only at h
        split at h
        · obtain ⟨-, -, rfl⟩ := map_eq_ok.mp h
          exact ⟨_, _, rfl⟩
        · cases h
          exact ⟨_, _, rfl⟩

theorem drain_ok {completions : List EncodeCompletion} (h : s.drain env n completions = .ok t) :
    ∃ inFlight output, t = { s with inFlight := inFlight, output := output } := by
  induction completions generalizing n s with
  | nil =>
      cases h
      exact ⟨_, _, rfl⟩
  | cons completion completions ih =>
      obtain ⟨u, hu, h⟩ := bind_eq_ok.mp h
      obtain ⟨inFlight, output, rfl⟩ := drainOne_ok hu
      obtain ⟨inFlight, output, rfl⟩ := ih h
      exact ⟨_, _, rfl⟩

theorem Orderly.announced (h : s.Orderly) (session : HoistSessionId) (event : ClientSurfaceEvent) :
    (s.announced session event).Orderly ∧
      event.surface ∈ (s.announced session event).activity.surfaces := by
  have hkeys : (s.announced session event).activity.surfaces.keys =
      (s.activity.register session event.surface).surfaces.keys := by
    unfold EncodedSourceState.announced
    split <;> simp
  have hmem : ∀ surface : ClientSurfaceId,
      surface ∈ (s.announced session event).activity.surfaces ↔
        surface = event.surface ∨ surface ∈ s.activity.surfaces := by
    intro surface
    rw [mem_keys, hkeys, ← mem_keys, Activity.mem_register]
  exact ⟨h.congr rfl rfl fun surface hsurface => (hmem surface).mpr (Or.inr hsurface),
    (hmem event.surface).mpr (Or.inl rfl)⟩

/-- A commit that starts a batch as soon as it arrives. -/
def startsAtOnce (s : EncodedSourceState) (event : ClientSurfaceEvent) (now : Instant) : Bool :=
  !isFullUnmap event && !s.mustWait event now && decide (0 < replacedBufferCount event)

/-- **What the arrival of a record does to the queues and to the cadences.** -/
theorem enqueue_ok (h : s.Orderly) {later : Instant}
    (hok : s.enqueue env session event now later = .ok t) :
    t.Orderly ∧
      (t.pacing = s.pacing ∨ t.pacing = s.pacing.reset event.surface ∨
        t.pacing = s.pacing.forget event.surface ∨
        s.startsAtOnce event now = true ∧ t.pacing = s.pacing.admitted event.surface later) := by
  obtain ⟨horderly, hregistered⟩ := h.announced session event
  obtain ⟨-, -, hok⟩ := bind_eq_ok.mp hok
  by_cases hunmap : isFullUnmap event = true
  · rw [if_pos hunmap] at hok
    obtain ⟨output, rfl⟩ := fullUnmap_ok hok
    exact ⟨(horderly.discarded event.surface).congr rfl rfl fun _ => id, Or.inr (Or.inl rfl)⟩
  rw [if_neg hunmap] at hok
  split at hok
  · -- a commit
    split_ifs at hok with hwait
    · refine ⟨horderly.queueEvent hregistered hok, Or.inl ?_⟩
      obtain ⟨queue, -, rfl⟩ := queueEvent_ok hok
      rfl
    · have hstart : (s.announced session event).mustWait event now = false := by
        simpa using hwait
      change s.mustWait event now = false at hstart
      rcases submitOrSendAt_ok hok with ⟨-, rfl⟩ | ⟨hsome, rfl⟩
      · exact ⟨horderly.congr rfl rfl fun _ => id, Or.inl rfl⟩
      · refine ⟨horderly.congr rfl rfl fun _ => id, Or.inr (Or.inr (Or.inr ⟨?_, rfl⟩))⟩
        simp [startsAtOnce, hunmap, hstart, hsome]
  · -- the end of the surface
    obtain ⟨u, hu, hok⟩ := bind_eq_ok.mp hok
    obtain rfl := cancelSurface_ok hu
    obtain rfl := sendWithoutBuffer_ok hok
    exact ⟨(horderly.forgotten event.surface).congr rfl rfl fun _ => id,
      Or.inr (Or.inr (Or.inl rfl))⟩
  · -- any other record
    split_ifs at hok
    · refine ⟨horderly.queueEvent hregistered hok, Or.inl ?_⟩
      obtain ⟨queue, -, rfl⟩ := queueEvent_ok hok
      rfl
    · obtain rfl := sendWithoutBuffer_ok hok
      exact ⟨horderly.congr rfl rfl fun _ => id, Or.inl rfl⟩

end EncodedSourceState

open EncodedSourceState

/-! ### Runs -/

/-- What happens to a source.  Input of the peer changes the focus and the attention of surfaces as
it likes; the transport takes the output and may block. -/
inductive EncodedSourceCall
  | enqueue (session : HoistSessionId) (event : ClientSurfaceEvent) (now later : Instant)
  | setPresentation (surface : ClientSurfaceId) (claim : ClientPresentationClaim)
  | setResizing (surface : ClientSurfaceId) (resizing : Bool)
  | cancelSurface (surface : ClientSurfaceId)
  | register (session : HoistSessionId) (surface : ClientSurfaceId)
  | observe (focus : Option ClientSurfaceId) (attention : ClientSurfaceId → Attention → Attention)
  | drain (completions : List EncodeCompletion)
  | takeOutput
  | setTransportBlocked (blocked : Bool)
  | setAdmissionDeferred (deferred : Bool)
  | scheduleAt (now : Instant)

/-- A source is gone after a failure. -/
structure SourceRun where
  state : Option EncodedSourceState
  clock : Instant := 0

open SourceRun

namespace EncodedSourceState

def apply (s : EncodedSourceState) (env : SourceBackend) :
    EncodedSourceCall → Except SourceError EncodedSourceState
  | .enqueue session event now later => s.enqueue env session event now later
  | .setPresentation surface claim => .ok { s with pacing := (s.pacing.set surface claim).1 }
  | .setResizing surface resizing => .ok (s.setResizing surface resizing)
  | .cancelSurface surface => s.cancelSurface env 0 surface
  | .register session surface => .ok { s with activity := s.activity.register session surface }
  | .observe focus attention =>
      .ok { s with
        activity :=
          { focus
            surfaces := s.activity.surfaces.mapValues fun surface entry =>
              { entry with attention := attention surface entry.attention } } }
  | .drain completions => s.drain env 0 completions
  | .takeOutput => .ok { s with output := [] }
  | .setTransportBlocked blocked => .ok { s with transportBlocked := blocked }
  | .setAdmissionDeferred deferred => .ok { s with admissionDeferred := deferred }
  | .scheduleAt now => s.scheduleAt env now

/-- No batch starts before the deadline of its surface, and no claim pauses a surface whose encoders
run faster than unclaimed ones. -/
def OnTime (s : EncodedSourceState) : EncodedSourceCall → Prop
  | .enqueue _ event now later =>
      s.startsAtOnce event now = true → s.pacing.Due event.surface later
  | .scheduleAt now => ∀ surface, s.nextBatch now = some surface → s.pacing.Due surface now
  | .setPresentation surface claim => s.pacing.Spares surface claim
  | _ => True

end EncodedSourceState

/-- What the clock shows after a call. -/
def EncodedSourceCall.clock (clock : Instant) : EncodedSourceCall → Instant
  | .enqueue _ _ _ later => later
  | .scheduleAt now => now
  | _ => clock

namespace SourceRun

def step (r : SourceRun) (call : SourceBackend × EncodedSourceCall) : SourceRun where
  state := r.state.bind fun s => (s.apply call.1 call.2).toOption
  clock := EncodedSourceCall.clock r.clock call.2

def start (ceiling fallback : Option PresentationRate) (policy : SchedulingPolicy) : SourceRun where
  state := some { pacing := { ceiling, fallback }, policy }

/-- The clock does not go back. -/
def Timely (r : SourceRun) (call : SourceBackend × EncodedSourceCall) : Prop :=
  match call.2 with
  | .enqueue _ _ now later => r.clock ≤ now ∧ now ≤ later
  | .scheduleAt now => r.clock ≤ now
  | _ => True

def OnTime (r : SourceRun) (call : SourceBackend × EncodedSourceCall) : Prop :=
  ∀ s, r.state = some s → s.OnTime call.2

end SourceRun

/-! ### What every run keeps -/

variable {clock : Instant}

namespace SourcePacing

/-- No admission is recorded for a time to come. -/
def Past (p : SourcePacing) (clock : Instant) : Prop :=
  ∀ surface last, (p.cadence surface).lastAdmission = some last → last ≤ clock

variable {p : SourcePacing}

theorem Past.mono {later : Instant} (h : p.Past clock) (hle : clock ≤ later) : p.Past later :=
  fun surface last hlast => (h surface last hlast).trans hle

theorem Past.set (h : p.Past clock) (surface : ClientSurfaceId) (claim : ClientPresentationClaim) :
    (p.set surface claim).1.Past clock := by
  intro other last hlast
  rw [cadence_set] at hlast
  split_ifs at hlast with hsame
  · exact h surface last hlast
  · exact h surface last hlast
  · exact h other last hlast

theorem Past.admitted {now : Instant} (h : p.Past now)
    (surface : ClientSurfaceId) : (p.admitted surface now).Past now := by
  intro other last hlast
  rw [cadence_admitted] at hlast
  split at hlast
  · exact h other last hlast
  · split_ifs at hlast
    · cases hlast
      exact le_rfl
    · exact h other last hlast

theorem Past.reset (h : p.Past clock) (surface : ClientSurfaceId) :
    (p.reset surface).Past clock := by
  intro other last hlast
  rw [cadence_reset] at hlast
  split_ifs at hlast
  exact h other last hlast

theorem Past.forget (h : p.Past clock) (surface : ClientSurfaceId) :
    (p.forget surface).Past clock := by
  intro other last hlast
  rw [cadence_forget] at hlast
  split_ifs at hlast
  exact h other last hlast

end SourcePacing

namespace SourceRun

/-- What every run keeps, and, if its calls are on time, that all surfaces are prompt. -/
structure Sound (onTime : Prop) (r : SourceRun) : Prop where
  orderly : ∀ s, r.state = some s → s.Orderly
  past : ∀ s, r.state = some s → s.pacing.Past r.clock
  prompt : onTime → ∀ s, r.state = some s → ∀ surface, s.pacing.Prompt surface

/-- **What a call does to the queues and to the cadences.** -/
theorem apply_ok {s t : EncodedSourceState} (h : s.Orderly) {env : SourceBackend}
    {call : EncodedSourceCall} (htimely : Timely ⟨some s, clock⟩ (env, call))
    (hpast : s.pacing.Past clock) (hok : s.apply env call = .ok t) :
    t.Orderly ∧ t.pacing.Past (EncodedSourceCall.clock clock call) ∧
      (s.OnTime call → (∀ surface, s.pacing.Prompt surface) →
        ∀ surface, t.pacing.Prompt surface) := by
  cases call with
  | enqueue session event now later =>
      have hle : clock ≤ later := htimely.1.trans htimely.2
      obtain ⟨horderly, hpacing⟩ := enqueue_ok h hok
      refine ⟨horderly, ?_⟩
      change t.pacing.Past later ∧ _
      rcases hpacing with heq | heq | heq | ⟨hstart, heq⟩ <;> rw [heq]
      · exact ⟨hpast.mono hle, fun _ => id⟩
      · exact ⟨(hpast.mono hle).reset _, fun _ hprompt surface => (hprompt surface).reset _⟩
      · exact ⟨(hpast.mono hle).forget _, fun _ hprompt surface => (hprompt surface).forget _⟩
      · exact ⟨(hpast.mono hle).admitted _, fun honTime hprompt surface =>
          (hprompt surface).admitted (honTime hstart)⟩
  | setPresentation surface claim =>
      cases hok
      exact ⟨h.congr rfl rfl fun _ => id, hpast.set surface claim, fun honTime hprompt other =>
        (hprompt other).set honTime⟩
  | setResizing surface resizing =>
      cases hok
      exact ⟨h.congr rfl rfl fun _ => id, hpast, fun _ => id⟩
  | cancelSurface surface =>
      obtain rfl := cancelSurface_ok hok
      exact ⟨h.forgotten surface, hpast.forget surface, fun _ hprompt other =>
        (hprompt other).forget surface⟩
  | register session surface =>
      cases hok
      exact ⟨h.congr rfl rfl fun other hother => Activity.mem_register.mpr (Or.inr hother), hpast,
        fun _ => id⟩
  | observe focus attention =>
      cases hok
      refine ⟨h.congr rfl rfl fun other hother => ?_, hpast, fun _ => id⟩
      rw [mem_keys] at hother ⊢
      rwa [keys_mapValues]
  | drain completions =>
      obtain ⟨inFlight, output, rfl⟩ := drain_ok hok
      exact ⟨h.congr rfl rfl fun _ => id, hpast, fun _ => id⟩
  | takeOutput | setTransportBlocked | setAdmissionDeferred =>
      cases hok
      exact ⟨h.congr rfl rfl fun _ => id, hpast, fun _ => id⟩
  | scheduleAt now =>
      have hlater : s.pacing.Past now := hpast.mono htimely
      rcases scheduleAt_ok h hok with ⟨-, rfl⟩ | ⟨-, hran⟩
      · exact ⟨h, hlater, fun _ => id⟩
      · refine ⟨hran.orderly, ?_⟩
        change t.pacing.Past now ∧ _
        rcases hran.outcome with ⟨-, -, heq, -⟩ | ⟨batch, -, hnext, heq⟩ <;> rw [heq]
        · exact ⟨hlater, fun _ => id⟩
        · exact ⟨hlater.admitted _, fun honTime hprompt surface =>
            (hprompt surface).admitted (honTime batch.surface hnext)⟩

variable {onTime : Prop} {r : SourceRun}

theorem Sound.step (h : Sound onTime r) {call : SourceBackend × EncodedSourceCall}
    (htimely : r.Timely call) (honTime : onTime → r.OnTime call) : Sound onTime (r.step call) := by
  obtain ⟨state, clock⟩ := r
  cases state with
  | none =>
      have hgone : (step ⟨none, clock⟩ call).state = none := rfl
      refine ⟨?_, ?_, fun _ => ?_⟩ <;> intro t ht <;> rw [hgone] at ht <;> cases ht
  | some s =>
      have hafter : ∀ t, (step ⟨some s, clock⟩ call).state = some t →
          s.apply call.1 call.2 = .ok t := by
        intro t ht
        change (s.apply call.1 call.2).toOption = some t at ht
        cases hresult : s.apply call.1 call.2 with
        | error e =>
            rw [hresult] at ht
            cases ht
        | ok u =>
            rw [hresult] at ht
            cases ht
            rfl
      have hall := fun t ht => apply_ok (h.orderly s rfl) htimely (h.past s rfl) (hafter t ht)
      exact ⟨fun t ht => (hall t ht).1, fun t ht => (hall t ht).2.1, fun hon t ht =>
        (hall t ht).2.2 (honTime hon s rfl) (h.prompt hon s rfl)⟩

theorem sound_start (onTime : Prop) (ceiling fallback : Option PresentationRate)
    (policy : SchedulingPolicy) : Sound onTime (start ceiling fallback policy) where
  orderly s hs := by
    cases hs
    exact ⟨fun surface => by simp, fun surface queue hqueue => by simp at hqueue,
      fun surface hmem => by simp at hmem⟩
  past s hs := by
    cases hs
    intro surface last hlast
    cases hlast
  prompt _ s hs surface := by
    cases hs
    exact SourcePacing.prompt_of_next_none rfl

theorem sound_exec (h : Sound onTime r) {calls : List (SourceBackend × EncodedSourceCall)}
    (htimely : Meets step Timely r calls)
    (honTime : onTime → Meets step OnTime r calls) :
    Sound onTime (exec step r calls) := by
  induction calls generalizing r with
  | nil => exact h
  | cons call calls ih =>
      exact ih (h.step htimely.1 fun hon => (honTime hon).1) htimely.2 fun hon => (honTime hon).2

end SourceRun

/-- **No wake-up is lost, and on time there is no debt.**  After every call of the scheduler that
leaves the source open, whoever waits is being resized, is paused, or is covered by the next
deadline, and at that deadline a record is admitted.  If no batch starts before the deadline of its
surface and no claim pauses a surface whose encoders run faster than unclaimed ones, then the
deadline of every surface is at most one interval after its last admission, so that it is ready
within an interval unless it is paused. -/
theorem wakeups_and_debts (ceiling fallback : Option PresentationRate) (policy : SchedulingPolicy)
    (calls : List (SourceBackend × EncodedSourceCall))
    (htimely : Meets step Timely
      (start ceiling fallback policy) calls)
    (s : EncodedSourceState) (clock : Instant)
    (hs : exec step (start ceiling fallback policy) calls =
      ⟨some s, clock⟩) :
    (∀ env now t, s.scheduleAt env now = .ok t → t.closed = false →
      t.Covered ∧ ∀ deadline, t.nextDeadline = some deadline →
        (∀ env u, t.scheduleAt env deadline = .ok u →
          u.pendingCount < t.pendingCount ∧ (u.inFlight.isSome = true ∨ u.output ≠ [])) ∧
        (t.WithinLimit → ∀ env : SourceBackend, (∀ n, env.refuses n = none) →
          ∃ u, t.scheduleAt env deadline = .ok u)) ∧
    (Meets step OnTime (start ceiling fallback policy)
        calls →
      ∀ surface, s.pacing.Prompt surface ∧
        (s.pacing.paused surface = false →
          ∃ wait, (∀ rate, s.pacing.rate surface = some rate → wait ≤ rate.interval) ∧
            s.pacing.ready surface (clock + wait) = true)) := by
  have hsound : Sound
      (Meets step OnTime (start ceiling fallback policy)
        calls) _ :=
    sound_exec (sound_start _ ceiling fallback policy) htimely id
  rw [hs] at hsound
  refine ⟨fun env now t ht hopen => ?_, fun honTime surface => ?_⟩
  · -- a call of the scheduler keeps the queues in order, open or not
    have horderly := hsound.orderly s rfl
    rcases scheduleAt_ok horderly ht with ⟨hclosed, rfl⟩ | ⟨-, hran⟩
    · rw [hclosed] at hopen
      cases hopen
    · have hsettled : t.Settled now := by
        rcases hran.outcome with ⟨-, -, -, hsettled⟩ | ⟨batch, hbatch, -, -⟩
        · exact hsettled
        · rw [inFlight_of_open hopen] at hbatch
          cases hbatch
      refine ⟨covered_of_settled hran.orderly hopen hsettled,
        fun deadline hdeadline => ⟨fun env u hu => ?_, fun hlimit env henv => ?_⟩⟩
      · exact scheduleAt_admits hran.orderly hdeadline hu
      · exact exists_scheduleAt hlimit henv deadline
  · have hprompt := hsound.prompt honTime s rfl surface
    exact ⟨hprompt, fun hpaused => hprompt.ready hpaused fun last hlast =>
      hsound.past s rfl surface last hlast⟩

/-! ### Two surfaces in debt -/

def pacedWindow : ClientSurfaceId := ⟨⟨0, 0⟩, 1⟩

/-- A commit of the window with one new buffer. -/
def frameCommit (mapped : Bool) (revision : ℕ) : ClientSurfaceEvent where
  surface := pacedWindow
  kind := .commit
    { revision, mapped
      buffers := [⟨0, .replaced ⟨⟨64, 64⟩, true⟩ ⟨⟨0, revision⟩, ⟨0, revision⟩⟩⟩] }

/-- The calls, of an encoder that refuses nothing. -/
def granted (calls : List EncodedSourceCall) : List (SourceBackend × EncodedSourceCall) :=
  calls.map fun call => ({}, call)

/-- Two hidden commits within a millisecond. -/
def hiddenBurst : List EncodedSourceCall :=
  [.setPresentation pacedWindow (.active (some .hz60)), .enqueue 1 (frameCommit false 1) 0 0,
    .drain [.encoded], .takeOutput, .enqueue 1 (frameCommit false 2) 1000000 1000000]

def hz90 : PresentationRate := ⟨90000, by decide⟩

/-- A pause after a frame at 90 Hz. -/
def pausedFast : List EncodedSourceCall :=
  [.setPresentation pacedWindow (.active (some hz90)), .enqueue 1 (frameCommit true 1) 0 0,
    .setPresentation pacedWindow .paused]

/-- Where a run without a ceiling leaves the window: its deadline, its last admission and its
rate. -/
def paceAfter (calls : List EncodedSourceCall) :
    Option (Option Instant × Option Instant × Option PresentationRate) :=
  (exec step (start none (some .hz60) {}) (granted calls)).state.map
    fun s => (s.pacing.deadline pacedWindow, (s.pacing.cadence pacedWindow).lastAdmission,
      s.pacing.rate pacedWindow)

/-- **Hidden commits and a pause leave a debt**: two hidden commits within a millisecond put the
deadline two intervals off, and a pause puts it off by an interval at 60 Hz though the encoders run
at 90 Hz. -/
theorem hidden_commits_leave_debt :
    ¬ (∀ calls : List EncodedSourceCall,
      Meets step Timely (start none (some .hz60) {})
        (granted calls) →
      ∀ s clock, exec step (start none (some .hz60) {})
          (granted calls) = ⟨some s, clock⟩ →
        s.pacing.Prompt pacedWindow) ∧
      paceAfter hiddenBurst = some (some 33333334, some 1000000, some .hz60) ∧
      paceAfter pausedFast = some (some 16666667, some 0, some hz90) := by
  have hburst : paceAfter hiddenBurst = some (some 33333334, some 1000000, some .hz60) := by
    decide +kernel
  refine ⟨fun hall => ?_, hburst, by decide +kernel⟩
  obtain ⟨s, hs, hpace⟩ := Option.map_eq_some_iff.mp hburst
  simp only [Prod.mk.injEq] at hpace
  obtain ⟨hdeadline, hlast, hrate⟩ := hpace
  have htimely : Meets step Timely
      (start none (some .hz60) {}) (granted hiddenBurst) :=
    ⟨trivial, ⟨Nat.le_refl 0, Nat.le_refl 0⟩, trivial, trivial,
      ⟨Nat.zero_le 1000000, Nat.le_refl 1000000⟩, trivial⟩
  have hprompt := hall hiddenBurst htimely s _ (by rw [← hs])
  obtain ⟨last, rate, hlast', hrate', hle⟩ := hprompt 33333334 hdeadline
  rw [hlast] at hlast'
  rw [hrate] at hrate'
  cases hlast'
  cases hrate'
  exact absurd hle (by decide)

/-- A second commit, a millisecond after the first, waits for the end of the interval. -/
def pacedCommits : List EncodedSourceCall :=
  [.setPresentation pacedWindow (.active (some .hz60)), .enqueue 1 (frameCommit true 1) 0 0,
    .drain [.encoded], .takeOutput, .enqueue 1 (frameCommit true 2) 1000000 1000000]

/-- The paced window waits, is announced in time, gets its turn then, and is prompt throughout. -/
theorem wakeups_and_debts_of_a_window :
    ∃ s, exec step (start none (some .hz60) {})
        (granted pacedCommits) = ⟨some s, 1000000⟩ ∧
      (∃ t, s.scheduleAt {} 1000000 = .ok t ∧ t.Covered ∧ t.nextDeadline = some 16666667 ∧
        ∀ u, t.scheduleAt {} 16666667 = .ok u → u.pendingCount < t.pendingCount) ∧
      s.pacing.Prompt pacedWindow := by
  have hcall : ((exec step (start none (some .hz60) {})
      (granted pacedCommits)).state.bind fun s => (s.scheduleAt {} 1000000).toOption).map
        (fun t => (t.closed, t.nextDeadline)) = some (false, some 16666667) := by
    decide +kernel
  obtain ⟨t, ht, hpair⟩ := Option.map_eq_some_iff.mp hcall
  obtain ⟨s, hs, hok⟩ := Option.bind_eq_some_iff.mp ht
  obtain ⟨hopen, hdeadline⟩ := Prod.mk.inj hpair
  have ht' : s.scheduleAt {} 1000000 = .ok t := by
    cases hresult : s.scheduleAt {} 1000000 with
    | error e =>
        rw [hresult] at hok
        cases hok
    | ok u =>
        rw [hresult] at hok
        cases hok
        rfl
  have htimely : Meets step Timely
      (start none (some .hz60) {}) (granted pacedCommits) :=
    ⟨trivial, ⟨Nat.le_refl 0, Nat.le_refl 0⟩, trivial, trivial,
      ⟨Nat.zero_le 1000000, Nat.le_refl 1000000⟩, trivial⟩
  have honTime : Meets step OnTime
      (start none (some .hz60) {}) (granted pacedCommits) := by
    refine ⟨?_, ?_, fun _ _ => trivial, fun _ _ => trivial, ?_, trivial⟩ <;> intro r hr <;> cases hr
    · intro hactive
      cases hactive
    · intro _ deadline hnone
      have hnext : (none : Option Instant) = some deadline := hnone
      cases hnext
    · intro hstart
      exact absurd hstart (by decide +kernel)
  have hrun : exec step (start none (some .hz60) {})
      (granted pacedCommits) = ⟨some s, 1000000⟩ := by
    rw [← hs]
    rfl
  have hall := wakeups_and_debts none (some .hz60) {} (granted pacedCommits) htimely s 1000000 hrun
  obtain ⟨hcovered, hadmits⟩ := hall.1 {} 1000000 t ht' hopen
  exact ⟨s, hrun, ⟨t, ht', hcovered, hdeadline, fun u hu =>
    ((hadmits 16666667 hdeadline).1 {} u hu).1⟩, (hall.2 honTime pacedWindow).1⟩

end Encoded
