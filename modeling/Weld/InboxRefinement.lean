/-
**The inbox of local sources is the queue of pending events.**

While no source is smoothed, every mailbox holds one frame, and the inbox does what
`PendingClientEvents` does: event for event, it yields the same.

Main definitions: `Mirrors`, `Agrees`, `InboxRun`, `QueueRun`.

Main results:

* `Agrees.pushAt`, `Agrees.popAt` — one step of both;
* `inbox_refines_queue` — both yield the same sequence.
-/

import Weld.EventCoalescing
import Weld.PresentationInbox

namespace Client

open Gamepad (Instant)
open PendingClientEvents PresentationMailbox

/-! ### Lists that correspond -/

section Corresponding

variable {α β : Type} {R : α → β → Prop} {as : List α} {b : β}

theorem forall₂_split {front back : List β} (h : List.Forall₂ R as (front ++ b :: back)) :
    ∃ before a after, as = before ++ a :: after ∧ before.length = front.length ∧ R a b ∧
      List.Forall₂ R before front ∧ List.Forall₂ R after back := by
  induction front generalizing as with
  | nil =>
      obtain ⟨a, after, hab, hafter, rfl⟩ := List.forall₂_cons_right_iff.mp h
      exact ⟨[], a, after, rfl, rfl, hab, List.Forall₂.nil, hafter⟩
  | cons d front ih =>
      obtain ⟨c, rest, hcd, hrest, rfl⟩ := List.forall₂_cons_right_iff.mp h
      obtain ⟨before, a, after, rfl, hlength, hab, hbefore, hafter⟩ := ih hrest
      exact ⟨c :: before, a, after, rfl, by simp [hlength], hab, hbefore.cons hcd, hafter⟩

theorem forall₂_concat {bs : List β} {a : α} (h : List.Forall₂ R as bs)
    (hab : R a b) : List.Forall₂ R (as ++ [a]) (bs ++ [b]) :=
  List.rel_append h (List.Forall₂.nil.cons hab)

theorem set_middle (front back : List α) (a b : α) :
    (front ++ a :: back).set front.length b = front ++ b :: back := by
  simp

theorem eraseIdx_middle (front back : List α) (a : α) :
    (front ++ a :: back).eraseIdx front.length = front ++ back := by
  simp [List.eraseIdx_append_of_length_le]

end Corresponding

/-! ### What a mailbox holds -/

/-- A mailbox that is not smoothed holds one frame. -/
def Holds (queue : PresentationMailbox ClientSurfaceCommit) (commit : ClientSurfaceCommit) : Prop :=
  queue.maximumAge = none ∧ queue.frames = [commit]

variable {queue : PresentationMailbox ClientSurfaceCommit} {pending : PendingEvent Unit}

theorem holds_push (h : queue.maximumAge = none) (commit : ClientSurfaceCommit) (now : Instant) :
    Holds (queue.push commit now).1 commit := by
  refine ⟨by rw [maximumAge_push, h], ?_⟩
  rw [frames_push, h]
  rfl

theorem Holds.enqueue
    {old : ClientSurfaceCommit} (h : Holds queue old) (commit : ClientSurfaceCommit)
    (now : Instant) : Holds (enqueueCommit queue commit now) commit := by
  have hclear : queue.clear.maximumAge = none := h.1
  unfold enqueueCommit
  split_ifs
  · exact holds_push hclear commit now
  · exact holds_push h.1 commit now

theorem Holds.newest
    {commit : ClientSurfaceCommit} (h : Holds queue commit) : queue.newest = some commit := by
  rw [newest_eq, h.2]
  rfl

theorem Holds.keepLatest
    {commit : ClientSurfaceCommit} (h : Holds queue commit) : Holds queue.keepLatest.1 commit := by
  refine ⟨?_, by rw [frames_keepLatest, h.2]; rfl⟩
  have hsecond := second_eq_none_of_age h.1
  unfold PresentationMailbox.keepLatest
  split
  · exact h.1
  · rename_i waiting hwaiting
    rw [hsecond] at hwaiting
    cases hwaiting

theorem Holds.setInterval {commit : ClientSurfaceCommit} (h : Holds queue commit)
    (interval : Duration) : Holds (queue.setInterval interval) commit := by
  refine ⟨?_, h.2⟩
  exact Option.map_eq_none_iff.mpr h.1

/-- The one frame is selected, and nothing is left. -/
theorem Holds.pop {commit : ClientSurfaceCommit} (h : Holds queue commit) (now : Instant) :
    (queue.pop now).1.isEmpty = true ∧ (queue.pop now).2.1 = some commit := by
  obtain ⟨⟨stale, hframes, -, -⟩, -, hnone⟩ := queue.frames_pop now
  rw [h.2] at hframes hnone
  cases hselected : (queue.pop now).2.1 with
  | none => exact absurd (hnone hselected) (List.cons_ne_nil _ _)
  | some selected =>
      rw [hselected] at hframes
      have hlength := congrArg List.length hframes
      simp only [List.length_append, List.length_cons, List.length_nil, Option.toList_some]
        at hlength
      have hstale : stale = [] := List.length_eq_zero_iff.mp (by omega)
      have hrest : (queue.pop now).1.frames = [] := List.length_eq_zero_iff.mp (by omega)
      refine ⟨frames_eq_nil_iff.mp hrest, ?_⟩
      rw [hstale, hrest] at hframes
      exact congrArg some (List.cons.inj hframes).1.symm

/-! ### Inbox and queue -/

/-- A record of the inbox and one of the queue that are about the same event. -/
inductive Mirrors : InboxRecord → PendingEvent Unit → Prop
  | event (event : ClientSurfaceEvent) (h : isCommit event = false) :
      Mirrors (.event event) ⟨(), event, false⟩
  | frames (surface : ClientSurfaceId) (queue : PresentationMailbox ClientSurfaceCommit)
      (commit : ClientSurfaceCommit) (barrier : Bool) (h : Holds queue commit) :
      Mirrors (.frames surface queue barrier) ⟨(), ⟨surface, .commit commit⟩, barrier⟩

/-- No source is smoothed, and both hold the same events. -/
structure Agrees (inbox : ClientPresentationInbox) (q : PendingClientEvents Unit) : Prop where
  unsmoothed : inbox.intervals = ∅
  records : List.Forall₂ Mirrors inbox.pending q.events

variable {inbox : ClientPresentationInbox} {q : PendingClientEvents Unit}
  {record : InboxRecord} {surface : ClientSurfaceId} {index : ℕ}

theorem Mirrors.planRecord
    (h : Mirrors record pending) : record.planRecord = pending.planRecord () := by
  cases h with
  | event event h => rfl
  | frames surface queue commit barrier h =>
      rw [InboxRecord.planRecord, h.newest]
      rfl

variable (h : Agrees inbox q)
include h

/-- Both plan alike. -/
theorem Agrees.plan (event : ClientSurfaceEvent) :
    inbox.plan event.surface (PendingKind.ofEvent event) = plan () event q.events := by
  rw [plan_eq_planRecords, ClientPresentationInbox.plan]
  have hmap : inbox.pending.map (·.planRecord) = q.events.map (·.planRecord ()) := by
    rw [← List.forall₂_eq_eq_eq, List.forall₂_map_left_iff, List.forall₂_map_right_iff]
    exact h.records.imp fun _ _ hmirrors => hmirrors.planRecord
  rw [hmap]

theorem Agrees.mapQueue {f : ClientSurfaceId → PresentationMailbox ClientSurfaceCommit →
      PresentationMailbox ClientSurfaceCommit}
    (hf : ∀ surface queue commit, Holds queue commit → Holds (f surface queue) commit) :
    List.Forall₂ Mirrors (inbox.pending.map (.mapQueue f)) q.events := by
  rw [List.forall₂_map_left_iff]
  refine h.records.imp fun record pending hmirrors => ?_
  cases hmirrors with
  | event event h => exact Mirrors.event event h
  | frames surface queue commit barrier h =>
      exact Mirrors.frames surface _ commit barrier (hf surface queue commit h)

theorem Agrees.collapseHistory : Agrees inbox.collapseHistory q :=
  ⟨h.unsmoothed, h.mapQueue fun _ _ _ hholds => hholds.keepLatest⟩

theorem Agrees.setInterval (interval : Duration) : Agrees (inbox.setInterval interval) q := by
  refine ⟨?_, h.mapQueue fun _ _ _ hholds => hholds.setInterval interval⟩
  rw [ClientPresentationInbox.setInterval, h.unsmoothed]
  rfl

/-- The new record goes to the end of both. -/
theorem Agrees.append (hmirrors : Mirrors record pending) :
    Agrees { inbox with pending := inbox.pending ++ [record] } ⟨q.events ++ [pending]⟩ :=
  ⟨h.unsmoothed, forall₂_concat h.records hmirrors⟩

theorem Agrees.noteMapped (event : ClientSurfaceEvent) : Agrees (inbox.noteMapped event) q := by
  unfold ClientPresentationInbox.noteMapped
  split
  · exact ⟨h.unsmoothed, h.records⟩
  · exact ⟨h.unsmoothed, h.records⟩
  all_goals exact h

theorem Agrees.mailboxFor (surface : ClientSurfaceId) : inbox.mailboxFor surface = {} := by
  rw [ClientPresentationInbox.mailboxFor, h.unsmoothed]
  rfl

/-! ### One step of both -/

theorem Agrees.split {front back : List (PendingEvent Unit)}
    (hevents : q.events = front ++ pending :: back) :
    ∃ before record after, inbox.pending = before ++ record :: after ∧
      before.length = front.length ∧ Mirrors record pending ∧
      List.Forall₂ Mirrors before front ∧ List.Forall₂ Mirrors after back := by
  have hrecords := h.records
  rw [hevents] at hrecords
  exact forall₂_split hrecords

omit h

/-- The barrier of a commit that replaces another is that of the other. -/
theorem planCommit_barrier {mapped : Bool} {records : List (PlanRecord × ℕ)}
    (h : (planCommitRecords surface mapped records).replacement = some index) :
    ∃ record, (record, index) ∈ records ∧
      (planCommitRecords surface mapped records).barrier = record.barrier := by
  induction records with
  | nil => simp [planCommitRecords] at h
  | cons entry earlier ih =>
      obtain ⟨record, i⟩ := entry
      have hearlier : (planCommitRecords surface mapped earlier).replacement = some index →
          ∃ found, (found, index) ∈ (record, i) :: earlier ∧
            (planCommitRecords surface mapped earlier).barrier = found.barrier := by
        intro hplan
        obtain ⟨found, hfound, hbarrier⟩ := ih hplan
        exact ⟨found, List.mem_cons_of_mem _ hfound, hbarrier⟩
      rw [planCommitRecords] at h ⊢
      cases hkind : record.kind with
      | metadata =>
          rw [hkind] at h
          exact hearlier h
      | control =>
          rw [hkind] at h
          cases h
      | commit previous =>
          rw [hkind] at h
          simp only at h ⊢
          split_ifs at h ⊢ with hsurface hcompatible hbarrier
          · cases h
            exact ⟨record, List.mem_cons_self, by simp [hcompatible]⟩
          · exact hearlier h

/-- Labels are no barrier. -/
theorem planMetadata_barrier (records : List (PendingEvent Unit × ℕ)) :
    (planMetadata () surface records).barrier = false := by
  induction records with
  | nil => rfl
  | cons entry earlier ih =>
      rw [planMetadata]
      split_ifs
      · rfl
      · rfl
      · exact ih

theorem plan_barrier {event : ClientSurfaceEvent} {events : List (PendingEvent Unit)}
    (hcommit : isCommit event = true) (h : (plan () event events).replacement = some index) :
    ∃ pending, events[index]? = some pending ∧ (plan () event events).barrier = pending.barrier := by
  obtain ⟨surface, kind⟩ := event
  cases kind with
  | commit commit =>
      rw [plan_eq_planRecords] at h ⊢
      obtain ⟨record, hmem, hbarrier⟩ := planCommit_barrier h
      rw [List.mem_reverse, List.mem_zipIdx_iff_getElem?, List.getElem?_map] at hmem
      obtain ⟨pending, hget, hrecord⟩ := Option.map_eq_some_iff.mp hmem
      refine ⟨pending, hget, hbarrier.trans ?_⟩
      rw [← show pending.planRecord () = record from hrecord]
      rfl
  | _ => cases hcommit

include h

theorem Agrees.collapsedFor (barrier : Bool) : Agrees (inbox.collapsedFor barrier) q := by
  unfold ClientPresentationInbox.collapsedFor
  split_ifs
  · exact h.collapseHistory
  · exact h

theorem Agrees.commit (surface : ClientSurfaceId) (commit : ClientSurfaceCommit) (now : Instant) :
    Agrees (inbox.commit surface commit now) (q.push () ⟨surface, .commit commit⟩) := by
  have hplan : inbox.plan surface (.commit commit.mapped) =
      Client.plan () ⟨surface, .commit commit⟩ q.events := h.plan ⟨surface, .commit commit⟩
  unfold PendingClientEvents.push PendingClientEvents.insert
  rcases hinsertion : Client.plan () ⟨surface, .commit commit⟩ q.events with ⟨replacement, barrier⟩
  rw [hinsertion] at hplan
  cases replacement with
  | none =>
      -- a new record; no mailbox holds more than one frame, so there is nothing to collapse
      have hcollapsed := h.collapsedFor barrier
      rw [ClientPresentationInbox.commit_new (by rw [hplan]) (by rw [hplan])]
      refine hcollapsed.append (Mirrors.frames surface _ commit barrier ?_)
      rw [hcollapsed.mailboxFor]
      exact holds_push rfl commit now
  | some index =>
      have hreplacement : (Client.plan () ⟨surface, .commit commit⟩ q.events).replacement =
          some index := by rw [hinsertion]
      obtain ⟨front, old, back, hevents, rfl, hsupersedes, -⟩ := plan_some hreplacement
      obtain ⟨before, record, after, hpending, hlength, hmirrors, hbefore, hafter⟩ :=
        h.split hevents
      obtain ⟨found, hfound, hbarrier⟩ := plan_barrier rfl hreplacement
      have hget : q.events[front.length]? = some old := by
        rw [hevents]
        simp
      obtain rfl : old = found := Option.some.inj (hget.symm.trans hfound)
      have hrecord : inbox.pending[front.length]? = some record := by
        rw [hpending, ← hlength]
        simp
      rw [hinsertion] at hbarrier
      simp only [Option.bind_some, hget, Option.map_some]
      cases hmirrors with
      | event event hcommit =>
          rcases hsupersedes.cases with ⟨_, _, _, _, -, hold, -⟩ | ⟨_, _, _, _, hnew, -⟩
          · cases hold
            cases hcommit
          · cases hnew
      | frames target queue previous held hholds =>
          obtain rfl : surface = target := hsupersedes.2.1
          obtain rfl : barrier = held := hbarrier
          have hcarried := hholds.enqueue (commit.carryUnobservedContentFrom previous) now
          have hnew : Mirrors
              (.frames surface (enqueueCommit queue
                ((queue.newest.map commit.carryUnobservedContentFrom).getD commit) now) barrier)
              ⟨(), carry ⟨surface, .commit commit⟩ ⟨surface, .commit previous⟩, barrier⟩ := by
            rw [hholds.newest]
            exact Mirrors.frames surface _ _ barrier hcarried
          cases barrier with
          | true =>
              -- a mapping keeps its place in both
              rw [ClientPresentationInbox.commit_inPlace hplan hrecord]
              refine ⟨h.unsmoothed, ?_⟩
              simp only [isCommit, Bool.and_self, if_true, hpending, hevents, set_middle]
              rw [← hlength, set_middle]
              exact List.rel_append hbefore (hafter.cons hnew)
          | false =>
              rw [ClientPresentationInbox.commit_moved hplan hrecord]
              refine ⟨h.unsmoothed, ?_⟩
              simp only [Bool.false_and, Bool.false_eq_true, if_false, hpending, hevents,
                eraseIdx_middle]
              rw [← hlength, eraseIdx_middle]
              exact forall₂_concat (List.rel_append hbefore hafter) hnew

/-- Labels take the place of labels in both. -/
theorem Agrees.pushMetadata (surface : ClientSurfaceId) (metadata : ClientSurfaceMetadata) :
    Agrees (inbox.pushMetadata ⟨surface, .metadata metadata⟩)
      (q.push () ⟨surface, .metadata metadata⟩) := by
  have hplan : inbox.plan surface .metadata =
      Client.plan () ⟨surface, .metadata metadata⟩ q.events := h.plan ⟨surface, .metadata metadata⟩
  have hbarrier : (Client.plan () ⟨surface, .metadata metadata⟩ q.events).barrier = false :=
    planMetadata_barrier _
  unfold ClientPresentationInbox.pushMetadata PendingClientEvents.push PendingClientEvents.insert
  rw [hplan]
  cases hreplacement : (Client.plan () ⟨surface, .metadata metadata⟩ q.events).replacement with
  | none =>
      simp only [Option.bind_none, hbarrier]
      exact h.append (Mirrors.event _ rfl)
  | some index =>
      obtain ⟨front, old, back, hevents, rfl, hsupersedes, -⟩ := plan_some hreplacement
      obtain ⟨before, record, after, hpending, hlength, -, hbefore, hafter⟩ := h.split hevents
      have hget : q.events[front.length]? = some old := by
        rw [hevents]
        simp
      refine ⟨h.unsmoothed, ?_⟩
      simp only [Option.bind_some, hget, Option.map_some, isCommit, Bool.and_false, Bool.false_and,
        Bool.false_eq_true, if_false, hbarrier]
      simp only [hpending, hevents]
      rw [← hlength, eraseIdx_middle, hlength, eraseIdx_middle]
      exact forall₂_concat (List.rel_append hbefore hafter) (Mirrors.event _ rfl)

/-- **One push.** -/
theorem Agrees.pushAt (event : ClientSurfaceEvent) (now : Instant) :
    Agrees (inbox.pushAt event now).1 (q.push () event) := by
  have hnoted := h.noteMapped event
  obtain ⟨surface, kind⟩ := event
  cases kind with
  | commit commit => exact hnoted.commit surface commit now
  | metadata metadata => exact hnoted.pushMetadata surface metadata
  | role role => exact hnoted.collapseHistory.append (Mirrors.event _ rfl)
  | interaction kind => exact hnoted.collapseHistory.append (Mirrors.event _ rfl)
  | stateRequest | destroyed => exact hnoted.collapseHistory.append (Mirrors.event _ rfl)

/-- **One pop.** -/
theorem Agrees.popAt (now : Instant) :
    Agrees (inbox.popAt now).1 q.popFront.1 ∧ (inbox.popAt now).2 = q.popFront.2 := by
  obtain ⟨mapped, pending, intervals, completed⟩ := inbox
  obtain ⟨events⟩ := q
  obtain ⟨hunsmoothed, hrecords⟩ := h
  cases hrecords with
  | nil => exact ⟨⟨hunsmoothed, List.Forall₂.nil⟩, rfl⟩
  | cons hmirrors hrest =>
      cases hmirrors with
      | event event hcommit => exact ⟨⟨hunsmoothed, hrest⟩, rfl⟩
      | frames surface queue commit barrier hholds =>
          obtain ⟨hempty, hselected⟩ := hholds.pop now
          simp only [ClientPresentationInbox.popAt, ClientPresentationInbox.finishPop, hempty,
            hselected, if_true]
          exact ⟨⟨hunsmoothed, hrest⟩, rfl⟩

/-- Several pops. -/
theorem Agrees.popMany (now : Instant) (count : ℕ) :
    Agrees (inbox.popMany now count).1 ⟨q.events.drop count⟩ ∧
      (inbox.popMany now count).2 = (q.events.take count).map (·.event) := by
  induction count generalizing inbox q with
  | zero => exact ⟨h, rfl⟩
  | succ count ih =>
      obtain ⟨hpopped, hsame⟩ := h.popAt now
      obtain ⟨hrest, hmore⟩ := ih hpopped
      obtain ⟨events⟩ := q
      simp only [ClientPresentationInbox.popMany]
      rw [hsame, hmore]
      cases events with
      | nil => exact ⟨by simpa [popFront] using hrest, by simp [popFront]⟩
      | cons pending events => exact ⟨hrest, rfl⟩

/-- **One opportunity yields everything that is queued.** -/
theorem Agrees.drainReady (now : Instant) :
    Agrees (inbox.drainReady now).1 {} ∧ (inbox.drainReady now).2 = q.events.map (·.event) := by
  obtain ⟨hdrained, hall⟩ := h.popMany now inbox.pending.length
  rw [h.records.length_eq] at hdrained hall
  rw [List.drop_length] at hdrained
  rw [List.take_length] at hall
  rw [ClientPresentationInbox.drainReady, h.records.length_eq]
  exact ⟨hdrained, hall⟩

omit h

/-! ### Whole runs -/

/-- What a presenter of local sources does. -/
inductive LocalCall
  | push (event : ClientSurfaceEvent) (now : Instant)
  | popFront (now : Instant)
  | drain (now : Instant)
  | setInterval (interval : Duration)

structure InboxRun where
  inbox : ClientPresentationInbox := {}
  output : List ClientSurfaceEvent := []

def InboxRun.step (r : InboxRun) : LocalCall → InboxRun
  | .push event now => { r with inbox := (r.inbox.pushAt event now).1 }
  | .popFront now =>
      { inbox := (r.inbox.popAt now).1, output := r.output ++ (r.inbox.popAt now).2.toList }
  | .drain now =>
      { inbox := (r.inbox.drainReady now).1, output := r.output ++ (r.inbox.drainReady now).2 }
  | .setInterval interval => { r with inbox := r.inbox.setInterval interval }

structure QueueRun where
  queue : PendingClientEvents Unit := {}
  output : List ClientSurfaceEvent := []

/-- The queue is fed and emptied likewise; it knows no intervals. -/
def QueueRun.step (r : QueueRun) : LocalCall → QueueRun
  | .push event _ => { r with queue := r.queue.push () event }
  | .popFront _ =>
      { queue := r.queue.popFront.1, output := r.output ++ r.queue.popFront.2.toList }
  | .drain _ => { queue := {}, output := r.output ++ r.queue.events.map (·.event) }
  | .setInterval _ => r

theorem agrees_step {r : InboxRun} {t : QueueRun} (h : Agrees r.inbox t.queue)
    (houtput : r.output = t.output) (call : LocalCall) :
    Agrees (r.step call).inbox (t.step call).queue ∧ (r.step call).output = (t.step call).output := by
  cases call with
  | push event now => exact ⟨h.pushAt event now, houtput⟩
  | popFront now =>
      obtain ⟨hpopped, hsame⟩ := h.popAt now
      exact ⟨hpopped, by simp only [InboxRun.step, QueueRun.step, houtput, hsame]⟩
  | drain now =>
      obtain ⟨hdrained, hall⟩ := h.drainReady now
      exact ⟨hdrained, by simp only [InboxRun.step, QueueRun.step, houtput, hall]⟩
  | setInterval interval => exact ⟨h.setInterval interval, houtput⟩

/-- **The inbox of local sources is the queue of pending events**: fed and emptied alike, both yield
the same sequence, and one is empty when the other is. -/
theorem inbox_refines_queue (calls : List LocalCall) :
    let r := Transition.exec InboxRun.step {} calls
    let t := Transition.exec QueueRun.step {} calls
    r.output = t.output ∧ r.inbox.hasPending = !t.queue.events.isEmpty := by
  intro r t
  have hboth : ∀ (calls : List LocalCall) (r : InboxRun) (t : QueueRun), Agrees r.inbox t.queue →
      r.output = t.output →
      Agrees (Transition.exec InboxRun.step r calls).inbox
          (Transition.exec QueueRun.step t calls).queue ∧
        (Transition.exec InboxRun.step r calls).output =
          (Transition.exec QueueRun.step t calls).output := by
    intro calls
    induction calls with
    | nil => exact fun r t h houtput => ⟨h, houtput⟩
    | cons call calls ih =>
        intro r t h houtput
        obtain ⟨hstep, hstepOutput⟩ := agrees_step h houtput call
        exact ih _ _ hstep hstepOutput
  obtain ⟨hagrees, houtput⟩ := hboth calls {} {} ⟨rfl, List.Forall₂.nil⟩ rfl
  refine ⟨houtput, ?_⟩
  have hempty : r.inbox.pending.isEmpty = t.queue.events.isEmpty := by
    rw [Bool.eq_iff_iff, List.isEmpty_iff_length_eq_zero, List.isEmpty_iff_length_eq_zero,
      hagrees.records.length_eq]
  rw [ClientPresentationInbox.hasPending, hempty]

end Client
