/-
**Every frame is accounted for.**

A mailbox counts what it is given and what becomes of it: a frame is selected, or superseded, stale or
invalidated, or still queued.  The counts of a source survive the mailboxes they come from.

Main definitions: `Reading`, `PresentationRun`.

Main results:

* `Reading.commit`, `Reading.drainReady` — a count of an inbox, push by push and
  opportunity by opportunity;
* `smoothing_keeps_order` — what smoothing does to a sequence, in whole runs.
-/

import Weld.JitterSmoothing

namespace Client

open Gamepad (Instant)
open Thinning PendingClientEvents PresentationQueueStats

/-! ### The counts of a mailbox -/

/-- The frames of which it is known what became of them. -/
def PresentationQueueStats.settled (stats : PresentationQueueStats) : ℕ :=
  stats.selected + stats.superseded + stats.stale + stats.invalidated

/-- A count that grows by `pushed` with every frame that a mailbox is given, and by `shown` with every
frame that is selected; `whole` is the count of a mailbox that is gone. -/
structure Reading (whole : PresentationQueueStats → ℕ)
    (queue : PresentationMailbox ClientSurfaceCommit → ℕ) (pushed shown : ℕ) : Prop where
  add : ∀ a b, whole (a + b) = whole a + whole b
  zero : whole {} = 0
  same : ∀ m m', m.stats = m'.stats → m.frames = m'.frames → queue m = queue m'
  empty : ∀ m, m.isEmpty = true → queue m = whole m.stats
  push : ∀ m commit now, queue (m.push commit now).1 = queue m + pushed
  keepLatest : ∀ m, queue m.keepLatest.1 = queue m
  clear : ∀ m, queue m.clear = queue m
  pop : ∀ m now, queue (m.pop now).1 = queue m + shown * (m.pop now).2.1.toList.length

namespace PresentationMailbox

variable {α : Type} (m : PresentationMailbox α)

/-- A frame is added, and the oldest one is superseded if there is no room. -/
theorem stats_push (item : α) (now : Instant) :
    (m.push item now).1.stats.submitted = m.stats.submitted + 1 ∧
      (m.push item now).1.stats.selected = m.stats.selected ∧
      (m.push item now).1.stats.settled + (m.push item now).1.frames.length =
        m.stats.settled + m.frames.length + 1 := by
  obtain ⟨first, second, age, stats, paced⟩ := m
  cases first with
  | none =>
      obtain rfl : second = none := by
        cases second with
        | none => rfl
        | some b => cases (paced rfl).1
      simp [push, frames, settled]
  | some a =>
      cases age with
      | none =>
          obtain rfl : second = none := by
            cases second with
            | none => rfl
            | some b => cases (paced rfl).2
          simp [push, frames, settled]
          omega
      | some limit =>
          cases second with
          | none => simp [push, frames, settled]
          | some b =>
              simp [push, frames, settled]
              omega

theorem stats_keepLatest :
    m.keepLatest.1.stats.submitted = m.stats.submitted ∧
      m.keepLatest.1.stats.selected = m.stats.selected ∧
      m.keepLatest.1.stats.settled + m.keepLatest.1.frames.length =
        m.stats.settled + m.frames.length := by
  obtain ⟨first, second, age, stats, paced⟩ := m
  cases second with
  | none => exact ⟨rfl, rfl, rfl⟩
  | some b =>
      obtain ⟨a, rfl⟩ := Option.isSome_iff_exists.mp (paced rfl).1
      simp [keepLatest, frames, settled]
      omega

theorem stats_clear :
    m.clear.stats.settled + m.clear.frames.length = m.stats.settled + m.frames.length := by
  simp only [clear, drain, frames, settled, Option.toList_none, List.map_nil,
    List.append_nil, List.length_nil]
  omega

theorem stats_dropStale (now : Instant) :
    (m.dropStale now).1.stats.submitted = m.stats.submitted ∧
      (m.dropStale now).1.stats.selected = m.stats.selected ∧
      (m.dropStale now).1.stats.settled + (m.dropStale now).1.frames.length =
        m.stats.settled + m.frames.length := by
  unfold dropStale
  split_ifs with hstale
  · have hboth : m.second.isSome = true := by
      exact (Bool.and_eq_true_iff.mp hstale).1
    obtain ⟨a, hfirst⟩ := Option.isSome_iff_exists.mp (m.paced hboth).1
    obtain ⟨b, hsecond⟩ := Option.isSome_iff_exists.mp hboth
    refine ⟨rfl, rfl, ?_⟩
    simp only [frames, hfirst, hsecond, settled, Option.toList_some,
      Option.toList_none, List.map_cons, List.map_nil, List.append_nil, List.length_append,
      List.length_cons, List.length_nil]
    omega
  · exact ⟨rfl, rfl, rfl⟩

theorem stats_advance :
    m.advance.stats.selected = m.stats.selected + m.first.toList.length ∧
      m.advance.stats.settled + m.advance.frames.length = m.stats.settled + m.frames.length := by
  refine ⟨rfl, ?_⟩
  simp only [advance, frames, settled, Option.toList_none, List.map_nil,
    List.append_nil, List.length_append, List.length_map]
  omega

theorem length_shown (now : Instant) :
    (m.pop now).2.1.toList.length = (m.dropStale now).1.first.toList.length := by
  change ((m.dropStale now).1.first.map (·.2)).toList.length = _
  cases (m.dropStale now).1.first with
  | none | some => rfl

end PresentationMailbox

/-! ### What is counted -/

theorem settled_add (a b : PresentationQueueStats) : (a + b).settled = a.settled + b.settled := by
  change (a.selected + b.selected) + (a.superseded + b.superseded) + (a.stale + b.stale) +
    (a.invalidated + b.invalidated) = _
  simp only [settled]
  omega

/-- The frames that were submitted. -/
theorem reading_submitted : Reading (·.submitted) (fun queue => queue.stats.submitted) 1 0 where
  add _ _ := rfl
  zero := rfl
  same _ _ hstats _ := congrArg _ hstats
  empty _ _ := rfl
  push m commit now := (m.stats_push commit now).1
  keepLatest m := m.stats_keepLatest.1
  clear _ := rfl
  pop m now := by
    rw [Nat.zero_mul]
    exact (m.stats_dropStale now).1

/-- The frames that were selected. -/
theorem reading_selected : Reading (·.selected) (fun queue => queue.stats.selected) 0 1 where
  add _ _ := rfl
  zero := rfl
  same _ _ hstats _ := congrArg _ hstats
  empty _ _ := rfl
  push m commit now := (m.stats_push commit now).2.1
  keepLatest m := m.stats_keepLatest.2.1
  clear _ := rfl
  pop m now := by
    rw [Nat.one_mul, m.length_shown, ← (m.stats_dropStale now).2.1]
    exact ((m.dropStale now).1.stats_advance).1

/-- The frames that are settled or queued: every one that was submitted. -/
theorem reading_settled :
    Reading (·.settled) (fun queue => queue.stats.settled + queue.frames.length) 1 0 where
  add := settled_add
  zero := rfl
  same m m' hstats hframes := by rw [hstats, hframes]
  empty m hempty := by rw [PresentationMailbox.frames_eq_nil_iff.mpr hempty]; rfl
  push m commit now := (m.stats_push commit now).2.2
  keepLatest m := m.stats_keepLatest.2.2
  clear m := m.stats_clear
  pop m now := by
    rw [Nat.zero_mul, Nat.add_zero, ← (m.stats_dropStale now).2.2]
    exact ((m.dropStale now).1.stats_advance).2

/-! ### The counts of a source -/

/-- What the record adds to the count of a source. -/
def InboxRecord.weight (source : ClientSourceId)
    (queue : PresentationMailbox ClientSurfaceCommit → ℕ) : InboxRecord → ℕ
  | event _ => 0
  | frames surface found _ => if surface.source = source then queue found else 0

/-- The count of a source: of what is gone, and of what is queued. -/
def countOf (source : ClientSourceId) (whole : PresentationQueueStats → ℕ)
    (queue : PresentationMailbox ClientSurfaceCommit → ℕ) (inbox : ClientPresentationInbox) : ℕ :=
  whole ((inbox.completed.lookup source).getD {}) + (inbox.pending.map (·.weight source queue)).sum

/-- The statistics of a source add up. -/
theorem whole_statsForSource {whole : PresentationQueueStats → ℕ}
    (hadd : ∀ a b, whole (a + b) = whole a + whole b) (inbox : ClientPresentationInbox)
    (source : ClientSourceId) :
    whole (inbox.statsForSource source) =
      countOf source whole (fun queue => whole queue.stats) inbox := by
  unfold ClientPresentationInbox.statsForSource countOf
  generalize (inbox.completed.lookup source).getD {} = result
  induction inbox.pending generalizing result with
  | nil => rfl
  | cons record pending ih =>
      rw [List.foldl_cons, ih, List.map_cons, List.sum_cons]
      cases record with
      | event e => simp [InboxRecord.weight]
      | frames surface queue barrier =>
          simp only [InboxRecord.weight]
          split_ifs
          · rw [hadd]
            omega
          · omega

/-- The commits of a source among events. -/
def commitCount (source : ClientSourceId) (events : List ClientSurfaceEvent) : ℕ :=
  events.countP fun event => isCommit event && decide (event.surface.source = source)

@[simp] theorem commitCount_append (source : ClientSourceId)
    (events more : List ClientSurfaceEvent) :
    commitCount source (events ++ more) = commitCount source events + commitCount source more :=
  List.countP_append

/-- Commits are queued in mailboxes only. -/
def Boxed (inbox : ClientPresentationInbox) : Prop :=
  ∀ event, .event event ∈ inbox.pending → isCommit event = false

theorem Boxed.popAt {inbox : ClientPresentationInbox} (h : Boxed inbox) (now : Instant) : Boxed (inbox.popAt now).1 := by
  unfold ClientPresentationInbox.popAt
  split
  · exact h
  · rename_i event rest hpending
    exact fun e he => h e (by rw [hpending]; exact List.mem_cons_of_mem _ he)
  · rename_i surface found barrier rest hpending
    have hrest : ∀ e, .event e ∈ rest → isCommit e = false :=
      fun e he => h e (by rw [hpending]; exact List.mem_cons_of_mem _ he)
    unfold ClientPresentationInbox.finishPop
    split_ifs
    · exact hrest
    · intro e he
      rcases List.mem_append.mp he with he | he
      · exact hrest e he
      · cases List.mem_singleton.mp he

namespace Reading

variable {whole : PresentationQueueStats → ℕ}
  {queue : PresentationMailbox ClientSurfaceCommit → ℕ} {pushed shown : ℕ}
  {inbox : ClientPresentationInbox} {source : ClientSourceId}

variable
  {f : ClientSurfaceId → PresentationMailbox ClientSurfaceCommit → PresentationMailbox ClientSurfaceCommit}
  {conforms : Prop}

/-- Changes that leave the count of every mailbox alone. -/
theorem mapQueue
    (hf : ∀ surface found, queue (f surface found) = queue found) (records : List InboxRecord) :
    ((records.map fun record => record.mapQueue f).map fun record => record.weight source queue).sum =
      (records.map fun record => record.weight source queue).sum := by
  rw [List.map_map]
  refine congrArg List.sum (List.map_congr_left fun record _ => ?_)
  cases record with
  | event e => rfl
  | frames surface found barrier =>
      simp only [Function.comp_apply, InboxRecord.mapQueue, InboxRecord.weight, hf]

section

variable (h : Reading whole queue pushed shown)
include h

theorem collapseHistory (inbox : ClientPresentationInbox) (source : ClientSourceId) :
    countOf source whole queue inbox.collapseHistory = countOf source whole queue inbox := by
  unfold countOf
  exact congrArg _ (mapQueue (fun _ found => h.keepLatest found) inbox.pending)

theorem collapsedFor (barrier : Bool) :
    countOf source whole queue (inbox.collapsedFor barrier) = countOf source whole queue inbox := by
  unfold ClientPresentationInbox.collapsedFor
  split_ifs
  · exact h.collapseHistory inbox source
  · rfl

/-- A mailbox that nothing was put into counts nothing. -/
theorem mailboxFor (surface : ClientSurfaceId) : queue (inbox.mailboxFor surface) = 0 := by
  rw [← h.zero, ← h.empty {} rfl]
  unfold ClientPresentationInbox.mailboxFor
  split
  · exact h.same _ _ rfl rfl
  · rfl

theorem enqueue (found : PresentationMailbox ClientSurfaceCommit) (commit : ClientSurfaceCommit)
    (now : Instant) : queue (enqueueCommit found commit now) = queue found + pushed := by
  unfold enqueueCommit
  split_ifs
  · rw [h.push, h.clear]
  · exact h.push found commit now

/-- **A commit counts once, for the source of its surface.** -/
theorem commit (hsound : ∀ record ∈ inbox.pending, record.Sound conforms) (surface : ClientSurfaceId)
    (commit : ClientSurfaceCommit) (now : Instant) :
    countOf source whole queue (inbox.commit surface commit now) =
      countOf source whole queue inbox + if surface.source = source then pushed else 0 := by
  rcases commit_cases surface commit now hsound with
    ⟨before, found, barrier, after, old, hpending, -, -, -, heq⟩ | ⟨barrier, -, heq⟩
  · rw [heq]
    simp only [countOf, hpending]
    split_ifs with hbarrier hsource
    · simp [InboxRecord.weight, h.enqueue, hsource]
      omega
    · simp [InboxRecord.weight, hsource]
    · simp [InboxRecord.weight, h.enqueue, *]
      omega
    · simp [InboxRecord.weight, *]
  · have hcollapsed : countOf source whole queue (inbox.collapsedFor barrier) =
        countOf source whole queue inbox := h.collapsedFor barrier
    rw [heq, ← hcollapsed]
    simp only [countOf, List.map_append, List.sum_append, List.map_cons, List.map_nil, List.sum_cons,
      List.sum_nil, InboxRecord.weight, h.push, h.mailboxFor, Nat.zero_add, Nat.add_zero]
    omega

omit h in
/-- What is not a commit counts nothing. -/
theorem pushMetadata (surface : ClientSurfaceId) (metadata : ClientSurfaceMetadata) :
    countOf source whole queue (inbox.pushMetadata ⟨surface, .metadata metadata⟩) =
      countOf source whole queue inbox := by
  rcases pushMetadata_cases inbox surface metadata with heq | ⟨before, target, old, after, hpending, heq⟩
  · rw [heq]
    simp [countOf, InboxRecord.weight]
  · rw [heq]
    simp [countOf, hpending, InboxRecord.weight]

theorem pushAt (hsound : ∀ record ∈ inbox.pending, record.Sound conforms) (event : ClientSurfaceEvent)
    (now : Instant) :
    countOf source whole queue (inbox.pushAt event now).1 =
      countOf source whole queue inbox + pushed * commitCount source [event] := by
  have hnoted : countOf source whole queue (inbox.noteMapped event) =
      countOf source whole queue inbox := by
    unfold ClientPresentationInbox.noteMapped
    split <;> rfl
  have hnotedSound : ∀ record ∈ (inbox.noteMapped event).pending, record.Sound conforms := by
    unfold ClientPresentationInbox.noteMapped
    split <;> exact hsound
  have hcontrol : countOf source whole queue
      { (inbox.noteMapped event).collapseHistory with
        pending := (inbox.noteMapped event).collapseHistory.pending ++ [.event event] } =
      countOf source whole queue inbox := by
    have hcollapsed := h.collapseHistory (inbox.noteMapped event) source
    rw [← hnoted, ← hcollapsed]
    simp [countOf, InboxRecord.weight]
  obtain ⟨surface, kind⟩ := event
  cases kind with
  | commit commit =>
      have hcommit : countOf source whole queue
          ((inbox.noteMapped ⟨surface, .commit commit⟩).commit surface commit now) =
          countOf source whole queue (inbox.noteMapped ⟨surface, .commit commit⟩) +
            if surface.source = source then pushed else 0 :=
        h.commit hnotedSound surface commit now
      rw [hnoted] at hcommit
      simp only [ClientPresentationInbox.pushAt, hcommit, commitCount]
      by_cases hsource : surface.source = source <;> simp [isCommit, hsource]
  | metadata metadata =>
      simp only [ClientPresentationInbox.pushAt]
      rw [pushMetadata, hnoted]
      simp [commitCount, isCommit]
  | role | interaction | stateRequest | destroyed => exact hcontrol

/-- **A selection counts once, for the source of the surface.** -/
theorem popAt (hboxed : Boxed inbox) (now : Instant) :
    countOf source whole queue (inbox.popAt now).1 =
      countOf source whole queue inbox + shown * commitCount source (inbox.popAt now).2.toList := by
  unfold ClientPresentationInbox.popAt
  split
  · simp [commitCount]
  · rename_i event rest hpending
    have hcommit : isCommit event = false := hboxed event (by rw [hpending]; exact List.mem_cons_self)
    simp [countOf, hpending, InboxRecord.weight, commitCount, hcommit]
  · rename_i surface found barrier rest hpending
    have hpop := h.pop found now
    have hcount : commitCount source (((found.pop now).2.1.map fun commit =>
          (⟨surface, .commit commit⟩ : ClientSurfaceEvent)).toList) =
        if surface.source = source then (found.pop now).2.1.toList.length else 0 := by
      cases (found.pop now).2.1 with
      | none => simp [commitCount]
      | some commit =>
          by_cases hsource : surface.source = source <;> simp [commitCount, isCommit, hsource]
    have hbefore : countOf source whole queue inbox =
        whole ((inbox.completed.lookup source).getD {}) +
          ((if surface.source = source then queue found else 0) +
            (rest.map fun record => record.weight source queue).sum) := by
      simp [countOf, hpending, InboxRecord.weight]
    rw [hcount, hbefore]
    unfold ClientPresentationInbox.finishPop
    by_cases hsource : surface.source = source
    · subst hsource
      rw [if_pos rfl, if_pos rfl]
      split_ifs with hempty
      · -- what the mailbox counted is kept
        have hgone := h.empty _ hempty
        simp only [countOf, AList.lookup_insert_eq, if_true, Option.getD_some, h.add]
        omega
      · simp only [countOf, List.map_append, List.map_cons, List.map_nil, List.sum_append,
          List.sum_cons, List.sum_nil, InboxRecord.weight, if_true]
        omega
    · rw [if_neg hsource, if_neg hsource]
      split_ifs with hempty
      · simp [countOf, Ne.symm hsource]
      · simp [countOf, InboxRecord.weight, hsource]

theorem popMany (hboxed : Boxed inbox) (now : Instant) (count : ℕ) :
    countOf source whole queue (inbox.popMany now count).1 =
      countOf source whole queue inbox +
        shown * commitCount source (inbox.popMany now count).2 := by
  induction count generalizing inbox with
  | zero => simp [ClientPresentationInbox.popMany, commitCount]
  | succ count ih =>
      have hpop : countOf source whole queue (inbox.popAt now).1 =
          countOf source whole queue inbox +
            shown * commitCount source (inbox.popAt now).2.toList := h.popAt hboxed now
      have hrest := ih (hboxed.popAt now)
      simp only [ClientPresentationInbox.popMany, commitCount_append, Nat.mul_add]
      omega

theorem sameFrames (hstats : ∀ surface found, (f surface found).stats = found.stats)
    (hframes : ∀ surface found, (f surface found).frames = found.frames) (records : List InboxRecord) :
    ((records.map fun record => record.mapQueue f).map fun record => record.weight source queue).sum =
      (records.map fun record => record.weight source queue).sum :=
  mapQueue (fun surface found => h.same _ _ (hstats surface found) (hframes surface found)) records

end

end Reading

/-! ### Whole runs -/

/-- What a presenter does. -/
inductive PresentationCall
  | push (event : ClientSurfaceEvent) (now : Instant)
  | smoothSource (source : ClientSourceId) (interval : Duration)
  | setInterval (interval : Duration)
  | drainReady (now : Instant)

structure PresentationRun where
  inbox : ClientPresentationInbox := {}
  pushed : List ClientSurfaceEvent := []
  drained : List ClientSurfaceEvent := []

def PresentationRun.step (r : PresentationRun) : PresentationCall → PresentationRun
  | .push event now =>
      { r with inbox := (r.inbox.pushAt event now).1, pushed := r.pushed ++ [event] }
  | .smoothSource source interval => { r with inbox := r.inbox.smoothSource source interval }
  | .setInterval interval => { r with inbox := r.inbox.setInterval interval }
  | .drainReady now =>
      { r with inbox := (r.inbox.drainReady now).1, drained := r.drained ++ (r.inbox.drainReady now).2 }

theorem enableSmoothing_frames (source : ClientSourceId) (interval : Duration)
    (surface : ClientSurfaceId) (found : PresentationMailbox ClientSurfaceCommit) :
    (if surface.source = source then found.enableSmoothing interval else found).frames =
        found.frames ∧
      (if surface.source = source then found.enableSmoothing interval else found).stats =
        found.stats := by
  split_ifs
  · exact ⟨rfl, rfl⟩
  · exact ⟨rfl, rfl⟩

/-- What holds in a run; as long as its source conforms, frames have the buffers they need. -/
structure PresentationRun.Sound (r : PresentationRun) : Prop where
  smoothed : ∀ conforms : Prop, (conforms → Conforms (unscoped r.pushed)) →
    Smoothed conforms r.pushed r.drained r.inbox.pending
  counted : ∀ whole queue pushed shown source, Reading whole queue pushed shown →
    countOf source whole queue r.inbox =
      pushed * commitCount source r.pushed + shown * commitCount source r.drained

theorem PresentationRun.Sound.step {r : PresentationRun} (h : r.Sound) (call : PresentationCall) :
    (r.step call).Sound := by
  have hsound := (h.smoothed False False.elim).sound
  cases call with
  | push event now =>
      refine ⟨fun conforms hconforms => ?_, fun whole queue pushed shown source hreading => ?_⟩
      · refine (h.smoothed conforms fun hc => ?_).pushAt event now hconforms
        have hall := hconforms hc
        simp only [PresentationRun.step, unscoped_concat] at hall
        exact hall.of_append
      · have hpush : countOf source whole queue (r.inbox.pushAt event now).1 =
            countOf source whole queue r.inbox + pushed * commitCount source [event] :=
          hreading.pushAt hsound event now
        simp only [PresentationRun.step, hpush, h.counted _ _ _ _ source hreading,
          commitCount_append, Nat.mul_add]
        omega
  | smoothSource source interval =>
      refine ⟨fun conforms hconforms => ?_, fun whole queue pushed shown target hreading => ?_⟩
      · exact (h.smoothed conforms hconforms).mapQueue fun surface found =>
          (enableSmoothing_frames source interval surface found).1
      · refine Eq.trans ?_ (h.counted whole queue pushed shown target hreading)
        unfold countOf
        exact congrArg _ (hreading.sameFrames
          (fun surface found => (enableSmoothing_frames source interval surface found).2)
          (fun surface found => (enableSmoothing_frames source interval surface found).1)
          r.inbox.pending)
  | setInterval interval =>
      refine ⟨fun conforms hconforms => ?_, fun whole queue pushed shown target hreading => ?_⟩
      · exact (h.smoothed conforms hconforms).mapQueue fun _ _ => rfl
      · refine Eq.trans ?_ (h.counted whole queue pushed shown target hreading)
        unfold countOf
        exact congrArg _ (hreading.sameFrames (f := fun _ found => found.setInterval interval)
          (fun _ _ => rfl) (fun _ _ => rfl) r.inbox.pending)
  | drainReady now =>
      refine ⟨fun conforms hconforms => ?_, fun whole queue pushed shown source hreading => ?_⟩
      · exact ((h.smoothed conforms hconforms).drainReady now).1
      · have hdrain : countOf source whole queue (r.inbox.drainReady now).1 =
            countOf source whole queue r.inbox +
              shown * commitCount source (r.inbox.drainReady now).2 :=
          hreading.popMany (fun event hevent => hsound _ hevent) now _
        simp only [PresentationRun.step, hdrain, h.counted _ _ _ _ source hreading,
          commitCount_append, Nat.mul_add]
        omega

theorem PresentationRun.sound (calls : List PresentationCall) :
    (Transition.exec PresentationRun.step {} calls).Sound := by
  refine Transition.exec_invariant (fun r call h => h.step call) ?_ calls
  refine ⟨fun conforms _ => ⟨fun surface => Thinned.nil, List.Pairwise.nil, ?_⟩,
    fun whole queue pushed shown source hreading => ?_⟩
  · exact fun record hrecord => absurd hrecord List.not_mem_nil
  · simp [countOf, hreading.zero, commitCount]

/-! ### What smoothing does to a sequence -/

/-- Nothing is merged across: one of the items at the boundary is a control, or the mapping changes. -/
def Boundary (before after : List ShownItem) : Prop :=
  ∀ x ∈ before.getLast?, ∀ y ∈ after.head?, x.mapping = y.mapping → y.mapping = none

/-- What is shown was pushed, in that order; nothing from before a boundary comes after it. -/
structure KeepsOrder (pushed shown : List ShownItem) : Prop where
  order : (shown.map (·.outline)).Sublist (pushed.map (·.outline))
  segments : ∀ before after, pushed = before ++ after → Boundary before after →
    ∃ front back, shown = front ++ back ∧
      (front.map (·.outline)).Sublist (before.map (·.outline)) ∧
      (back.map (·.outline)).Sublist (after.map (·.outline))

/-- What is pushed last before a boundary, or at all, is shown last before it, or at all. -/
def KeepsEnds (pushed shown : List ShownItem) : Prop :=
  ∀ before after, pushed = before ++ after → Boundary before after →
    ∃ front back, shown = front ++ back ∧
      (front.map (·.outline)).Sublist (before.map (·.outline)) ∧
      (back.map (·.outline)).Sublist (after.map (·.outline)) ∧
      front.getLast?.map (·.outline) = before.getLast?.map (·.outline) ∧
      back.getLast?.map (·.outline) = after.getLast?.map (·.outline)

/-- The frames of a source that are queued. -/
def ClientPresentationInbox.queuedFrames (inbox : ClientPresentationInbox)
    (source : ClientSourceId) : ℕ :=
  (inbox.pending.map (·.weight source fun queue => queue.frames.length)).sum

variable {conforms : Prop} {pushed shown : List ShownItem}

theorem Selected.keepsEnds (h : Selected conforms pushed shown) : KeepsEnds pushed shown := by
  intro before after hpushed hboundary
  obtain ⟨front, back, hshown, hfront, hback⟩ :=
    h.split (fun _ _ hnew => hnew.mapping_eq) ShownItem.mapping_merge hpushed hboundary
  exact ⟨front, back, hshown, hfront.sublist ShownItem.outline_merge,
    hback.sublist ShownItem.outline_merge, hfront.getLast?_eq ShownItem.outline_merge,
    hback.getLast?_eq ShownItem.outline_merge⟩

/-- What is settled, and what is queued. -/
theorem settled_statsForSource (inbox : ClientPresentationInbox) (source : ClientSourceId) :
    countOf source (·.settled) (fun queue => queue.stats.settled + queue.frames.length) inbox =
      (inbox.statsForSource source).settled + inbox.queuedFrames source := by
  rw [whole_statsForSource settled_add]
  unfold countOf ClientPresentationInbox.queuedFrames
  rw [Nat.add_assoc]
  refine congrArg _ ?_
  induction inbox.pending with
  | nil => rfl
  | cons record pending ih =>
      simp only [List.map_cons, List.sum_cons, ih]
      cases record with
      | event e =>
          simp only [InboxRecord.weight]
          omega
      | frames surface queue barrier =>
          simp only [InboxRecord.weight]
          split_ifs
          · omega
          · omega

/-- An initial part of what is selected keeps the order as well. -/
theorem Selected.keepsOrder {waiting : List ShownItem} (h : Selected conforms pushed (shown ++ waiting)) :
    KeepsOrder pushed shown := by
  refine ⟨?_, fun before after hpushed hboundary => ?_⟩
  · have hall := h.sublist ShownItem.outline_merge
    rw [List.map_append] at hall
    exact (List.sublist_append_left _ _).trans hall
  · obtain ⟨front, back, hshown, hfront, hback, -, -⟩ :=
      Selected.keepsEnds h before after hpushed hboundary
    rcases List.append_eq_append_iff.mp hshown with ⟨middle, rfl, -⟩ | ⟨middle, rfl, rfl⟩
    · rw [List.map_append] at hfront
      exact ⟨shown, [], by simp, (List.sublist_append_left _ _).trans hfront, List.nil_sublist _⟩
    · rw [List.map_append] at hback
      exact ⟨front, middle, rfl, hfront, (List.sublist_append_left _ _).trans hback⟩

/-- **Smoothing keeps the order, the ends and the counts.**  At any time of any run, what has been
drained of a surface is in order and never from before a boundary after it; two more opportunities
empty the inbox and deliver the end of every segment; if commits retain only what is there, each shows
what was pushed up to it; and every frame of a source is settled or queued. -/
theorem smoothing_keeps_order (calls : List PresentationCall) :
    let r := Transition.exec PresentationRun.step {} calls
    (∀ surface, KeepsOrder (viewOf surface r.pushed) (viewOf surface r.drained)) ∧
      (∀ first second,
        let done := (r.step (.drainReady first)).step (.drainReady second)
        done.inbox.hasPending = false ∧
          ∀ surface, KeepsEnds (viewOf surface r.pushed) (viewOf surface done.drained)) ∧
      (Conforms (unscoped r.pushed) → ∀ surface shown,
        (trace ShownItem.contents ShownItem.outline shown (viewOf surface r.drained)).Sublist
          (trace ShownItem.contents ShownItem.outline shown (viewOf surface r.pushed))) ∧
      ∀ source,
        let stats := r.inbox.statsForSource source
        stats.submitted = stats.selected + stats.superseded + stats.stale + stats.invalidated +
            r.inbox.queuedFrames source ∧
          stats.submitted = commitCount source r.pushed ∧
          stats.selected = commitCount source r.drained := by
  intro r
  have hr : r.Sound := PresentationRun.sound calls
  have hsmoothed := hr.smoothed False False.elim
  refine ⟨fun surface => Selected.keepsOrder (hsmoothed.selected surface), fun first second => ?_,
    fun hconforms surface shown => ?_, fun source => ?_⟩
  · intro done
    obtain ⟨hfirst, hsingle, -⟩ := hsmoothed.drainReady first
    obtain ⟨hsecond, -, hempty⟩ := hfirst.drainReady second
    have hdone : done.inbox.pending = [] := hempty hsingle
    refine ⟨by simp [ClientPresentationInbox.hasPending, hdone], fun surface => ?_⟩
    have hall : Selected False (viewOf surface r.pushed)
        (viewOf surface done.drained ++ queued surface done.inbox.pending) :=
      hsecond.selected surface
    rw [hdone, queued_nil, List.append_nil] at hall
    exact Selected.keepsEnds hall
  · have hall := (hr.smoothed True fun _ => hconforms).selected surface
    have hmerge : ∀ old new, ShownItem.Continues True old new → ∀ x,
        ShownItem.contents x (ShownItem.merge new old) =
          ShownItem.contents (ShownItem.contents x old) new := by
      intro old new hnew x
      cases old with
      | control event => exact hnew.elim
      | commit previous =>
          cases new with
          | control event => exact hnew.elim
          | commit current => exact ClientSurfaceCommit.contents_carry (hnew.2 trivial) x
    have hagain : ∀ x item, ShownItem.contents (ShownItem.contents x item) item =
        ShownItem.contents x item := by
      intro x item
      cases item with
      | control event => rfl
      | commit c => exact c.contents_again x
    have htrace := hall.trace_sublist ShownItem.outline_merge hmerge hagain shown
    rw [trace_append] at htrace
    exact (List.sublist_append_left _ _).trans htrace
  · have hsubmitted := hr.counted _ _ _ _ source reading_submitted
    have hselected := hr.counted _ _ _ _ source reading_selected
    have hsettled := hr.counted _ _ _ _ source reading_settled
    rw [← whole_statsForSource reading_submitted.add] at hsubmitted
    rw [← whole_statsForSource reading_selected.add] at hselected
    rw [settled_statsForSource] at hsettled
    unfold settled at hsettled
    refine ⟨?_, ?_, ?_⟩
    · omega
    · omega
    · omega

/-- Two frames of a smoothed source, taken one by one. -/
theorem smoothing_keeps_order_of_pair :
    let surface : ClientSurfaceId := ⟨⟨0, 0⟩, 1⟩
    let metadata : ClientBufferMetadata := ⟨{}, true⟩
    let first : ClientSurfaceCommit :=
      { revision := 1, mapped := true, buffers := [⟨1, .replaced metadata ⟨⟨0, 1⟩, ⟨0, 1⟩⟩⟩] }
    let second : ClientSurfaceCommit :=
      { revision := 2, mapped := true, buffers := [⟨1, .retained metadata⟩] }
    let calls : List PresentationCall :=
      [.smoothSource 0 (8 * 10 ^ 6), .push ⟨surface, .commit first⟩ 0,
        .push ⟨surface, .commit second⟩ 1, .drainReady 2]
    let r := Transition.exec PresentationRun.step {} calls
    r.drained.length = 1 ∧ r.inbox.hasPending = true ∧
      ((r.step (.drainReady 3)).step (.drainReady 4)).inbox.hasPending = false ∧
      ∀ shown, (trace ShownItem.contents ShownItem.outline shown (viewOf surface r.drained)).Sublist
        (trace ShownItem.contents ShownItem.outline shown (viewOf surface r.pushed)) := by
  intro surface metadata first second calls r
  obtain ⟨-, hempty, hcontents, -⟩ := smoothing_keeps_order calls
  refine ⟨by decide, by decide, (hempty 3 4).1, fun shown => hcontents ?_ surface shown⟩
  have hpushed : unscoped r.pushed =
      [] ++ [((), ⟨surface, .commit first⟩)] ++ [((), ⟨surface, .commit second⟩)] := by decide
  rw [hpushed]
  refine (History.Each.concat History.each_nil ?_).concat ?_
  · intro commit _ previous hprevious
    cases hprevious
  · intro commit hcommit previous hprevious _ _ update hupdate _
    cases hcommit
    cases hprevious
    obtain rfl := List.mem_singleton.mp hupdate
    exact ⟨.replaced metadata ⟨⟨0, 1⟩, ⟨0, 1⟩⟩, rfl, by simp⟩

/-- The revision of an item, and whether the layer has a buffer after it. -/
def glance (entry : (ShownItem × Set SurfaceLayerId) × LayerContents) : Option ℕ × Bool :=
  (match entry.1.1 with
    | .commit c => some c.revision
    | .control _ => none, (entry.2 1).isSome)

/-- A frame that retains a layer which the frame before it left out brings the layer back if that one
is skipped. -/
theorem smoothing_shows_dropped_layer :
    let surface : ClientSurfaceId := ⟨⟨0, 0⟩, 1⟩
    let metadata : ClientBufferMetadata := ⟨{}, true⟩
    let first : ClientSurfaceCommit :=
      { revision := 1, mapped := true, buffers := [⟨1, .replaced metadata ⟨⟨0, 1⟩, ⟨0, 1⟩⟩⟩] }
    let second : ClientSurfaceCommit := { revision := 2, mapped := true, buffers := [] }
    let third : ClientSurfaceCommit :=
      { revision := 3, mapped := true, buffers := [⟨1, .retained metadata⟩] }
    let calls : List PresentationCall :=
      [.push ⟨surface, .commit first⟩ 0, .drainReady 1, .push ⟨surface, .commit second⟩ 2,
        .push ⟨surface, .commit third⟩ 3, .drainReady 4]
    let r := Transition.exec PresentationRun.step {} calls
    ¬ (trace ShownItem.contents ShownItem.outline (fun _ => none) (viewOf surface r.drained)).Sublist
      (trace ShownItem.contents ShownItem.outline (fun _ => none) (viewOf surface r.pushed)) := by
  intro surface metadata first second third calls r hsublist
  have hglance := hsublist.map glance
  have hshown : (trace ShownItem.contents ShownItem.outline (fun _ => none)
      (viewOf surface r.drained)).map glance = [(some 1, true), (some 3, true)] := by decide
  have hpushed : (trace ShownItem.contents ShownItem.outline (fun _ => none)
      (viewOf surface r.pushed)).map glance =
      [(some 1, true), (some 2, false), (some 3, false)] := by decide
  rw [hshown, hpushed] at hglance
  exact absurd hglance (by decide)

end Client
