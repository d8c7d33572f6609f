/-
**The presentation inbox.**

A presenter takes frames at its own pace.  `mailbox.rs` holds at most two frames of a surface: the one
to show next, and one more if the source is smoothed, so that frames that arrive in pairs are shown
one by one.  `presenter.rs` keeps such mailboxes in one queue with the records that may not be merged,
and plans insertions as `PendingEvents` does.

Main definitions: `PresentationMailbox`, `PlanRecord`, `planRecords`, `ClientPresentationInbox`.

Main results:

* `PresentationMailbox.frames_push`, `PresentationMailbox.frames_keepLatest`,
  `PresentationMailbox.frames_pop` — what becomes of the frames;
* `plan_eq_planRecords` — both queues plan alike.
-/

import Mathlib.Data.Finset.Erase
import Mathlib.Data.Finset.Insert
import Weld.Dict
import Weld.Gamepad
import Weld.PendingEvents

namespace Client

open Gamepad (Instant)

/-- Nanoseconds. -/
abbrev Duration := ℕ

/-! ### The mailbox -/

/-- What became of the frames of a queue. -/
structure PresentationQueueStats where
  submitted : ℕ := 0
  selected : ℕ := 0
  superseded : ℕ := 0
  stale : ℕ := 0
  invalidated : ℕ := 0
  deriving DecidableEq

instance : Add PresentationQueueStats where
  add a b :=
    { submitted := a.submitted + b.submitted
      selected := a.selected + b.selected
      superseded := a.superseded + b.superseded
      stale := a.stale + b.stale
      invalidated := a.invalidated + b.invalidated }

/-- A second frame waits behind a first one, and only while an age limit is set. -/
structure PresentationMailbox (α : Type) where
  first : Option (Instant × α) := none
  second : Option (Instant × α) := none
  maximumAge : Option Duration := none
  stats : PresentationQueueStats := {}
  paced : second.isSome = true → first.isSome = true ∧ maximumAge.isSome = true := by simp

namespace PresentationMailbox

variable {α : Type}

def ageLimit (interval : Duration) : Duration := min (2 * interval) (34 * 10 ^ 6)

def smoothing (interval : Duration) : PresentationMailbox α :=
  { maximumAge := some (ageLimit interval) }

def enableSmoothing (m : PresentationMailbox α) (interval : Duration) : PresentationMailbox α :=
  { m with
    maximumAge := some (ageLimit interval)
    paced := fun h => ⟨(m.paced h).1, rfl⟩ }

/-- Only a mailbox that is smoothed has an age limit to change. -/
def setInterval (m : PresentationMailbox α) (interval : Duration) : PresentationMailbox α :=
  { m with
    maximumAge := m.maximumAge.map fun _ => ageLimit interval
    paced := fun h => ⟨(m.paced h).1, by simpa using (m.paced h).2⟩ }

def isEmpty (m : PresentationMailbox α) : Bool := m.first.isNone

/-- The frames, the oldest first. -/
def frames (m : PresentationMailbox α) : List α :=
  m.first.toList.map (·.2) ++ m.second.toList.map (·.2)

def newest (m : PresentationMailbox α) : Option α := (m.second.or m.first).map (·.2)

/-- The oldest frame gives way when there is no room; it is returned. -/
def push (m : PresentationMailbox α) (item : α) (now : Instant) : PresentationMailbox α × Option α :=
  let stats := { m.stats with submitted := m.stats.submitted + 1 }
  if h : m.first.isNone = true ∨ m.maximumAge.isNone = true then
    ({ m with
        first := some (now, item)
        stats := { stats with superseded := stats.superseded + m.first.toList.length }
        paced := fun hsecond => ⟨rfl, (m.paced hsecond).2⟩ },
      m.first.map (·.2))
  else
    have hage : m.maximumAge.isSome = true := by
      rw [not_or, Option.isNone_iff_eq_none, Option.isNone_iff_eq_none] at h
      exact Option.isSome_iff_ne_none.mpr h.2
    match hsecond : m.second with
    | none =>
        ({ m with
            second := some (now, item)
            stats := stats
            paced := fun _ => ⟨by simpa [Option.isSome_iff_ne_none] using (not_or.mp h).1, hage⟩ },
          none)
    | some waiting =>
        ({ m with
            first := some waiting
            second := some (now, item)
            stats := { stats with superseded := stats.superseded + 1 }
            paced := fun _ => ⟨rfl, hage⟩ }, m.first.map (·.2))

/-- Collapse history to the newest frame. -/
def keepLatest (m : PresentationMailbox α) : PresentationMailbox α × Option α :=
  match m.second with
  | none => (m, none)
  | some waiting =>
      ({ m with
          first := some waiting
          second := none
          stats := { m.stats with invalidated := m.stats.invalidated + 1 }
          paced := by simp }, m.first.map (·.2))

def drain (m : PresentationMailbox α) : PresentationMailbox α × List α :=
  ({ m with
      first := none
      second := none
      stats := { m.stats with invalidated := m.stats.invalidated + m.frames.length }
      paced := by simp }, m.frames)

def clear (m : PresentationMailbox α) : PresentationMailbox α := m.drain.1

/-- The first frame is stale: another one waits, and it is too old. -/
def isStale (m : PresentationMailbox α) (now : Instant) : Bool :=
  m.second.isSome && m.first.any fun frame =>
    m.maximumAge.any fun limit => decide (limit < now - frame.1)

def dropStale (m : PresentationMailbox α) (now : Instant) : PresentationMailbox α × Option α :=
  if m.isStale now then
    ({ m with
        first := m.second
        second := none
        stats := { m.stats with stale := m.stats.stale + 1 }
        paced := by simp }, m.first.map (·.2))
  else (m, none)

/-- The frame that waits comes first once the first one is selected. -/
def advance (m : PresentationMailbox α) : PresentationMailbox α :=
  { m with
    first := m.second
    second := none
    stats := { m.stats with selected := m.stats.selected + m.first.toList.length }
    paced := by simp }

/-- Select the next frame; what has become stale is dropped first. -/
def pop (m : PresentationMailbox α) (now : Instant) :
    PresentationMailbox α × Option α × Duration × Option α :=
  let kept := (m.dropStale now).1
  (kept.advance, kept.first.map (·.2), (kept.first.map fun frame => now - frame.1).getD 0,
    (m.dropStale now).2)

/-! ### The frames of a mailbox -/

variable {m : PresentationMailbox α}

theorem second_eq_none_of_first (h : m.first = none) : m.second = none := by
  rw [← Option.not_isSome_iff_eq_none]
  intro hsecond
  have hfirst := (m.paced hsecond).1
  rw [h] at hfirst
  cases hfirst

theorem second_eq_none_of_age (h : m.maximumAge = none) : m.second = none := by
  rw [← Option.not_isSome_iff_eq_none]
  intro hsecond
  have hage := (m.paced hsecond).2
  rw [h] at hage
  cases hage

/-- A mailbox is empty, holds a frame, or holds two. -/
theorem frames_cases (m : PresentationMailbox α) :
    (m.first = none ∧ m.second = none) ∨ (∃ a, m.first = some a ∧ m.second = none) ∨
      ∃ a b, m.first = some a ∧ m.second = some b := by
  cases hfirst : m.first with
  | none => exact Or.inl ⟨rfl, second_eq_none_of_first hfirst⟩
  | some a =>
      cases hsecond : m.second with
      | none => exact Or.inr (Or.inl ⟨a, rfl, rfl⟩)
      | some b => exact Or.inr (Or.inr ⟨a, b, rfl, rfl⟩)

theorem frames_eq_nil_iff : m.frames = [] ↔ m.isEmpty = true := by
  rcases m.frames_cases with ⟨hfirst, hsecond⟩ | ⟨a, hfirst, hsecond⟩ | ⟨a, b, hfirst, hsecond⟩
  all_goals simp [frames, isEmpty, hfirst, hsecond]

theorem newest_eq (m : PresentationMailbox α) : m.newest = m.frames.getLast? := by
  rcases m.frames_cases with ⟨hfirst, hsecond⟩ | ⟨a, hfirst, hsecond⟩ | ⟨a, b, hfirst, hsecond⟩
  all_goals simp [newest, frames, hfirst, hsecond]

/-- The oldest frame gives way if there are two, or if one is enough. -/
theorem frames_push (m : PresentationMailbox α) (item : α) (now : Instant) :
    (m.push item now).1.frames =
      (if m.maximumAge.isNone then [] else m.frames.drop (m.frames.length - 1)) ++ [item] := by
  unfold push
  split_ifs with hroom hage hage
  · simp [frames, second_eq_none_of_age (Option.isNone_iff_eq_none.mp hage)]
  · have hfirst : m.first = none := Option.isNone_iff_eq_none.mp (hroom.resolve_right hage)
    simp [frames, hfirst, second_eq_none_of_first hfirst]
  · exact absurd (Or.inr hage) hroom
  · rcases m.frames_cases with ⟨hfirst, -⟩ | ⟨a, hfirst, hsecond⟩ | ⟨a, b, hfirst, hsecond⟩
    · exact absurd (Or.inl (by rw [hfirst]; rfl)) hroom
    · split
      · simp [frames, hfirst, hsecond]
      · rename_i waiting hwaiting
        rw [hsecond] at hwaiting
        cases hwaiting
    · split
      · rename_i hnone
        rw [hsecond] at hnone
        cases hnone
      · rename_i waiting hwaiting
        obtain rfl : b = waiting := Option.some.inj (hsecond.symm.trans hwaiting)
        simp [frames, hfirst, hsecond]

@[simp] theorem maximumAge_push (m : PresentationMailbox α) (item : α) (now : Instant) :
    (m.push item now).1.maximumAge = m.maximumAge := by
  unfold push
  split_ifs
  · rfl
  · split
    · rfl
    · rfl

theorem frames_keepLatest (m : PresentationMailbox α) :
    m.keepLatest.1.frames = m.frames.drop (m.frames.length - 1) := by
  unfold keepLatest
  split
  · rename_i hsecond
    rcases m.frames_cases with ⟨hfirst, -⟩ | ⟨a, hfirst, -⟩ | ⟨a, b, -, hnone⟩
    · simp [frames, hfirst, hsecond]
    · simp [frames, hfirst, hsecond]
    · rw [hsecond] at hnone
      cases hnone
  · rename_i waiting hsecond
    obtain ⟨a, hfirst⟩ := Option.isSome_iff_exists.mp (m.paced (by rw [hsecond]; rfl)).1
    simp [frames, hfirst, hsecond]

@[simp] theorem frames_clear (m : PresentationMailbox α) : m.clear.frames = [] := rfl

/-- One frame is selected, after one that is stale was dropped. -/
theorem frames_pop (m : PresentationMailbox α) (now : Instant) :
    (∃ stale, m.frames = stale ++ (m.pop now).2.1.toList ++ (m.pop now).1.frames ∧
      stale.length ≤ 1 ∧ (stale = [] ∨ (m.pop now).1.frames = [])) ∧
      (m.pop now).1.frames.length ≤ 1 ∧ ((m.pop now).2.1 = none → m.frames = []) := by
  unfold pop dropStale
  split_ifs with hstale
  · have hboth : m.second.isSome = true := by
      exact (Bool.and_eq_true_iff.mp hstale).1
    obtain ⟨b, hsecond⟩ := Option.isSome_iff_exists.mp hboth
    obtain ⟨a, hfirst⟩ := Option.isSome_iff_exists.mp (m.paced hboth).1
    refine ⟨⟨[a.2], ?_, by simp, Or.inr rfl⟩, by simp [advance, frames], by simp [hsecond]⟩
    simp [advance, frames, hfirst, hsecond]
  · rcases m.frames_cases with ⟨hfirst, hsecond⟩ | ⟨a, hfirst, hsecond⟩ | ⟨a, b, hfirst, hsecond⟩
    · exact ⟨⟨[], by simp [advance, frames, hfirst, hsecond], by simp, Or.inl rfl⟩,
        by simp [advance, frames, hsecond], by simp [frames, hfirst, hsecond]⟩
    · exact ⟨⟨[], by simp [advance, frames, hfirst, hsecond], by simp, Or.inl rfl⟩,
        by simp [advance, frames, hsecond], by simp [hfirst]⟩
    · exact ⟨⟨[], by simp [advance, frames, hfirst, hsecond], by simp, Or.inl rfl⟩,
        by simp [advance, frames, hsecond], by simp [hfirst]⟩

end PresentationMailbox

/-! ### Where an event goes -/

/-- What the plan looks at in a queued record. -/
structure PlanRecord where
  surface : ClientSurfaceId
  kind : PendingKind
  sameScope : Bool
  barrier : Bool
  deriving DecidableEq

def planCommitRecords (surface : ClientSurfaceId) (mapped : Bool) :
    List (PlanRecord × ℕ) → Insertion
  | [] => ⟨none, !mapped⟩
  | (record, index) :: earlier =>
      match record.kind with
      | .metadata => planCommitRecords surface mapped earlier
      | .commit previous =>
          if record.surface = surface then
            let compatible := record.sameScope && previous == mapped
            ⟨if compatible then some index else none, !compatible || record.barrier⟩
          else if record.barrier then ⟨none, !mapped⟩
          else planCommitRecords surface mapped earlier
      | .control => ⟨none, !mapped⟩

def planMetadataRecords (surface : ClientSurfaceId) : List (PlanRecord × ℕ) → Insertion
  | [] => {}
  | (record, index) :: earlier =>
      if record.sameScope = true ∧ record.surface = surface ∧ record.kind = .metadata then
        ⟨some index, false⟩
      else if record.barrier = true ∨ record.kind = .control then {}
      else planMetadataRecords surface earlier

/-- Where an event of the kind goes. -/
def planRecords (surface : ClientSurfaceId) (kind : PendingKind) (records : List PlanRecord) :
    Insertion :=
  match kind with
  | .commit mapped => planCommitRecords surface mapped records.zipIdx.reverse
  | .metadata => planMetadataRecords surface records.zipIdx.reverse
  | .control => {}

section Plan

variable {Scope : Type} [DecidableEq Scope]

def PendingEvent.planRecord (scope : Scope) (pending : PendingEvent Scope) : PlanRecord :=
  ⟨pending.event.surface, PendingKind.ofEvent pending.event, decide (pending.scope = scope),
    pending.barrier⟩

theorem planCommit_eq (scope : Scope) (surface : ClientSurfaceId) (mapped : Bool)
    (records : List (PendingEvent Scope × ℕ)) :
    planCommit scope surface mapped records =
      planCommitRecords surface mapped (records.map (Prod.map (·.planRecord scope) id)) := by
  induction records with
  | nil => rfl
  | cons entry earlier ih =>
      rw [planCommit, List.map_cons, Prod.map_apply, planCommitRecords, ih]
      rfl

theorem planMetadata_eq (scope : Scope) (surface : ClientSurfaceId)
    (records : List (PendingEvent Scope × ℕ)) :
    planMetadata scope surface records =
      planMetadataRecords surface (records.map (Prod.map (·.planRecord scope) id)) := by
  induction records with
  | nil => rfl
  | cons entry earlier ih =>
      obtain ⟨record, index⟩ := entry
      have hsame : (record.planRecord scope).sameScope = true ↔ record.scope = scope :=
        decide_eq_true_iff
      rw [planMetadata, List.map_cons, Prod.map_apply, planMetadataRecords, ih]
      simp only [hsame, id_eq]
      rfl

/-- **Both queues plan alike.** -/
theorem plan_eq_planRecords (scope : Scope) (event : ClientSurfaceEvent)
    (events : List (PendingEvent Scope)) :
    plan scope event events =
      planRecords event.surface (PendingKind.ofEvent event) (events.map (·.planRecord scope)) := by
  have hmap : (events.map (·.planRecord scope)).zipIdx.reverse =
      events.zipIdx.reverse.map (Prod.map (·.planRecord scope) id) := by
    rw [List.zipIdx_map, List.map_reverse]
  unfold plan planRecords
  cases PendingKind.ofEvent event with
  | commit mapped =>
      simp only []
      rw [planCommit_eq, hmap]
  | metadata =>
      rw [planMetadata_eq, hmap]
  | control => rfl

end Plan

/-! ### The inbox -/

/-- Work that a presenter needs to do for an event. -/
inductive PresentationDemand
  | content | structural
  deriving DecidableEq, Repr

inductive InboxRecord
  | event (event : ClientSurfaceEvent)
  | frames (surface : ClientSurfaceId) (queue : PresentationMailbox ClientSurfaceCommit)
      (barrier : Bool)

/-- Change the mailbox of a record, if it has one. -/
def InboxRecord.mapQueue (f : ClientSurfaceId → PresentationMailbox ClientSurfaceCommit →
    PresentationMailbox ClientSurfaceCommit) : InboxRecord → InboxRecord
  | event e => event e
  | frames surface queue barrier => frames surface (f surface queue) barrier

def InboxRecord.planRecord : InboxRecord → PlanRecord
  | event e => ⟨e.surface, PendingKind.ofEvent e, true, false⟩
  | frames surface queue barrier =>
      ⟨surface, .commit (queue.newest.any (·.mapped)), true, barrier⟩

structure ClientPresentationInbox where
  mapped : Finset ClientSurfaceId := ∅
  pending : List InboxRecord := []
  intervals : Dict ClientSourceId Duration := ∅
  completed : Dict ClientSourceId PresentationQueueStats := ∅

/-! ### Layouts -/

def LogicalPoint.same (a b : LogicalPoint) : Bool := a.x.same b.x && a.y.same b.y

def LogicalSize.same (a b : LogicalSize) : Bool := a.width.same b.width && a.height.same b.height

def SurfaceContentView.same (a b : SurfaceContentView) : Bool :=
  a.sourceX.same b.sourceX && a.sourceY.same b.sourceY && a.sourceWidth.same b.sourceWidth &&
    a.sourceHeight.same b.sourceHeight && a.logicalWidth.same b.logicalWidth &&
    a.logicalHeight.same b.logicalHeight

def SurfaceLayerPlacement.same (a b : SurfaceLayerPlacement) : Bool :=
  a.layer == b.layer && a.position.same b.position && a.view.same b.view

def SurfaceWindowGeometry.same (a b : SurfaceWindowGeometry) : Bool :=
  a.origin.same b.origin && a.view.same b.view

def SurfaceInputRect.same (a b : SurfaceInputRect) : Bool :=
  a.position.same b.position && a.size.same b.size

/-- Lists of one length whose items are pairwise alike. -/
def allSame {α : Type} (same : α → α → Bool) (as bs : List α) : Bool :=
  as.length == bs.length && (as.zip bs).all fun pair => same pair.1 pair.2

def SurfaceInputPlacement.same (a b : SurfaceInputPlacement) : Bool :=
  a.layer == b.layer && a.position.same b.position && allSame SurfaceInputRect.same a.regions b.regions

def SurfaceBufferChange.metadata : SurfaceBufferChange → Option ClientBufferMetadata
  | .retained metadata | .replaced metadata _ => some metadata
  | .removed => none

def sameLayout (previous current : ClientSurfaceCommit) : Bool :=
  previous.mapped == current.mapped && decide (previous.alphaMode = current.alphaMode) &&
    allSame SurfaceLayerPlacement.same previous.root.toList current.root.toList &&
    allSame SurfaceWindowGeometry.same previous.windowGeometry.toList
      current.windowGeometry.toList &&
    allSame SurfaceLayerPlacement.same previous.overlays current.overlays &&
    allSame SurfaceInputPlacement.same previous.inputs current.inputs &&
    allSame (fun old new => old.layer == new.layer && old.change.metadata == new.change.metadata)
      previous.buffers current.buffers

/-- A change of layout replaces what is waiting. -/
def enqueueCommit (queue : PresentationMailbox ClientSurfaceCommit) (commit : ClientSurfaceCommit)
    (now : Instant) : PresentationMailbox ClientSurfaceCommit :=
  if queue.newest.any fun previous => !sameLayout previous commit then
    (queue.clear.push commit now).1
  else (queue.push commit now).1

/-! ### Operations -/

namespace ClientPresentationInbox

/-- An asynchronous source keeps one more frame from now on. -/
def smoothSource (inbox : ClientPresentationInbox) (source : ClientSourceId)
    (interval : Duration) : ClientPresentationInbox :=
  { inbox with
    intervals := inbox.intervals.insert source interval
    pending := inbox.pending.map <| .mapQueue fun surface queue =>
      if surface.source = source then queue.enableSmoothing interval else queue }

def setInterval (inbox : ClientPresentationInbox) (interval : Duration) : ClientPresentationInbox :=
  { inbox with
    intervals := inbox.intervals.mapValues fun _ _ => interval
    pending := inbox.pending.map <| .mapQueue fun _ queue => queue.setInterval interval }

def plan (inbox : ClientPresentationInbox) (surface : ClientSurfaceId) (kind : PendingKind) :
    Insertion :=
  planRecords surface kind (inbox.pending.map (·.planRecord))

/-- Older frames must not come after what is queued next. -/
def collapseHistory (inbox : ClientPresentationInbox) : ClientPresentationInbox :=
  { inbox with pending := inbox.pending.map <| .mapQueue fun _ queue => queue.keepLatest.1 }

/-- A mailbox for the frames of a surface. -/
def mailboxFor (inbox : ClientPresentationInbox) (surface : ClientSurfaceId) :
    PresentationMailbox ClientSurfaceCommit :=
  match inbox.intervals.lookup surface.source with
  | some interval => PresentationMailbox.smoothing interval
  | none => {}

def commit (inbox : ClientPresentationInbox) (surface : ClientSurfaceId)
    (commit : ClientSurfaceCommit) (now : Instant) : ClientPresentationInbox :=
  let insertion := inbox.plan surface (.commit commit.mapped)
  match insertion.replacement with
  | some index =>
      match inbox.pending[index]? with
      | some (.frames found queue barrier) =>
          let commit := (queue.newest.map commit.carryUnobservedContentFrom).getD commit
          if insertion.barrier then
            -- a mapping keeps its place
            { inbox with
              pending := inbox.pending.set index
                (.frames found (enqueueCommit queue commit now) barrier) }
          else
            { inbox with
              pending := inbox.pending.eraseIdx index ++
                [.frames surface (enqueueCommit queue commit now) insertion.barrier] }
      | _ =>
          if insertion.barrier then inbox
          else { inbox with pending := inbox.pending.eraseIdx index }
  | none =>
      let inbox := if insertion.barrier then inbox.collapseHistory else inbox
      { inbox with
        pending := inbox.pending ++
          [.frames surface ((inbox.mailboxFor surface).push commit now).1 insertion.barrier] }

/-- What the presenter has to do for an event. -/
def demand (inbox : ClientPresentationInbox) (event : ClientSurfaceEvent) : PresentationDemand :=
  match event.kind with
  | .commit commit =>
      if commit.mapped = decide (event.surface ∈ inbox.mapped) then .content else .structural
  | .destroyed | .role _ => .structural
  | .interaction _ | .stateRequest _ | .metadata _ => .content

/-- The surfaces that are mapped once the event has been pushed. -/
def noteMapped (inbox : ClientPresentationInbox) (event : ClientSurfaceEvent) :
    ClientPresentationInbox :=
  match event.kind with
  | .commit commit =>
      { inbox with
        mapped := if commit.mapped then insert event.surface inbox.mapped
          else inbox.mapped.erase event.surface }
  | .destroyed => { inbox with mapped := inbox.mapped.erase event.surface }
  | .role _ | .interaction _ | .stateRequest _ | .metadata _ => inbox

/-- Labels may pass content, but nothing else. -/
def pushMetadata (inbox : ClientPresentationInbox) (event : ClientSurfaceEvent) :
    ClientPresentationInbox :=
  match (inbox.plan event.surface .metadata).replacement with
  | some index => { inbox with pending := inbox.pending.eraseIdx index ++ [.event event] }
  | none => { inbox with pending := inbox.pending ++ [.event event] }

def pushAt (inbox : ClientPresentationInbox) (event : ClientSurfaceEvent) (now : Instant) :
    ClientPresentationInbox × PresentationDemand :=
  let noted := inbox.noteMapped event
  let pushed :=
    match event.kind with
    | .commit commit => noted.commit event.surface commit now
    | .metadata _ => noted.pushMetadata event
    | .role _ | .interaction _ | .stateRequest _ | .destroyed =>
        let collapsed := noted.collapseHistory
        { collapsed with pending := collapsed.pending ++ [.event event] }
  (pushed, inbox.demand event)

def hasPending (inbox : ClientPresentationInbox) : Bool := !inbox.pending.isEmpty

/-- The outcomes of the frames of a source: those of the mailboxes that are gone, and of those that
are queued. -/
def statsForSource (inbox : ClientPresentationInbox) (source : ClientSourceId) :
    PresentationQueueStats :=
  inbox.pending.foldl (fun result record =>
    match record with
    | .frames surface queue _ => if surface.source = source then result + queue.stats else result
    | .event _ => result) ((inbox.completed.lookup source).getD {})

/-- What is left of a mailbox waits behind the other records. -/
def finishPop (inbox : ClientPresentationInbox) (surface : ClientSurfaceId)
    (queue : PresentationMailbox ClientSurfaceCommit) (barrier : Bool) : ClientPresentationInbox :=
  if queue.isEmpty then
    { inbox with
      completed := inbox.completed.insert surface.source
        ((inbox.completed.lookup surface.source).getD {} + queue.stats) }
  else { inbox with pending := inbox.pending ++ [.frames surface queue barrier] }

def popAt (inbox : ClientPresentationInbox) (now : Instant) :
    ClientPresentationInbox × Option ClientSurfaceEvent :=
  match inbox.pending with
  | [] => (inbox, none)
  | .event event :: rest => ({ inbox with pending := rest }, some event)
  | .frames surface queue barrier :: rest =>
      (({ inbox with pending := rest } : ClientPresentationInbox).finishPop surface
          (queue.pop now).1 barrier,
        (queue.pop now).2.1.map fun commit => ⟨surface, .commit commit⟩)

/-- Pop as many records as given. -/
def popMany (inbox : ClientPresentationInbox) (now : Instant) :
    ℕ → ClientPresentationInbox × List ClientSurfaceEvent
  | 0 => (inbox, [])
  | count + 1 =>
      let popped := inbox.popAt now
      let rest := popped.1.popMany now count
      (rest.1, popped.2.toList ++ rest.2)

/-- One selection for every record that is queued. -/
def drainReady (inbox : ClientPresentationInbox) (now : Instant) :
    ClientPresentationInbox × List ClientSurfaceEvent :=
  inbox.popMany now inbox.pending.length

/-! ### The ways a commit is queued -/

section Commit

variable {inbox : ClientPresentationInbox} {surface : ClientSurfaceId}
  {commit : ClientSurfaceCommit} {now : Instant} {index : ℕ}
  {queue : PresentationMailbox ClientSurfaceCommit} {barrier : Bool}

/-- The inbox a new mailbox is appended to. -/
def collapsedFor (inbox : ClientPresentationInbox) (barrier : Bool) : ClientPresentationInbox :=
  if barrier then inbox.collapseHistory else inbox

theorem commit_new
    (hplan : (inbox.plan surface (.commit commit.mapped)).replacement = none)
    (hbarrier : (inbox.plan surface (.commit commit.mapped)).barrier = barrier) :
    inbox.commit surface commit now =
      { inbox.collapsedFor barrier with
        pending := (inbox.collapsedFor barrier).pending ++
          [.frames surface (((inbox.collapsedFor barrier).mailboxFor surface).push commit now).1
            barrier] } := by
  subst hbarrier
  simp only [ClientPresentationInbox.commit, hplan, collapsedFor]

theorem commit_inPlace
    (hplan : inbox.plan surface (.commit commit.mapped) = ⟨some index, true⟩)
    (hget : inbox.pending[index]? = some (.frames surface queue barrier)) :
    inbox.commit surface commit now =
      { inbox with
        pending := inbox.pending.set index (.frames surface (enqueueCommit queue
          ((queue.newest.map commit.carryUnobservedContentFrom).getD commit) now) barrier) } := by
  simp only [ClientPresentationInbox.commit, hplan, hget, if_true]

theorem commit_moved
    (hplan : inbox.plan surface (.commit commit.mapped) = ⟨some index, false⟩)
    (hget : inbox.pending[index]? = some (.frames surface queue barrier)) :
    inbox.commit surface commit now =
      { inbox with
        pending := inbox.pending.eraseIdx index ++ [.frames surface (enqueueCommit queue
          ((queue.newest.map commit.carryUnobservedContentFrom).getD commit) now) false] } := by
  simp only [ClientPresentationInbox.commit, hplan, hget, Bool.false_eq_true, if_false]

end Commit

end ClientPresentationInbox

end Client
