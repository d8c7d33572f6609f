/-
**Smoothing loses nothing that matters.**

A smoothed source has up to two frames of a surface waiting.  What a presenter draws of a surface is
still a thinned version of what was pushed: in order, nothing from before a control or a change of
mapping after it, every segment to its end, and each frame with the buffers it had when it was pushed.

Main definitions: `ShownItem`, `viewOf`, `Smoothed`, `Passing`.

Main results:

* `Smoothed.pushAt`, `Smoothed.drainReady` — a push, and an opportunity.
-/

import Weld.InboxRefinement

namespace Client

open Gamepad (Instant)
open History Thinning PendingClientEvents ClientPresentationInbox PresentationMailbox

/-! ### What is shown of a surface -/

/-- A commit of the surface, or a record that is never merged. -/
inductive ShownItem
  | commit (commit : ClientSurfaceCommit)
  | control (event : ClientSurfaceEvent)

def ShownItem.ofEvent (surface : ClientSurfaceId) (event : ClientSurfaceEvent) : Option ShownItem :=
  match event.kind with
  | .commit c => if event.surface = surface then some (.commit c) else none
  | .metadata _ => none
  | .role _ | .interaction _ | .stateRequest _ | .destroyed => some (.control event)

def viewOf (surface : ClientSurfaceId) (events : List ClientSurfaceEvent) : List ShownItem :=
  events.filterMap (ShownItem.ofEvent surface)

@[simp] theorem viewOf_append (surface : ClientSurfaceId) (events more : List ClientSurfaceEvent) :
    viewOf surface (events ++ more) = viewOf surface events ++ viewOf surface more :=
  List.filterMap_append

namespace ShownItem

/-- A commit may take over from one that maps the surface alike; if the source conforms, it retains
only what that one lists. -/
def Continues (conforms : Prop) : ShownItem → ShownItem → Prop
  | commit old, commit new => old.mapped = new.mapped ∧ (conforms → new.Keeps old)
  | _, _ => False

def merge : ShownItem → ShownItem → ShownItem
  | commit new, commit old => commit (new.carryUnobservedContentFrom old)
  | new, _ => new

/-- Only commits of one mapping may be merged. -/
def mapping : ShownItem → Option Bool
  | commit c => some c.mapped
  | control _ => none

/-- What an item is, apart from buffers that may be carried. -/
def outline : ShownItem → ShownItem × Set SurfaceLayerId
  | commit c => (commit c.geometry, {layer | c.Lists layer})
  | control event => (control event, ∅)

/-- What the item shows. -/
def contents (shown : LayerContents) : ShownItem → LayerContents
  | commit c => c.contents shown
  | control _ => shown

@[simp] theorem outline_merge (new old : ShownItem) : outline (merge new old) = outline new := by
  cases new with
  | control event => rfl
  | commit current =>
      cases old with
      | control event => rfl
      | commit previous =>
          simp only [outline, merge, ClientSurfaceCommit.geometry_carry,
            ClientSurfaceCommit.lists_carry]

theorem mapping_merge (new old : ShownItem) : mapping (merge new old) = mapping new := by
  cases new with
  | control event => rfl
  | commit current =>
      cases old with
      | control | commit => rfl

theorem Continues.mapping_eq {conforms : Prop} {old new : ShownItem} (h : Continues conforms old new) :
    mapping old = mapping new ∧ mapping new ≠ none := by
  cases old with
  | control event => exact h.elim
  | commit previous =>
      cases new with
      | control event => exact h.elim
      | commit current => exact ⟨congrArg some h.1, by simp [mapping]⟩

end ShownItem

/-- What may be kept of the items of a surface. -/
abbrev Selected (conforms : Prop) : List ShownItem → List ShownItem → Prop :=
  Thinned (ShownItem.Continues conforms) ShownItem.merge

/-! ### The records of an inbox -/

namespace InboxRecord

def surface : InboxRecord → ClientSurfaceId
  | event e => e.surface
  | frames surface _ _ => surface

/-- The items of a surface that the record holds. -/
def items (target : ClientSurfaceId) : InboxRecord → List ShownItem
  | event e => viewOf target [e]
  | frames surface queue _ => if surface = target then queue.frames.map .commit else []

/-- Two frames wait in the record. -/
def IsPair : InboxRecord → Prop
  | event _ => False
  | frames _ queue _ => 2 ≤ queue.frames.length

/-- What may be queued behind a record in which two frames wait: labels, and frames of other
surfaces that no mapping holds in place. -/
def Yields (record : InboxRecord) : InboxRecord → Prop
  | event e => isControl e = false
  | frames surface _ barrier => surface ≠ record.surface ∧ barrier = false

/-- A record holds an event that is no commit, or at least one frame; the second of two has taken
over from the first. -/
def Sound (conforms : Prop) : InboxRecord → Prop
  | event e => isCommit e = false
  | frames _ queue _ => queue.frames ≠ [] ∧
      ∀ a b, queue.frames = [a, b] →
        Follows (ShownItem.Continues conforms) ShownItem.merge (.commit a) (.commit b)

end InboxRecord

/-- The items of a surface that wait in an inbox. -/
def queued (surface : ClientSurfaceId) (pending : List InboxRecord) : List ShownItem :=
  pending.flatMap (·.items surface)

@[simp] theorem queued_nil (surface : ClientSurfaceId) : queued surface [] = [] := rfl

@[simp] theorem queued_append (surface : ClientSurfaceId) (pending more : List InboxRecord) :
    queued surface (pending ++ more) = queued surface pending ++ queued surface more :=
  List.flatMap_append

@[simp] theorem queued_cons (surface : ClientSurfaceId) (record : InboxRecord)
    (pending : List InboxRecord) :
    queued surface (record :: pending) = record.items surface ++ queued surface pending := rfl

/-- What was drained and what waits is selected from what was pushed; only the last frames of a
surface wait in pairs. -/
structure Smoothed (conforms : Prop) (pushed drained : List ClientSurfaceEvent)
    (pending : List InboxRecord) : Prop where
  selected : ∀ surface,
    Selected conforms (viewOf surface pushed) (viewOf surface drained ++ queued surface pending)
  ordered : pending.Pairwise fun record later => record.IsPair → record.Yields later
  sound : ∀ record ∈ pending, record.Sound conforms

variable {conforms : Prop} {pushed drained : List ClientSurfaceEvent} {pending : List InboxRecord}

/-! ### Changes that leave the frames alone -/

theorem Smoothed.mapQueue (h : Smoothed conforms pushed drained pending)
    {f : ClientSurfaceId → PresentationMailbox ClientSurfaceCommit →
      PresentationMailbox ClientSurfaceCommit}
    (hf : ∀ surface queue, (f surface queue).frames = queue.frames) :
    Smoothed conforms pushed drained (pending.map (.mapQueue f)) := by
  have hitems : ∀ surface (record : InboxRecord),
      (record.mapQueue f).items surface = record.items surface := by
    intro surface record
    cases record with
    | event e => rfl
    | frames target queue barrier => simp only [InboxRecord.mapQueue, InboxRecord.items, hf]
  refine ⟨fun surface => ?_, ?_, ?_⟩
  · have hqueued : queued surface (pending.map (.mapQueue f)) = queued surface pending := by
      simp only [queued, List.flatMap_map, hitems]
    rw [hqueued]
    exact h.selected surface
  · rw [List.pairwise_map]
    refine h.ordered.imp fun {record later} hyields hpair => ?_
    have hbefore : record.IsPair := by
      cases record with
      | event e => exact hpair.elim
      | frames target queue barrier =>
          simp only [InboxRecord.mapQueue, InboxRecord.IsPair, hf] at hpair
          exact hpair
    have hyielded := hyields hbefore
    cases record with
    | event e => exact hpair.elim
    | frames target queue barrier =>
        cases later with
        | event | frames => exact hyielded
  · intro record hrecord
    obtain ⟨original, horiginal, rfl⟩ := List.mem_map.mp hrecord
    have hsound := h.sound original horiginal
    cases original with
    | event e => exact hsound
    | frames target queue barrier =>
        simp only [InboxRecord.mapQueue, InboxRecord.Sound, hf]
        exact hsound

/-! ### Collapsing -/

variable {queue : PresentationMailbox ClientSurfaceCommit} {barrier : Bool} {record : InboxRecord}
  {inbox : ClientPresentationInbox} {old : ClientSurfaceCommit} {front : List ShownItem}
  {todo : List InboxRecord} {surface : ClientSurfaceId}

/-- A mailbox of a sound record holds one frame, or two of which the second took over. -/
theorem sound_frames (h : (InboxRecord.frames surface queue barrier).Sound conforms) :
    (∃ a, queue.frames = [a]) ∨ ∃ a b, queue.frames = [a, b] ∧
      Follows (ShownItem.Continues conforms) ShownItem.merge (.commit a) (.commit b) := by
  obtain ⟨hne, hpair⟩ := h
  rcases queue.frames_cases with ⟨hfirst, hsecond⟩ | ⟨a, hfirst, hsecond⟩ | ⟨a, b, hfirst, hsecond⟩
  · exact absurd (by simp [frames, hfirst, hsecond]) hne
  · exact Or.inl ⟨a.2, by simp [frames, hfirst, hsecond]⟩
  · have hframes : queue.frames = [a.2, b.2] := by
      simp [frames, hfirst, hsecond]
    exact Or.inr ⟨a.2, b.2, hframes, hpair _ _ hframes⟩

/-- The collapsed record. -/
def InboxRecord.collapse : InboxRecord → InboxRecord := .mapQueue fun _ queue => queue.keepLatest.1

theorem selected_collapse {log : List ShownItem}
    (h : Selected conforms log (front ++ queued surface pending))
    (hsound : ∀ record ∈ pending, record.Sound conforms) :
    Selected conforms log (front ++ queued surface (pending.map (·.collapse))) := by
  induction pending generalizing front with
  | nil => exact h
  | cons record pending ih =>
      have hrest : ∀ other ∈ pending, other.Sound conforms :=
        fun other hother => hsound other (List.mem_cons_of_mem _ hother)
      rw [List.map_cons, queued_cons, ← List.append_assoc]
      refine ih ?_ hrest
      rw [queued_cons] at h
      cases record with
      | event e => simpa [InboxRecord.collapse, InboxRecord.mapQueue, InboxRecord.items] using h
      | frames target queue barrier =>
          simp only [InboxRecord.collapse, InboxRecord.mapQueue, InboxRecord.items,
            frames_keepLatest] at h ⊢
          split_ifs at h ⊢ with htarget
          · rcases sound_frames (hsound _ List.mem_cons_self) with
              ⟨a, hframes⟩ | ⟨a, b, hframes, hfollows⟩
            · simpa [hframes] using h
            · -- the older frame goes
              rw [hframes] at h ⊢
              have hdrop := Thinned.drop h hfollows
              simpa using hdrop
          · simpa using h

theorem not_isPair_collapse : ¬ record.collapse.IsPair := by
  cases record with
  | event e => exact fun h => h
  | frames target queue barrier =>
      simp only [InboxRecord.collapse, InboxRecord.mapQueue, InboxRecord.IsPair,
        frames_keepLatest, List.length_drop]
      omega

theorem sound_collapse (h : record.Sound conforms) : record.collapse.Sound conforms := by
  cases record with
  | event e => exact h
  | frames target queue barrier =>
      have hframes : queue.keepLatest.1.frames = queue.frames.drop (queue.frames.length - 1) :=
        queue.frames_keepLatest
      rcases sound_frames h with ⟨a, hone⟩ | ⟨a, b, htwo, -⟩
      · rw [hone] at hframes
        exact ⟨by simp [hframes], fun x y hxy => by simp [hframes] at hxy⟩
      · rw [htwo] at hframes
        exact ⟨by simp [hframes], fun x y hxy => by simp [hframes] at hxy⟩

/-- No two frames wait once history is collapsed. -/
theorem Smoothed.collapse (h : Smoothed conforms pushed drained pending) :
    Smoothed conforms pushed drained (pending.map (·.collapse)) ∧
      ∀ record ∈ pending.map (·.collapse), ¬ record.IsPair := by
  have hsingle : ∀ record ∈ pending.map (·.collapse), ¬ record.IsPair := by
    intro record hrecord
    obtain ⟨original, -, rfl⟩ := List.mem_map.mp hrecord
    exact not_isPair_collapse
  refine ⟨⟨fun surface => selected_collapse (h.selected surface) h.sound, ?_, ?_⟩, hsingle⟩
  · rw [List.pairwise_map]
    exact List.pairwise_of_forall fun _ _ hpair => absurd hpair not_isPair_collapse
  · intro record hrecord
    obtain ⟨original, horiginal, rfl⟩ := List.mem_map.mp hrecord
    exact sound_collapse (h.sound original horiginal)

/-! ### Records at the end -/

theorem viewOf_metadata (surface target : ClientSurfaceId) (metadata : ClientSurfaceMetadata) :
    viewOf surface [⟨target, .metadata metadata⟩] = [] := rfl

/-- What is not a commit goes to the end; a control only once history is collapsed. -/
theorem Smoothed.appendEvent (h : Smoothed conforms pushed drained pending)
    {event : ClientSurfaceEvent} (hcommit : isCommit event = false)
    (hyields : isControl event = true → ∀ record ∈ pending, ¬ record.IsPair) :
    Smoothed conforms (pushed ++ [event]) drained (pending ++ [.event event]) := by
  refine ⟨fun surface => ?_, ?_, ?_⟩
  · rw [viewOf_append, queued_append, ← List.append_assoc]
    have hitems : queued surface [.event event] = viewOf surface [event] := List.append_nil _
    rw [hitems]
    have hbefore := h.selected surface
    obtain ⟨target, kind⟩ := event
    cases kind with
    | commit c => cases hcommit
    | metadata metadata => simpa [viewOf_metadata] using hbefore
    | role | interaction | stateRequest | destroyed => exact hbefore.append _
  · rw [List.pairwise_append]
    refine ⟨h.ordered, List.pairwise_singleton _ _, fun record hrecord later hlater hpair => ?_⟩
    rw [List.mem_singleton.mp hlater]
    cases hcontrol : isControl event with
    | true => exact absurd hpair (hyields hcontrol record hrecord)
    | false => exact hcontrol
  · intro record hrecord
    rcases List.mem_append.mp hrecord with hrecord | hrecord
    · exact h.sound record hrecord
    · rw [List.mem_singleton.mp hrecord]
      exact hcommit

/-- Labels may be taken out. -/
theorem Smoothed.eraseMetadata {before after : List InboxRecord} {metadata : ClientSurfaceMetadata}
    (h : Smoothed conforms pushed drained (before ++ .event ⟨surface, .metadata metadata⟩ :: after)) :
    Smoothed conforms pushed drained (before ++ after) := by
  have hsub : (before ++ after).Sublist (before ++ .event ⟨surface, .metadata metadata⟩ :: after) :=
    (List.Sublist.refl before).append (List.sublist_cons_self _ _)
  refine ⟨fun target => ?_, h.ordered.sublist hsub, fun record hrecord =>
    h.sound record (hsub.subset hrecord)⟩
  have hbefore := h.selected target
  rw [queued_append, queued_cons] at hbefore
  rw [queued_append]
  exact hbefore

/-! ### Where a commit goes -/

/-- A record that the plan for a commit looks past. -/
def PlanRecord.Passed (surface : ClientSurfaceId) (record : PlanRecord) : Prop :=
  record.kind = .metadata ∨
    ((∃ mapped, record.kind = .commit mapped) ∧ record.surface ≠ surface ∧ record.barrier = false)

/-- A record that the plan for a commit does not look past. -/
def PlanRecord.Stops (surface : ClientSurfaceId) (record : PlanRecord) : Prop :=
  record.kind = .control ∨ (record.surface ≠ surface ∧ record.barrier = true)

/-- The plan puts a commit into the latest record of its surface. -/
def Joins (surface : ClientSurfaceId) (mapped : Bool) (records : List PlanRecord)
    (insertion : Insertion) : Prop :=
  ∃ front record back, records = front ++ record :: back ∧ record.surface = surface ∧
    record.kind = .commit mapped ∧ (∀ later ∈ back, later.Passed surface) ∧
    insertion = ⟨some front.length, record.barrier⟩

/-- The surface has no commit, or something holds its commits in place. -/
def StartsAnew (surface : ClientSurfaceId) (records : List PlanRecord) : Prop :=
  (∀ record ∈ records, record.Passed surface) ∨
    ∃ front record back, records = front ++ record :: back ∧ record.Stops surface ∧
      ∀ later ∈ back, later.Passed surface

theorem passed_concat {back : List PlanRecord} {record : PlanRecord}
    (hback : ∀ later ∈ back, later.Passed surface) (hrecord : record.Passed surface) :
    ∀ later ∈ back ++ [record], later.Passed surface := by
  intro later hlater
  rcases List.mem_append.mp hlater with hlater | hlater
  · exact hback later hlater
  · rw [List.mem_singleton.mp hlater]
    exact hrecord

variable {records : List PlanRecord}

theorem Joins.skip {mapped : Bool} {insertion : Insertion} {record : PlanRecord}
    (h : Joins surface mapped records insertion) (hrecord : record.Passed surface) :
    Joins surface mapped (records ++ [record]) insertion := by
  obtain ⟨front, found, back, rfl, hsurface, hkind, hback, hplan⟩ := h
  exact ⟨front, found, back ++ [record], by simp, hsurface, hkind, passed_concat hback hrecord,
    hplan⟩

theorem StartsAnew.skip {record : PlanRecord} (h : StartsAnew surface records)
    (hrecord : record.Passed surface) : StartsAnew surface (records ++ [record]) := by
  rcases h with hall | ⟨front, found, back, rfl, hstops, hback⟩
  · exact Or.inl (passed_concat hall hrecord)
  · exact Or.inr ⟨front, found, back ++ [record], by simp, hstops, passed_concat hback hrecord⟩

theorem StartsAnew.here (records : List PlanRecord) {record : PlanRecord}
    (hrecord : record.Stops surface) : StartsAnew surface (records ++ [record]) :=
  Or.inr ⟨records, record, [], rfl, hrecord, fun _ h => absurd h List.not_mem_nil⟩

/-- A commit joins the latest commit of its surface, or starts anew: with history collapsed, or where
there is none to collapse. -/
theorem planRecords_commit (surface : ClientSurfaceId) (mapped : Bool)
    (records : List PlanRecord) :
    Joins surface mapped records (planRecords surface (.commit mapped) records) ∨
      planRecords surface (.commit mapped) records = ⟨none, true⟩ ∨
      planRecords surface (.commit mapped) records = ⟨none, !mapped⟩ ∧
        StartsAnew surface records := by
  unfold planRecords
  simp only []
  induction records using List.reverseRecOn with
  | nil => exact Or.inr (Or.inr ⟨rfl, Or.inl fun record h => absurd h List.not_mem_nil⟩)
  | append_singleton records record ih =>
      rw [zipIdx_reverse_concat, planCommitRecords]
      have hskip : record.Passed surface →
          Joins surface mapped (records ++ [record])
              (planCommitRecords surface mapped records.zipIdx.reverse) ∨
            planCommitRecords surface mapped records.zipIdx.reverse = ⟨none, true⟩ ∨
            planCommitRecords surface mapped records.zipIdx.reverse = ⟨none, !mapped⟩ ∧
              StartsAnew surface (records ++ [record]) := by
        intro hrecord
        rcases ih with hjoins | hnew | ⟨hplan, hnew⟩
        · exact Or.inl (hjoins.skip hrecord)
        · exact Or.inr (Or.inl hnew)
        · exact Or.inr (Or.inr ⟨hplan, hnew.skip hrecord⟩)
      cases hkind : record.kind with
      | metadata => exact hskip (Or.inl hkind)
      | control => exact Or.inr (Or.inr ⟨rfl, StartsAnew.here records (Or.inl hkind)⟩)
      | commit previous =>
          simp only
          split_ifs with hsurface hcompatible hbarrier
          · obtain ⟨hscope, rfl⟩ : record.sameScope = true ∧ previous = mapped := by
              simpa using hcompatible
            refine Or.inl ⟨records, record, [], rfl, hsurface, hkind, ?_, by simp [hscope]⟩
            exact fun later hlater => absurd hlater List.not_mem_nil
          · exact Or.inr (Or.inl (by simp [hcompatible]))
          · exact Or.inr (Or.inr ⟨rfl, StartsAnew.here records (Or.inr ⟨hsurface, hbarrier⟩)⟩)
          · exact hskip (Or.inr ⟨⟨previous, hkind⟩, hsurface, by simpa using hbarrier⟩)

/-- The two ways a commit is queued: into a record that holds a frame of its surface and mapping, or
into one of its own. -/
theorem commit_cases (surface : ClientSurfaceId) (commit : ClientSurfaceCommit) (now : Instant)
    (hsound : ∀ record ∈ inbox.pending, record.Sound conforms) :
    (∃ before queue barrier after old,
        inbox.pending = before ++ .frames surface queue barrier :: after ∧
        (∀ later ∈ after, later.planRecord.Passed surface) ∧ queue.newest = some old ∧
        old.mapped = commit.mapped ∧ inbox.commit surface commit now = { inbox with
            pending :=
              if barrier then before ++ .frames surface
                (enqueueCommit queue (commit.carryUnobservedContentFrom old) now) barrier :: after
              else before ++ after ++ [.frames surface
                (enqueueCommit queue (commit.carryUnobservedContentFrom old) now) barrier] }) ∨
      ∃ barrier, (barrier = true ∨
          StartsAnew surface (inbox.pending.map (·.planRecord)) ∧ barrier = !commit.mapped) ∧
        inbox.commit surface commit now =
          { inbox.collapsedFor barrier with
            pending := (inbox.collapsedFor barrier).pending ++
              [.frames surface (((inbox.collapsedFor barrier).mailboxFor surface).push commit now).1
                barrier] } := by
  have hplan : inbox.plan surface (.commit commit.mapped) =
      planRecords surface (.commit commit.mapped) (inbox.pending.map (·.planRecord)) := rfl
  rcases planRecords_commit surface commit.mapped (inbox.pending.map (·.planRecord)) with
    ⟨front, record, back, hrecords, hsurface, hkind, hback, hjoins⟩ | hnew | ⟨hnew, hanew⟩
  · obtain ⟨before, rest, hpending, hfront, hrest⟩ := List.map_eq_append_iff.mp hrecords
    obtain ⟨found, after, rfl, hfound, hafter⟩ := List.map_eq_cons_iff.mp hrest
    have hlength : front.length = before.length := by rw [← hfront, List.length_map]
    have hget : inbox.pending[before.length]? = some found := by
      rw [hpending]
      simp
    rw [hjoins, hlength] at hplan
    have hpassed : ∀ later ∈ after, later.planRecord.Passed surface := by
      intro later hlater
      refine hback _ ?_
      rw [← hafter]
      exact List.mem_map_of_mem hlater
    have hmem : found ∈ inbox.pending := by
      rw [hpending]
      simp
    have hfoundSound := hsound found hmem
    subst hfound
    cases found with
    | event e =>
        -- an event is no commit
        obtain ⟨target, kind⟩ := e
        cases kind with
        | commit c => cases hfoundSound
        | _ => cases hkind
    | frames target queue barrier =>
        obtain rfl : target = surface := hsurface
        obtain ⟨old, hold⟩ : ∃ old, queue.newest = some old := by
          rw [queue.newest_eq, ← Option.isSome_iff_exists, List.getLast?_isSome]
          exact hfoundSound.1
        have hmapped : old.mapped = commit.mapped := by
          have hany := PendingKind.commit.inj hkind
          rw [hold] at hany
          exact hany
        refine Or.inl ⟨before, queue, barrier, after, old, hpending, hpassed, hold, hmapped, ?_⟩
        cases barrier with
        | true =>
            rw [commit_inPlace hplan hget, hold, hpending]
            simp
        | false =>
            rw [commit_moved hplan hget, hold, hpending, eraseIdx_middle]
            simp
  · refine Or.inr ⟨true, Or.inl rfl, ?_⟩
    exact commit_new (by rw [hplan, hnew]) (by rw [hplan, hnew])
  · refine Or.inr ⟨!commit.mapped, Or.inr ⟨hanew, rfl⟩, ?_⟩
    exact commit_new (by rw [hplan, hnew]) (by rw [hplan, hnew])

/-! ### A commit -/

theorem frames_of_newest (h : queue.newest = some old) :
    queue.frames.drop (queue.frames.length - 1) = [old] := by
  rw [queue.newest_eq] at h
  obtain ⟨front, hfront⟩ := List.getLast?_eq_some_iff.mp h
  rw [hfront]
  simp

/-- The new frame waits alone, or behind the latest one. -/
theorem frames_enqueue (h : queue.newest = some old) (commit : ClientSurfaceCommit)
    (now : Instant) :
    (enqueueCommit queue commit now).frames = [commit] ∨
      (enqueueCommit queue commit now).frames = [old, commit] := by
  unfold enqueueCommit
  split_ifs
  · left
    rw [frames_push]
    simp
  · rw [frames_push, frames_of_newest h]
    split_ifs
    · exact Or.inl rfl
    · exact Or.inr rfl

/-- Only the latest frame counts for what comes next. -/
theorem selected_latest {log : List ShownItem}
    (h : Selected conforms log (front ++ queue.frames.map .commit))
    (hsound : (InboxRecord.frames surface queue barrier).Sound conforms)
    (hold : queue.newest = some old) : Selected conforms log (front ++ [.commit old]) := by
  have hlatest := frames_of_newest hold
  rcases sound_frames hsound with ⟨a, hframes⟩ | ⟨a, b, hframes, hfollows⟩
  · rw [hframes] at h hlatest
    obtain rfl : a = old := by simpa using hlatest
    exact h
  · rw [hframes] at h hlatest
    obtain rfl : b = old := by simpa using hlatest
    exact Thinned.drop h hfollows

theorem queued_passed {after : List InboxRecord} (h : ∀ later ∈ after, later.planRecord.Passed surface) :
    queued surface after = [] := by
  refine List.flatMap_eq_nil_iff.mpr fun later hlater => ?_
  have hpassed := h later hlater
  cases later with
  | event e =>
      obtain ⟨target, kind⟩ := e
      rcases hpassed with hkind | ⟨⟨mapped, hkind⟩, hne, -⟩
      · cases kind with
        | metadata metadata => rfl
        | _ => cases hkind
      · cases kind with
        | commit c => exact List.filterMap_cons_none (if_neg hne)
        | _ => cases hkind
  | frames target queue barrier =>
      rcases hpassed with hkind | ⟨-, hne, -⟩
      · cases hkind
      · exact if_neg hne

theorem yields_of_passed {later : InboxRecord} (h : later.planRecord.Passed record.surface) :
    record.Yields later := by
  cases later with
  | event e =>
      rcases h with hkind | ⟨⟨mapped, hkind⟩, -, -⟩
      all_goals exact decide_eq_false fun hcontrol => by simp [hcontrol, InboxRecord.planRecord] at hkind
  | frames target queue barrier =>
      rcases h with hkind | ⟨-, hne, hbarrier⟩
      · cases hkind
      · exact ⟨hne, hbarrier⟩

/-- Events of the one scope of a presenter. -/
def unscoped (events : List ClientSurfaceEvent) : List (Unit × ClientSurfaceEvent) :=
  events.map fun event => ((), event)

theorem unscoped_concat (events : List ClientSurfaceEvent) (event : ClientSurfaceEvent) :
    unscoped (events ++ [event]) = unscoped events ++ [((), event)] := List.map_append

/-- The commits of a surface, as the queue of pending events sees them. -/
theorem commitsOf_unscoped (surface : ClientSurfaceId) (events : List ClientSurfaceEvent) :
    commitsOf surface (unscoped events) =
      (viewOf surface events).filterMap fun item =>
        match item with
        | .commit c => some ((), c)
        | .control _ => none := by
  unfold commitsOf viewOf unscoped
  rw [List.filterMap_map, List.filterMap_filterMap]
  refine List.filterMap_congr fun event _ => ?_
  obtain ⟨target, kind⟩ := event
  cases kind with
  | commit c =>
      by_cases htarget : target = surface <;> simp [ShownItem.ofEvent, htarget]
  | _ => rfl

/-- A commit continues the latest one that is kept. -/
theorem continues_latest {commit : ClientSurfaceCommit}
    (h : Selected conforms (viewOf surface pushed) (front ++ [.commit old]))
    (hconforms : conforms → Conforms (unscoped (pushed ++ [⟨surface, .commit commit⟩])))
    (hmapped : old.mapped = commit.mapped) :
    ShownItem.Continues conforms (.commit old) (.commit commit) := by
  refine ⟨hmapped, fun hc update hupdate hretained => ?_⟩
  have hlast := h.getLast?_eq ShownItem.outline_merge
  cases hpushed : (viewOf surface pushed).getLast? with
  | none => simp [hpushed] at hlast
  | some item =>
      rw [hpushed] at hlast
      cases item with
      | control event => simp [ShownItem.outline] at hlast
      | commit latest =>
          obtain ⟨hgeometry, hlists⟩ : old.geometry = latest.geometry ∧
              {layer | old.Lists layer} = {layer | latest.Lists layer} := by
            simpa [ShownItem.outline] using hlast
          obtain ⟨earlier, hview⟩ := List.getLast?_eq_some_iff.mp hpushed
          have hprevious : (commitsOf surface (unscoped pushed)).getLast? = some ((), latest) := by
            rw [commitsOf_unscoped, hview, List.filterMap_append]
            simp
          have hall := hconforms hc
          rw [unscoped_concat] at hall
          have hlatest : latest.mapped = commit.mapped := by
            rw [← hmapped]
            exact (congrArg ClientSurfaceCommit.mapped hgeometry).symm
          have hkeeps := Each.last hall commit rfl ((), latest) hprevious rfl hlatest
          have hlisted : update.layer ∈ {layer | old.Lists layer} := by
            rw [hlists]
            exact hkeeps update hupdate hretained
          exact hlisted

section Join

variable {before after : List InboxRecord} {surface : ClientSurfaceId}
  {queue : PresentationMailbox ClientSurfaceCommit} {barrier : Bool}
  {commit old : ClientSurfaceCommit}

/-- The records around one that holds a surface's latest frames, in either order. -/
theorem queued_around (hafter : ∀ later ∈ after, later.planRecord.Passed surface)
    (target : ClientSurfaceId) (found : PresentationMailbox ClientSurfaceCommit) :
    queued target (before ++ .frames surface found barrier :: after) =
      queued target (before ++ after ++ [.frames surface found barrier]) := by
  simp only [queued_append, queued_cons, InboxRecord.items, List.append_assoc]
  split_ifs with htarget
  · subst htarget
    simp [queued_passed hafter]
  · simp

theorem selected_join (target : ClientSurfaceId) (now : Instant)
    (h : Smoothed conforms pushed drained (before ++ .frames surface queue barrier :: after))
    (hafter : ∀ later ∈ after, later.planRecord.Passed surface) (hold : queue.newest = some old)
    (hmapped : old.mapped = commit.mapped)
    (hconforms : conforms → Conforms (unscoped (pushed ++ [⟨surface, .commit commit⟩]))) :
    Selected conforms (viewOf target (pushed ++ [⟨surface, .commit commit⟩]))
      (viewOf target drained ++ queued target (before ++ after ++ [.frames surface
        (enqueueCommit queue (commit.carryUnobservedContentFrom old) now) barrier])) := by
  have hselected := h.selected target
  rw [queued_around hafter] at hselected
  simp only [viewOf_append, queued_append] at hselected ⊢
  by_cases htarget : surface = target
  · subst htarget
    have hsound : (InboxRecord.frames surface queue barrier).Sound conforms := h.sound _ (by simp)
    have hitems : ∀ found : PresentationMailbox ClientSurfaceCommit,
        queued surface [.frames surface found barrier] = found.frames.map .commit := by
      intro found
      simp [queued, InboxRecord.items]
    have hview : viewOf surface [⟨surface, .commit commit⟩] = [.commit commit] := by
      simp [viewOf, ShownItem.ofEvent]
    rw [hitems, ← List.append_assoc] at hselected
    have hlatest := selected_latest hselected hsound hold
    have hcontinues := continues_latest hlatest hconforms hmapped
    rw [hitems, hview, ← List.append_assoc]
    rcases frames_enqueue hold (commit.carryUnobservedContentFrom old) now with hframes | hframes
    · rw [hframes]
      exact hlatest.replace hcontinues
    · rw [hframes]
      exact hlatest.extend hcontinues
  · have hview : viewOf target [⟨surface, .commit commit⟩] = [] :=
      List.filterMap_cons_none (if_neg htarget)
    rw [hview, List.append_nil]
    simpa [queued, InboxRecord.items, htarget] using hselected

/-- The new frame has taken over from the one it waits behind. -/
theorem sound_enqueue (hold : queue.newest = some old) (now : Instant)
    (hcontinues : ShownItem.Continues conforms (.commit old) (.commit commit)) :
    (InboxRecord.frames surface
      (enqueueCommit queue (commit.carryUnobservedContentFrom old) now) barrier).Sound conforms := by
  rcases frames_enqueue hold (commit.carryUnobservedContentFrom old) now with hframes | hframes
  · exact ⟨by simp [hframes], fun a b hab => by simp [hframes] at hab⟩
  · refine ⟨by simp [hframes], fun a b hab => ?_⟩
    rw [hframes] at hab
    obtain ⟨rfl, hb⟩ := List.cons_eq_cons.mp hab
    obtain rfl : commit.carryUnobservedContentFrom old = b := by simpa using hb
    exact ⟨.commit commit, hcontinues, rfl⟩

/-- A commit that joins another. -/
theorem Smoothed.join (now : Instant)
    (h : Smoothed conforms pushed drained (before ++ .frames surface queue barrier :: after))
    (hafter : ∀ later ∈ after, later.planRecord.Passed surface) (hold : queue.newest = some old)
    (hmapped : old.mapped = commit.mapped)
    (hconforms : conforms → Conforms (unscoped (pushed ++ [⟨surface, .commit commit⟩]))) :
    Smoothed conforms (pushed ++ [⟨surface, .commit commit⟩]) drained
      (if barrier then before ++ .frames surface
          (enqueueCommit queue (commit.carryUnobservedContentFrom old) now) barrier :: after
        else before ++ after ++ [.frames surface
          (enqueueCommit queue (commit.carryUnobservedContentFrom old) now) barrier]) := by
  have hbefore : Selected conforms (viewOf surface pushed)
      (viewOf surface drained ++ queued surface (before ++ after) ++ queue.frames.map .commit) := by
    have hselected := h.selected surface
    rw [queued_around hafter] at hselected
    simpa [InboxRecord.items] using hselected
  have hfound : (InboxRecord.frames surface queue barrier).Sound conforms := h.sound _ (by simp)
  have hcontinues := continues_latest (selected_latest hbefore hfound hold) hconforms hmapped
  have hsound : (InboxRecord.frames surface
      (enqueueCommit queue (commit.carryUnobservedContentFrom old) now) barrier).Sound conforms :=
    sound_enqueue hold now hcontinues
  have hordered := h.ordered
  rw [List.pairwise_append, List.pairwise_cons] at hordered
  obtain ⟨hfront, ⟨-, hback⟩, hacross⟩ := hordered
  -- the changed record has the surface and the barrier it had
  have hyields : ∀ record ∈ before, record.IsPair → surface ≠ record.surface ∧ barrier = false :=
    fun record hrecord hpair => hacross record hrecord _ List.mem_cons_self hpair
  split_ifs with hbarrier
  · refine ⟨fun target => ?_, ?_, fun record hrecord => ?_⟩
    · rw [queued_around hafter]
      exact selected_join target now h hafter hold hmapped hconforms
    · rw [List.pairwise_append, List.pairwise_cons]
      refine ⟨hfront, ⟨fun later hlater _ => yields_of_passed (hafter later hlater), hback⟩, ?_⟩
      intro record hrecord later hlater hpair
      rcases List.mem_cons.mp hlater with rfl | hlater
      · exact hyields record hrecord hpair
      · exact hacross record hrecord later (List.mem_cons_of_mem _ hlater) hpair
    · rcases List.mem_append.mp hrecord with hrecord | hrecord
      · exact h.sound record (by simp [hrecord])
      · rcases List.mem_cons.mp hrecord with rfl | hrecord
        · exact hsound
        · exact h.sound record (by simp [hrecord])
  · refine ⟨fun target => selected_join target now h hafter hold hmapped hconforms, ?_,
      fun record hrecord => ?_⟩
    · rw [List.pairwise_append, List.pairwise_append]
      refine ⟨⟨hfront, hback, fun record hrecord later hlater =>
        hacross record hrecord later (List.mem_cons_of_mem _ hlater)⟩,
        List.pairwise_singleton _ _, ?_⟩
      intro record hrecord later hlater hpair
      rw [List.mem_singleton.mp hlater]
      rcases List.mem_append.mp hrecord with hrecord | hrecord
      · exact hyields record hrecord hpair
      · -- a pair that is looked past is of another surface
        have hpassed := hafter record hrecord
        cases record with
        | event e => exact hpair.elim
        | frames target found held =>
            rcases hpassed with hkind | ⟨-, hne, -⟩
            · cases hkind
            · exact ⟨fun heq => hne heq.symm, by simpa using hbarrier⟩
    · rcases List.mem_append.mp hrecord with hrecord | hrecord
      · refine h.sound record ?_
        rcases List.mem_append.mp hrecord with hrecord | hrecord
        · simp [hrecord]
        · simp [hrecord]
      · rw [List.mem_singleton.mp hrecord]
        exact hsound

end Join

/-- No two frames of the surface wait when a commit starts anew. -/
theorem StartsAnew.yields (h : StartsAnew surface (pending.map (·.planRecord)))
    (hordered : pending.Pairwise fun record later => record.IsPair → record.Yields later)
    (hrecord : record ∈ pending) (hpair : record.IsPair) : surface ≠ record.surface := by
  have hother : record.planRecord.surface ≠ surface → surface ≠ record.surface := by
    cases record with
    | event e => exact hpair.elim
    | frames target queue barrier => exact Ne.symm
  have hkind : ∃ mapped, record.planRecord.kind = .commit mapped := by
    cases record with
    | event e => exact hpair.elim
    | frames target queue barrier => exact ⟨_, rfl⟩
  have hpassed : record.planRecord.Passed surface → surface ≠ record.surface := by
    rintro (hmetadata | ⟨-, hne, -⟩)
    · obtain ⟨mapped, hcommit⟩ := hkind
      rw [hcommit] at hmetadata
      cases hmetadata
    · exact hother hne
  rcases h with hall | ⟨front, stop, back, hrecords, hstops, hback⟩
  · exact hpassed (hall _ (List.mem_map_of_mem hrecord))
  · obtain ⟨before, rest, rfl, rfl, hrest⟩ := List.map_eq_append_iff.mp hrecords
    obtain ⟨found, after, rfl, rfl, rfl⟩ := List.map_eq_cons_iff.mp hrest
    rcases List.mem_append.mp hrecord with hrecord | hrecord
    · -- nothing that stops the plan waits behind a pair
      have hyields := (List.pairwise_append.mp hordered).2.2 record hrecord found
        List.mem_cons_self hpair
      cases found with
      | event e =>
          rcases hstops with hcontrol | ⟨-, hbarrier⟩
          · have hevent : isControl e = true := decide_eq_true hcontrol
            rw [show isControl e = false from hyields] at hevent
            cases hevent
          · cases hbarrier
      | frames target queue barrier =>
          rcases hstops with hcontrol | ⟨-, hbarrier⟩
          · cases hcontrol
          · have hheld : barrier = true := hbarrier
            rw [hyields.2] at hheld
            cases hheld
    · rcases List.mem_cons.mp hrecord with rfl | hrecord
      · rcases hstops with hcontrol | ⟨hne, -⟩
        · obtain ⟨mapped, hcommit⟩ := hkind
          rw [hcommit] at hcontrol
          cases hcontrol
        · exact hother hne
      · exact hpassed (hback _ (List.mem_map_of_mem hrecord))

/-- A commit that starts anew. -/
theorem Smoothed.appendFrames (h : Smoothed conforms pushed drained pending)
    {commit : ClientSurfaceCommit} (hframes : queue.frames = [commit])
    (hyields : ∀ record ∈ pending, record.IsPair → surface ≠ record.surface ∧ barrier = false) :
    Smoothed conforms (pushed ++ [⟨surface, .commit commit⟩]) drained
      (pending ++ [.frames surface queue barrier]) := by
  refine ⟨fun target => ?_, ?_, fun record hrecord => ?_⟩
  · have hselected := h.selected target
    rw [viewOf_append, queued_append, ← List.append_assoc]
    by_cases htarget : surface = target
    · have hview : viewOf target [⟨surface, .commit commit⟩] = [.commit commit] := by
        simp [viewOf, ShownItem.ofEvent, htarget]
      have hitems : queued target [.frames surface queue barrier] = [.commit commit] := by
        simp [InboxRecord.items, htarget, hframes]
      rw [hview, hitems]
      exact hselected.append _
    · have hview : viewOf target [⟨surface, .commit commit⟩] = [] :=
        List.filterMap_cons_none (if_neg htarget)
      rw [hview, List.append_nil]
      simpa [InboxRecord.items, htarget] using hselected
  · rw [List.pairwise_append]
    refine ⟨h.ordered, List.pairwise_singleton _ _, fun record hrecord later hlater hpair => ?_⟩
    rw [List.mem_singleton.mp hlater]
    exact hyields record hrecord hpair
  · rcases List.mem_append.mp hrecord with hrecord | hrecord
    · exact h.sound record hrecord
    · rw [List.mem_singleton.mp hrecord]
      exact ⟨by simp [hframes], fun a b hab => by simp [hframes] at hab⟩

theorem frames_mailboxFor (inbox : ClientPresentationInbox) (surface : ClientSurfaceId)
    (commit : ClientSurfaceCommit) (now : Instant) :
    ((inbox.mailboxFor surface).push commit now).1.frames = [commit] := by
  have hempty : (inbox.mailboxFor surface).frames = [] := by
    unfold mailboxFor
    split
    · rfl
    · rfl
  rw [frames_push, hempty]
  simp

variable (h : Smoothed conforms pushed drained inbox.pending)
include h

/-- **A commit.** -/
theorem Smoothed.commit (surface : ClientSurfaceId) (commit : ClientSurfaceCommit) (now : Instant)
    (hconforms : conforms → Conforms (unscoped (pushed ++ [⟨surface, .commit commit⟩]))) :
    Smoothed conforms (pushed ++ [⟨surface, .commit commit⟩]) drained
      (inbox.commit surface commit now).pending := by
  rcases commit_cases surface commit now h.sound with
    ⟨before, queue, barrier, after, old, hpending, hafter, hold, hmapped, heq⟩ |
      ⟨barrier, hbarrier, heq⟩
  · rw [heq]
    rw [hpending] at h
    exact h.join now hafter hold hmapped hconforms
  · rw [heq]
    obtain ⟨hcollapsed, hsingle⟩ := h.collapse
    cases barrier with
    | true =>
        exact hcollapsed.appendFrames (frames_mailboxFor _ _ _ _)
          fun record hrecord hpair => absurd hpair (hsingle record hrecord)
    | false =>
        rcases hbarrier with hbarrier | ⟨hanew, -⟩
        · cases hbarrier
        · exact h.appendFrames (frames_mailboxFor _ _ _ _)
            fun record hrecord hpair => ⟨hanew.yields h.ordered hrecord hpair, rfl⟩

/-! ### A push -/

omit h in
/-- Labels take the place of labels. -/
theorem planMetadataRecords_some {records : List (PlanRecord × ℕ)} {index : ℕ}
    (h : (planMetadataRecords surface records).replacement = some index) :
    ∃ record, (record, index) ∈ records ∧ record.kind = .metadata := by
  induction records with
  | nil => cases h
  | cons entry earlier ih =>
      obtain ⟨record, i⟩ := entry
      rw [planMetadataRecords] at h
      split_ifs at h with hsame hstop
      · cases h
        exact ⟨record, List.mem_cons_self, hsame.2.2⟩
      · obtain ⟨found, hfound, hkind⟩ := ih h
        exact ⟨found, List.mem_cons_of_mem _ hfound, hkind⟩

omit h in
/-- Labels go to the end, and take older labels out of the queue. -/
theorem pushMetadata_cases (inbox : ClientPresentationInbox) (surface : ClientSurfaceId)
    (metadata : ClientSurfaceMetadata) :
    inbox.pushMetadata ⟨surface, .metadata metadata⟩ =
        { inbox with pending := inbox.pending ++ [.event ⟨surface, .metadata metadata⟩] } ∨
      ∃ before target old after, inbox.pending = before ++ .event ⟨target, .metadata old⟩ :: after ∧
        inbox.pushMetadata ⟨surface, .metadata metadata⟩ =
          { inbox with pending := before ++ after ++ [.event ⟨surface, .metadata metadata⟩] } := by
  unfold pushMetadata
  cases hplan : (inbox.plan surface .metadata).replacement with
  | none => exact Or.inl rfl
  | some index =>
      obtain ⟨record, hmem, hkind⟩ := planMetadataRecords_some hplan
      rw [List.mem_reverse, List.mem_zipIdx_iff_getElem?, List.getElem?_map] at hmem
      obtain ⟨found, hget, rfl⟩ : ∃ found, inbox.pending[index]? = some found ∧
          found.planRecord = record := Option.map_eq_some_iff.mp hmem
      obtain ⟨hindex, rfl⟩ := List.getElem?_eq_some_iff.mp hget
      have hpending : inbox.pending = inbox.pending.take index ++
          inbox.pending[index] :: inbox.pending.drop (index + 1) := by simp
      cases hfound : inbox.pending[index] with
      | frames target queue barrier =>
          rw [hfound] at hkind
          cases hkind
      | event e =>
          obtain ⟨target, kind⟩ := e
          rw [hfound] at hkind hpending
          cases kind with
          | metadata old =>
              refine Or.inr ⟨_, target, old, _, hpending, ?_⟩
              rw [← List.eraseIdx_eq_take_drop_succ]
          | _ => cases hkind

theorem Smoothed.pushMetadata (surface : ClientSurfaceId) (metadata : ClientSurfaceMetadata) :
    Smoothed conforms (pushed ++ [⟨surface, .metadata metadata⟩]) drained
      (inbox.pushMetadata ⟨surface, .metadata metadata⟩).pending := by
  have hnoControl : ∀ {pending : List InboxRecord},
      isControl ⟨surface, .metadata metadata⟩ = true → ∀ record ∈ pending, ¬ record.IsPair := by
    intro pending hcontrol
    cases hcontrol
  rcases pushMetadata_cases inbox surface metadata with heq | ⟨before, target, old, after, hpending, heq⟩
  · rw [heq]
    exact h.appendEvent rfl hnoControl
  · rw [heq]
    rw [hpending] at h
    exact h.eraseMetadata.appendEvent rfl hnoControl

/-- **A push.** -/
theorem Smoothed.pushAt (event : ClientSurfaceEvent) (now : Instant)
    (hconforms : conforms → Conforms (unscoped (pushed ++ [event]))) :
    Smoothed conforms (pushed ++ [event]) drained (inbox.pushAt event now).1.pending := by
  have hnoted : (inbox.noteMapped event).pending = inbox.pending := by
    unfold noteMapped
    split <;> rfl
  have hbefore : Smoothed conforms pushed drained (inbox.noteMapped event).pending := by
    rw [hnoted]
    exact h
  have hcontrol : isCommit event = false →
      Smoothed conforms (pushed ++ [event]) drained
        ((inbox.noteMapped event).collapseHistory.pending ++ [.event event]) := fun hcommit =>
    hbefore.collapse.1.appendEvent hcommit fun _ => hbefore.collapse.2
  obtain ⟨surface, kind⟩ := event
  cases kind with
  | commit commit => exact hbefore.commit surface commit now hconforms
  | metadata metadata => exact hbefore.pushMetadata surface metadata
  | role | interaction | stateRequest | destroyed => exact hcontrol rfl

omit h

/-! ### An opportunity -/

namespace InboxRecord

/-- One frame waits in the record. -/
def IsSingle : InboxRecord → Prop
  | event _ => False
  | frames _ queue _ => queue.frames.length = 1

/-- Frames of the surface may be queued behind the record. -/
def Apart (surface : ClientSurfaceId) : InboxRecord → Prop
  | event e => isControl e = false
  | frames target _ _ => target ≠ surface

end InboxRecord

theorem queued_apart (hapart : ∀ record ∈ todo, record.Apart surface)
    (hsound : ∀ record ∈ todo, record.Sound conforms) : queued surface todo = [] := by
  refine List.flatMap_eq_nil_iff.mpr fun record hrecord => ?_
  have hrecordApart := hapart record hrecord
  have hrecordSound := hsound record hrecord
  cases record with
  | event e =>
      obtain ⟨target, kind⟩ := e
      cases kind with
      | metadata metadata => rfl
      | commit c => cases hrecordSound
      | _ => cases hrecordApart
  | frames target queue barrier => exact if_neg hrecordApart

/-- In the middle of an opportunity: `todo` is still to be popped, and what is left of the mailboxes
that have been waits behind it. -/
structure Passing (conforms : Prop) (pushed drained : List ClientSurfaceEvent)
    (todo left : List InboxRecord) : Prop where
  selected : ∀ surface, Selected conforms (viewOf surface pushed)
    (viewOf surface drained ++ (queued surface todo ++ queued surface left))
  ordered : todo.Pairwise fun record later => record.IsPair → record.Yields later
  sound : ∀ record ∈ todo, record.Sound conforms
  behind : ∀ record ∈ left, record.IsSingle ∧ ∀ earlier ∈ todo, earlier.Apart record.surface

/-- A frame is selected: the latest one, or the first of two. -/
theorem pop_sound (h : (InboxRecord.frames surface queue barrier).Sound conforms) (now : Instant) :
    ∃ shown, (queue.pop now).2.1 = some shown ∧
      (((queue.pop now).1.frames = [] ∧ ∀ log front back,
          Selected conforms log (front ++ (queue.frames.map .commit ++ back)) →
          Selected conforms log (front ++ .commit shown :: back)) ∨
        ∃ last, (queue.pop now).1.frames = [last] ∧ queue.frames = [shown, last]) := by
  obtain ⟨⟨stale, hframes, hstale, hone⟩, hrest, hnone⟩ := queue.frames_pop now
  cases hshown : (queue.pop now).2.1 with
  | none => exact absurd (hnone hshown) h.1
  | some shown =>
      refine ⟨shown, rfl, ?_⟩
      rw [hshown] at hframes
      rcases hone with rfl | hempty
      · cases hleft : (queue.pop now).1.frames with
        | nil =>
            rw [hleft] at hframes
            exact Or.inl ⟨rfl, fun log front back hselected => by simpa [hframes] using hselected⟩
        | cons last more =>
            rw [hleft] at hframes hrest
            obtain rfl : more = [] := by simpa using hrest
            exact Or.inr ⟨last, rfl, by simpa using hframes⟩
      · rw [hempty] at hframes
        refine Or.inl ⟨hempty, fun log front back hselected => ?_⟩
        cases stale with
        | nil => simpa [hframes] using hselected
        | cons old more =>
            -- what is dropped is what the selected frame has taken over from
            obtain rfl : more = [] := by simpa using hstale
            have hboth : queue.frames = [old, shown] := by simpa using hframes
            rw [hboth] at hselected
            exact Thinned.drop hselected (h.2 old shown hboth)

/-- **A selection.** -/
theorem Passing.popAt {left : List InboxRecord}
    (h : Passing conforms pushed drained (record :: todo) left)
    (hpending : inbox.pending = record :: todo ++ left) (now : Instant) :
    ∃ rest, (inbox.popAt now).1.pending = todo ++ rest ∧
      Passing conforms pushed (drained ++ (inbox.popAt now).2.toList) todo rest ∧
      (¬ record.IsPair → rest = left) := by
  obtain ⟨hyields, hordered⟩ := List.pairwise_cons.mp h.ordered
  have hsound : ∀ later ∈ todo, later.Sound conforms :=
    fun later hlater => h.sound later (List.mem_cons_of_mem _ hlater)
  have hbehind : ∀ later ∈ left, later.IsSingle ∧ ∀ earlier ∈ todo, earlier.Apart later.surface :=
    fun later hlater => ⟨(h.behind later hlater).1, fun earlier hearlier =>
      (h.behind later hlater).2 earlier (List.mem_cons_of_mem _ hearlier)⟩
  unfold ClientPresentationInbox.popAt
  rw [hpending, List.cons_append]
  cases record with
  | event e =>
      refine ⟨left, rfl, ⟨fun target => ?_, hordered, hsound, hbehind⟩, fun _ => rfl⟩
      have hselected := h.selected target
      simpa [InboxRecord.items] using hselected
  | frames surface queue barrier =>
      obtain ⟨shown, hshown, hcases⟩ := pop_sound (h.sound _ List.mem_cons_self) now
      simp only [finishPop, hshown, Option.map_some, Option.toList_some, ← frames_eq_nil_iff]
      have hview : ∀ target, viewOf target [⟨surface, .commit shown⟩] =
          if surface = target then [.commit shown] else [] := by
        intro target
        by_cases htarget : surface = target <;> simp [viewOf, ShownItem.ofEvent, htarget]
      rcases hcases with ⟨hempty, hlatest⟩ | ⟨last, hleft, hframes⟩
      · rw [if_pos hempty]
        refine ⟨left, rfl, ⟨fun target => ?_, hordered, hsound, hbehind⟩, fun _ => rfl⟩
        have hselected := h.selected target
        rw [queued_cons, InboxRecord.items] at hselected
        rw [viewOf_append, hview]
        split_ifs at hselected ⊢ with htarget
        · rw [List.append_assoc] at hselected ⊢
          exact hlatest _ _ _ hselected
        · simpa using hselected
      · rw [if_neg (by simp [hleft])]
        have hpair : (InboxRecord.frames surface queue barrier).IsPair := by
          simp [InboxRecord.IsPair, hframes]
        have hapart : ∀ later ∈ todo, later.Apart surface := by
          intro later hlater
          have hyielded := hyields later hlater hpair
          cases later with
          | event e => exact hyielded
          | frames target found held => exact hyielded.1
        refine ⟨left ++ [.frames surface (queue.pop now).1 barrier], by simp,
          ⟨fun target => ?_, hordered, hsound, fun later hlater => ?_⟩,
          fun hsingle => absurd hpair hsingle⟩
        · have hselected := h.selected target
          rw [queued_cons, InboxRecord.items] at hselected
          rw [viewOf_append, hview, queued_append, queued_cons, queued_nil, InboxRecord.items, hleft]
          split_ifs at hselected ⊢ with htarget
          · -- nothing of the surface comes after its two frames
            subst htarget
            have hnone : queued surface left = [] := by
              refine List.flatMap_eq_nil_iff.mpr fun later hlater => ?_
              obtain ⟨hsingle, hbefore⟩ := h.behind later hlater
              cases later with
              | event e => exact hsingle.elim
              | frames target found held =>
                  exact if_neg fun heq => hbefore _ List.mem_cons_self heq.symm
            rw [hnone, queued_apart hapart hsound] at hselected ⊢
            rw [hframes] at hselected
            simpa using hselected
          · simpa using hselected
        · rcases List.mem_append.mp hlater with hlater | hlater
          · exact hbehind later hlater
          · rw [List.mem_singleton.mp hlater]
            exact ⟨by simp [InboxRecord.IsSingle, hleft], hapart⟩

theorem Passing.popMany (now : Instant) :
    ∀ {inbox : ClientPresentationInbox} {drained : List ClientSurfaceEvent} {left},
      Passing conforms pushed drained todo left → inbox.pending = todo ++ left →
      Passing conforms pushed (drained ++ (inbox.popMany now todo.length).2) []
          (inbox.popMany now todo.length).1.pending ∧
        ((∀ record ∈ todo, ¬ record.IsPair) →
          (inbox.popMany now todo.length).1.pending = left) := by
  induction todo with
  | nil =>
      intro inbox drained left h hpending
      simp only [List.length_nil, ClientPresentationInbox.popMany, List.append_nil]
      rw [hpending]
      exact ⟨h, fun _ => rfl⟩
  | cons record todo ih =>
      intro inbox drained left h hpending
      obtain ⟨rest, hrest, hpassing, hsame⟩ := h.popAt hpending now
      obtain ⟨hdone, hnone⟩ := ih hpassing hrest
      simp only [List.length_cons, ClientPresentationInbox.popMany]
      rw [← List.append_assoc]
      refine ⟨hdone, fun hsingle => ?_⟩
      rw [hnone fun other hother => hsingle other (List.mem_cons_of_mem _ hother)]
      exact hsame (hsingle record List.mem_cons_self)

/-- **An opportunity.**  No two frames are left, and nothing if no two were waiting. -/
theorem Smoothed.drainReady (h : Smoothed conforms pushed drained inbox.pending) (now : Instant) :
    Smoothed conforms pushed (drained ++ (inbox.drainReady now).2)
        (inbox.drainReady now).1.pending ∧
      (∀ record ∈ (inbox.drainReady now).1.pending, ¬ record.IsPair) ∧
      ((∀ record ∈ inbox.pending, ¬ record.IsPair) → (inbox.drainReady now).1.pending = []) := by
  have hstart : Passing conforms pushed drained inbox.pending [] :=
    ⟨fun surface => by simpa using h.selected surface, h.ordered, h.sound,
      fun record hrecord => absurd hrecord List.not_mem_nil⟩
  obtain ⟨hdone, hnone⟩ := Passing.popMany now hstart (List.append_nil _).symm
  have hsingle : ∀ record ∈ (inbox.drainReady now).1.pending, ¬ record.IsPair := by
    intro record hrecord
    have hone := (hdone.behind record hrecord).1
    cases record with
    | event e => exact fun hpair => hpair
    | frames surface queue barrier =>
        simp only [InboxRecord.IsSingle] at hone
        simp only [InboxRecord.IsPair]
        omega
  refine ⟨⟨hdone.selected, ?_, fun record hrecord => ?_⟩, hsingle, hnone⟩
  · exact List.pairwise_of_forall_mem_list
      fun record hrecord later hlater hpair => absurd hpair (hsingle record hrecord)
  · have hone := (hdone.behind record hrecord).1
    cases record with
    | event e => exact hone.elim
    | frames surface queue barrier =>
        simp only [InboxRecord.IsSingle] at hone
        refine ⟨fun hnil => by simp [hnil] at hone, fun a b hab => by simp [hab] at hone⟩

end Client
