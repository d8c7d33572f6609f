/-
**Where the frames of a connection are.**

The destination of an encoded connection receives the control records of a source in their order, and
the frames in the order of the records that refer to them, but how far control is ahead of media, or
media of control, is not known.  Every frame is therefore in one of a few places: still due, kept
until it can be decoded, with the decoder, decoded, or published; one that is due for a record that
was discarded has a tombstone.

`delivered` are the records whose control has been delivered and `waiting` the others; `arrived` are
the frames that have been delivered and `due` the others.

Main definitions: `SentRecord`, `SentRecord.Conforming`, `EncodedDestinationState.Carries`,
`EncodedDestinationState.Quiet`.

Main results:

* `arrived_or_due` — frames arrive in the order of their records;
* `EncodedDestinationState.Carries.after_publishReady`, `Carries.after_advance`,
  `Carries.after_applySourcePacket`, `Carries.after_drainOne` — what each operation does to the
  frames.
-/

import Weld.ReceiveRoom
import Weld.SchedulingFairness

namespace Encoded

open Client Gamepad Hoist Transition AList

/-! ### What a source sends -/

/-- The frames a control record refers to. -/
def SourceEnvelope.frames (envelope : SourceEnvelope) : List MediaFrameId :=
  match envelope.message with
  | .surface event => encodedFrames event
  | _ => []

/-- A control record, with the frames sent for it. -/
structure SentRecord where
  envelope : SourceEnvelope
  media : List MediaEnvelope := []

variable {frame : MediaFrameId}

namespace SentRecord

def frames (record : SentRecord) : List MediaFrameId := record.envelope.frames

/-- The frames sent are those the record refers to, of the same session, and none is too large. -/
structure Conforming (record : SentRecord) : Prop where
  frames : (record.media.map (·.frame)).Perm record.frames
  session : ∀ m ∈ record.media, m.session = record.envelope.session
  small : ∀ m ∈ record.media, m.bytes ≤ maxEncodedAccessUnitBytes

theorem Conforming.mem_frames {record : SentRecord} (h : record.Conforming) :
    frame ∈ record.frames ↔ ∃ m ∈ record.media, m.frame = frame := by
  rw [← h.frames.mem_iff, List.mem_map]

end SentRecord

/-- **Frames arrive in the order of their records**: either those of the first records have all
arrived, or those of the others are all due. -/
theorem arrived_or_due {first later : List SentRecord} {arrived due : List MediaEnvelope}
    (h : (first ++ later).flatMap (·.media) = arrived ++ due) :
    (∀ r ∈ first, ∀ m ∈ r.media, m ∈ arrived) ∨ (∀ r ∈ later, ∀ m ∈ r.media, m ∈ due) := by
  rw [List.flatMap_append, List.append_eq_append_iff] at h
  rcases h with ⟨between, harrived, -⟩ | ⟨between, -, hdue⟩
  · refine Or.inl fun r hr m hm => ?_
    rw [harrived]
    exact List.mem_append_left _ (List.mem_flatMap.mpr ⟨r, hr, hm⟩)
  · refine Or.inr fun r hr m hm => ?_
    rw [hdue]
    exact List.mem_append_right _ (List.mem_flatMap.mpr ⟨r, hr, hm⟩)

variable {r : SentRecord} {records : List SentRecord}

/-- Two records that refer to one frame are the same. -/
theorem record_unique (h : (records.flatMap (·.frames)).Nodup) {r' : SentRecord} (hr : r ∈ records)
    (hr' : r' ∈ records) (hf : frame ∈ r.frames) (hf' : frame ∈ r'.frames) : r = r' := by
  by_contra hne
  have hdisjoint := (List.nodup_flatMap.mp h).2
  obtain ⟨i, hi, rfl⟩ := List.getElem_of_mem hr
  obtain ⟨j, hj, rfl⟩ := List.getElem_of_mem hr'
  have hpair := List.pairwise_iff_getElem.mp hdisjoint
  rcases lt_trichotomy i j with hlt | heq | hlt
  · exact hpair i j hi hj hlt hf hf'
  · subst heq
    exact hne rfl
  · exact hpair j i hj hi hlt hf' hf

namespace EncodedDestinationState

/-! ### Where each frame is -/

/-- The frame is with the decoder. -/
def Offered (s : EncodedDestinationState) (frame : MediaFrameId) : Prop :=
  ∃ token job, s.decodeInFlight.lookup token = some job ∧ job.frame = frame

/-- The frame is with the decoder, and wanted. -/
def Decoding (s : EncodedDestinationState) (frame : MediaFrameId) : Prop :=
  ∃ token job, s.decodeInFlight.lookup token = some job ∧ job.frame = frame ∧ job.cancelled = false

theorem Decoding.offered {s : EncodedDestinationState} (h : s.Decoding frame) : s.Offered frame := by
  obtain ⟨token, job, hlookup, hframe, -⟩ := h
  exact ⟨token, job, hlookup, hframe⟩

/-- Some queued record refers to the frame. -/
def Queued (s : EncodedDestinationState) (frame : MediaFrameId) : Prop :=
  ∃ surface queue, s.queues.lookup surface = some queue ∧
    ∃ queued ∈ queue, frame ∈ encodedFrames queued.event

/-- The queued record of a surface is the one that was sent. -/
def Holds (surface : ClientSurfaceId) (r : SentRecord) (queued : QueuedDestinationEvent) : Prop :=
  ∃ event, r.envelope = ⟨queued.session, .surface event⟩ ∧ event.surface = surface ∧
    encodedFrames queued.event = encodedFrames event

variable {surface : ClientSurfaceId}

theorem Holds.frames {queued : QueuedDestinationEvent} (h : Holds surface r queued) :
    encodedFrames queued.event = r.frames := by
  obtain ⟨event, henvelope, -, hframes⟩ := h
  rw [hframes, SentRecord.frames, SourceEnvelope.frames, henvelope]

/-- Every queue holds records delivered, in their order, and each frame is where it should be. -/
structure Carries (delivered waiting : List SentRecord) (arrived due : List MediaEnvelope)
    (s : EncodedDestinationState) : Prop where
  conforming : ∀ r ∈ delivered ++ waiting, r.Conforming
  stream : (delivered ++ waiting).flatMap (·.media) = arrived ++ due
  distinct : ((delivered ++ waiting).flatMap (·.frames)).Nodup
  queues : ∀ surface queue, s.queues.lookup surface = some queue →
    ∃ records, records.Sublist delivered ∧ List.Forall₂ (Holds surface) records queue
  ready : ∀ surface queue, s.queues.lookup surface = some queue → queue ≠ [] →
    surface ∈ s.readySurfaces ∧ surface ∈ s.activity.surfaces
  traced : ∀ frame, s.Queued frame → frame ∈ due.map (·.frame) ∨ frame ∈ s.mediaFrames ∨
    frame ∈ s.decoded ∨ s.Decoding frame
  pending : ∀ frame media, s.mediaFrames.lookup frame = some media →
    (∃ m ∈ arrived, m.frame = frame ∧ m.session = media.session) ∧
      ((∃ r ∈ waiting, frame ∈ r.frames) ∨ s.Queued frame) ∧
      frame ∉ s.decoded ∧ ¬ s.Offered frame
  kept : ∀ m ∈ arrived, (∃ r ∈ waiting, m.frame ∈ r.frames) → m.frame ∈ s.mediaFrames
  taken : ∀ frame, frame ∈ s.decoded ∨ s.Offered frame → frame ∈ arrived.map (·.frame)
  awaited : ∀ m ∈ due, (∃ r ∈ delivered, m.frame ∈ r.frames) →
    s.Queued m.frame ∨ m.frame ∈ s.cancelledFrames
  tombstones : ∀ frame ∈ s.cancelledFrames, frame ∈ due.map (·.frame) ∧
    (∃ r ∈ delivered, frame ∈ r.frames) ∧ ¬ s.Queued frame
  tokens : ∀ token ∈ s.decodeInFlight, token < s.nextToken

/-- A part of what is queued belongs to a part of the records. -/
theorem holds_sublist {queue kept : List QueuedDestinationEvent}
    (h : List.Forall₂ (Holds surface) records queue) (hsub : kept.Sublist queue) :
    ∃ some_, some_.Sublist records ∧ List.Forall₂ (Holds surface) some_ kept := by
  induction h generalizing kept with
  | nil =>
      rw [List.sublist_nil.mp hsub]
      exact ⟨[], List.Sublist.refl [], List.Forall₂.nil⟩
  | @cons r queued records queue hhead _ ih =>
      cases hsub with
      | cons _ hsub =>
          obtain ⟨part, hpart, hholds⟩ := ih hsub
          exact ⟨part, hpart.cons r, hholds⟩
      | cons_cons _ hsub =>
          obtain ⟨part, hpart, hholds⟩ := ih hsub
          exact ⟨r :: part, hpart.cons_cons r, List.Forall₂.cons hhead hholds⟩

section Carries

variable {delivered waiting : List SentRecord} {arrived due : List MediaEnvelope}
  {s t : EncodedDestinationState}

/-! ### Frames and records -/

variable (h : Carries delivered waiting arrived due s)
include h

theorem Carries.frames_perm :
    ((arrived ++ due).map (·.frame)).Perm ((delivered ++ waiting).flatMap (·.frames)) := by
  rw [← h.stream, List.map_flatMap]
  exact List.Perm.flatMap_left _ fun r hr => (h.conforming r hr).frames

variable {frame : MediaFrameId} {surface : ClientSurfaceId}
  {queue rest : List QueuedDestinationEvent} {queued front : QueuedDestinationEvent}
  {env : DecoderAnswers} {fuel : ℕ}

/-- The frames sent are those that records refer to. -/
theorem Carries.known :
    (∃ r ∈ delivered ++ waiting, frame ∈ r.frames) ↔
      frame ∈ arrived.map (·.frame) ∨ frame ∈ due.map (·.frame) := by
  rw [← List.mem_append, ← List.map_append, h.frames_perm.mem_iff, List.mem_flatMap]

/-- No frame is due that has arrived. -/
theorem Carries.apart (harrived : frame ∈ arrived.map (·.frame)) : frame ∉ due.map (·.frame) := by
  have hnodup := h.frames_perm.nodup_iff.mpr h.distinct
  rw [List.map_append, List.nodup_append] at hnodup
  intro hdue
  exact hnodup.2.2 frame harrived frame hdue rfl

/-- No frame of a record that waits belongs to one that is delivered. -/
theorem Carries.not_waiting {r' : SentRecord} (hr : r ∈ delivered) (hframe : frame ∈ r.frames)
    (hr' : r' ∈ waiting) : frame ∉ r'.frames := by
  have hdistinct := h.distinct
  rw [List.flatMap_append, List.nodup_append] at hdistinct
  intro hframe'
  exact hdistinct.2.2 frame (List.mem_flatMap.mpr ⟨r, hr, hframe⟩) frame
    (List.mem_flatMap.mpr ⟨r', hr', hframe'⟩) rfl

section

variable (hlookup : s.queues.lookup surface = some queue)
include hlookup

/-- What a queue holds has been delivered. -/
theorem Carries.record_of_queued (hmem : queued ∈ queue) :
    ∃ r ∈ delivered, Holds surface r queued := by
  obtain ⟨records, hsub, hall⟩ := h.queues surface queue hlookup
  obtain ⟨one, hone, hholds⟩ := holds_sublist hall (List.singleton_sublist.mpr hmem)
  obtain ⟨r, rest, hr, hrest, rfl⟩ := List.forall₂_cons_right_iff.mp hholds
  exact ⟨r, hsub.subset (hone.subset List.mem_cons_self), hr⟩

omit hlookup in
theorem Carries.delivered_of_queued (hqueued : s.Queued frame) :
    ∃ r ∈ delivered, frame ∈ r.frames := by
  obtain ⟨surface, queue, hlookup, queued, hmem, hframe⟩ := hqueued
  obtain ⟨r, hr, hholds⟩ := h.record_of_queued hlookup hmem
  exact ⟨r, hr, hholds.frames ▸ hframe⟩

/-- Only one queue refers to a frame. -/
theorem Carries.same_surface {surface' : ClientSurfaceId} {queue' : List QueuedDestinationEvent}
    (hlookup' : s.queues.lookup surface' = some queue') {queued' : QueuedDestinationEvent}
    (hmem : queued ∈ queue) (hmem' : queued' ∈ queue') (hframe : frame ∈ encodedFrames queued.event)
    (hframe' : frame ∈ encodedFrames queued'.event) : surface = surface' := by
  obtain ⟨r, hr, hholds⟩ := h.record_of_queued hlookup hmem
  obtain ⟨r', hr', hholds'⟩ := h.record_of_queued hlookup' hmem'
  rw [hholds.frames] at hframe
  rw [hholds'.frames] at hframe'
  have hsame : r = r' := record_unique h.distinct (List.mem_append_left _ hr)
    (List.mem_append_left _ hr') hframe hframe'
  subst hsame
  obtain ⟨event, henvelope, hsurface, -⟩ := hholds
  obtain ⟨event', henvelope', hsurface', -⟩ := hholds'
  rw [henvelope] at henvelope'
  simp only [SourceEnvelope.mk.injEq, EncodedSourceMessage.surface.injEq] at henvelope'
  rw [← hsurface, ← hsurface', henvelope'.2]

/-- The frames of a queue are all different. -/
theorem Carries.queue_nodup : (queue.flatMap fun queued => encodedFrames queued.event).Nodup := by
  obtain ⟨records, hsub, hall⟩ := h.queues surface queue hlookup
  have hframes : queue.flatMap (fun queued => encodedFrames queued.event) =
      records.flatMap (·.frames) := by
    clear hsub hlookup
    induction hall with
    | nil => rfl
    | cons hhead _ ih => rw [List.flatMap_cons, List.flatMap_cons, hhead.frames, ih]
  rw [hframes]
  exact h.distinct.sublist ((hsub.trans (List.sublist_append_left delivered waiting)).flatMap _)

end

/-- Nothing depends on anything else. -/
theorem Carries.congr (hqueues : t.queues = s.queues) (hready : t.readySurfaces = s.readySurfaces)
    (hactivity : ∀ surface, surface ∈ t.activity.surfaces ↔ surface ∈ s.activity.surfaces)
    (hmedia : ∀ frame, t.mediaFrames.lookup frame = s.mediaFrames.lookup frame)
    (hdecoded : t.decoded = s.decoded) (hjobs : t.decodeInFlight = s.decodeInFlight)
    (hcancelled : t.cancelledFrames = s.cancelledFrames) (htoken : s.nextToken ≤ t.nextToken) :
    Carries delivered waiting arrived due t := by
  have hqueued : ∀ frame, t.Queued frame ↔ s.Queued frame := by
    intro frame
    rw [Queued, Queued, hqueues]
  have hoffered : ∀ frame, t.Offered frame ↔ s.Offered frame := by
    intro frame
    rw [Offered, Offered, hjobs]
  have hdecoding : ∀ frame, t.Decoding frame ↔ s.Decoding frame := by
    intro frame
    rw [Decoding, Decoding, hjobs]
  have hkept : ∀ frame, frame ∈ t.mediaFrames ↔ frame ∈ s.mediaFrames := by
    intro frame
    rw [← lookup_isSome, ← lookup_isSome, hmedia]
  refine ⟨h.conforming, h.stream, h.distinct, ?_, ?_, ?_, ?_, ?_, ?_, ?_, ?_, ?_⟩
  · rw [hqueues]
    exact h.queues
  · intro surface queue
    rw [hqueues, hready, hactivity]
    exact h.ready surface queue
  · intro frame hframe
    rw [hkept, hdecoded, hdecoding]
    exact h.traced frame ((hqueued frame).mp hframe)
  · intro frame media hlookup
    rw [hmedia] at hlookup
    rw [hqueued, hoffered, hdecoded]
    exact h.pending frame media hlookup
  · intro m hm hwaiting
    rw [hkept]
    exact h.kept m hm hwaiting
  · intro frame hframe
    rw [hdecoded, hoffered] at hframe
    exact h.taken frame hframe
  · intro m hm hdelivered
    rw [hqueued, hcancelled]
    exact h.awaited m hm hdelivered
  · intro frame hframe
    rw [hcancelled] at hframe
    rw [hqueued]
    exact h.tombstones frame hframe
  · intro token htoken'
    rw [hjobs] at htoken'
    exact lt_of_lt_of_le (h.tokens token htoken') htoken

theorem Carries.same (e : SameContents s t) : Carries delivered waiting arrived due t :=
  h.congr e.queues e.readySurfaces (fun surface => by rw [e.activity])
    (fun frame => by rw [e.mediaFrames]) e.decoded e.decodeInFlight e.cancelledFrames
    (le_of_eq e.nextToken.symm)

omit h

/-! ### Publishing -/

theorem sameContents_sweepRetirement (h : sweepRetirement env s = .ok t) :
    SameContents s t ∧ t.output = s.output := by
  unfold sweepRetirement at h
  dsimp only at h
  split at h
  · cases h
  · cases h
    exact ⟨⟨rfl, rfl, rfl, rfl, rfl, rfl, rfl, rfl⟩, rfl⟩

/-- A decoder that retires what it is asked to. -/
theorem sweepRetirement_ok (hretire : ∀ n, env.retire n = none)
    (s : EncodedDestinationState) : ∃ t, sweepRetirement env s = .ok t := by
  unfold sweepRetirement
  simp only [hretire]
  rw [List.findSome?_eq_none_iff.mpr fun _ _ => rfl]
  exact ⟨_, rfl⟩

variable {frames : List MediaFrameId}

theorem publishFrames_spec (h : publishFrames env frames s = .ok t) :
    t = { s with decoded := s.decoded \ frames.toFinset, uses := s.uses + frames.length } := by
  induction frames generalizing s with
  | nil =>
      cases h
      simp
  | cons frame frames ih =>
      unfold publishFrames at h
      split_ifs at h with hmem
      split at h
      · cases h
      · rw [ih h]
        rw [List.toFinset_cons, Finset.sdiff_insert, List.length_cons, Nat.add_assoc,
          Nat.add_comm 1]
        congr 1
        rw [Finset.erase_sdiff_comm]

/-- Decoded frames can be published, each once. -/
theorem publishFrames_ok (hpublish : ∀ n, env.publish n = none) (hnodup : frames.Nodup)
    (hall : ∀ f ∈ frames, f ∈ s.decoded) : ∃ t, publishFrames env frames s = .ok t := by
  induction frames generalizing s with
  | nil => exact ⟨s, rfl⟩
  | cons frame frames ih =>
      obtain ⟨hfresh, hnodup⟩ := List.nodup_cons.mp hnodup
      unfold publishFrames
      rw [if_pos (hall frame List.mem_cons_self), hpublish]
      refine ih hnodup fun f hf => ?_
      refine Finset.mem_erase.mpr ⟨fun heq => hfresh (heq ▸ hf), ?_⟩
      exact hall f (List.mem_cons_of_mem _ hf)

/-- The state after the front of a queue is published. -/
def published (s : EncodedDestinationState) (surface : ClientSurfaceId)
    (front : QueuedDestinationEvent) (rest : List QueuedDestinationEvent) :
    EncodedDestinationState :=
  { s with
    queues := s.queues.insert surface rest
    decoded := s.decoded \ (encodedFrames front.event).toFinset
    uses := s.uses + (encodedFrames front.event).length
    output := s.output ++ [(front.session, front.event)] }

/-- The front of the queue, if there is one, waits for a frame. -/
def Blocked (s : EncodedDestinationState) (surface : ClientSurfaceId) : Prop :=
  ∀ front rest, s.queues.lookup surface = some (front :: rest) →
    ∃ frame ∈ encodedFrames front.event, frame ∉ s.decoded

/-- Every front waits for a frame. -/
def Quiet (s : EncodedDestinationState) : Prop := ∀ surface, s.Blocked surface

/-- **The front of a queue is published, or it is blocked.** -/
theorem publishFront_cases
    {result : Option EncodedDestinationState} (h : publishFront env s surface = .ok result) :
    (result = none ∧ s.Blocked surface) ∨
      ∃ front rest, s.queues.lookup surface = some (front :: rest) ∧
        (∀ frame ∈ encodedFrames front.event, frame ∈ s.decoded) ∧
        result = some (s.published surface front rest) := by
  unfold publishFront at h
  split at h
  · rename_i hlookup
    cases h
    refine Or.inl ⟨rfl, fun front rest hfront => ?_⟩
    rw [hlookup] at hfront
    cases hfront
  · rename_i hlookup
    cases h
    refine Or.inl ⟨rfl, fun front rest hfront => ?_⟩
    rw [hlookup] at hfront
    cases hfront
  · rename_i front rest hlookup
    by_cases hall : ((encodedFrames front.event).all fun frame => decide (frame ∈ s.decoded)) = true
    · rw [if_pos hall] at h
      obtain ⟨u, hu, rfl⟩ := map_eq_ok.mp h
      refine Or.inr ⟨front, rest, hlookup, by simpa using hall, ?_⟩
      rw [publishFrames_spec hu]
      rfl
    · rw [if_neg hall] at h
      cases h
      refine Or.inl ⟨rfl, fun front' rest' hfront => ?_⟩
      rw [hlookup] at hfront
      obtain ⟨rfl, -⟩ := List.cons.inj (Option.some.inj hfront)
      simpa using hall

include h

/-- A frame of what is published is queued no more. -/
theorem Carries.not_queued_published (hlookup : s.queues.lookup surface = some (front :: rest))
    (hframe : frame ∈ encodedFrames front.event) :
    ¬ (s.published surface front rest).Queued frame := by
  rintro ⟨surface', queue, hlookup', queued, hmem, hframe'⟩
  change (s.queues.insert surface rest).lookup surface' = some queue at hlookup'
  rw [lookup_insert_eq] at hlookup'
  split_ifs at hlookup' with hsame
  · cases hlookup'
    have hnodup := h.queue_nodup hlookup
    rw [List.flatMap_cons, List.nodup_append] at hnodup
    exact hnodup.2.2 frame hframe frame (List.mem_flatMap.mpr ⟨queued, hmem, hframe'⟩) rfl
  · exact hsame (h.same_surface hlookup' hlookup hmem List.mem_cons_self hframe' hframe)

omit h in
theorem queued_of_published (hlookup : s.queues.lookup surface = some (front :: rest))
    (h : (s.published surface front rest).Queued frame) : s.Queued frame := by
  obtain ⟨surface', queue, hlookup', queued, hmem, hframe⟩ := h
  change (s.queues.insert surface rest).lookup surface' = some queue at hlookup'
  rw [lookup_insert_eq] at hlookup'
  split_ifs at hlookup' with hsame
  · cases hlookup'
    exact ⟨surface, _, hlookup, queued, List.mem_cons_of_mem _ hmem, hframe⟩
  · exact ⟨surface', queue, hlookup', queued, hmem, hframe⟩

omit h in
/-- A frame that is queued stays so, unless it is published. -/
theorem queued_published_or (hlookup : s.queues.lookup surface = some (front :: rest))
    (h : s.Queued frame) :
    frame ∈ encodedFrames front.event ∨ (s.published surface front rest).Queued frame := by
  obtain ⟨surface', queue, hlookup', queued, hmem, hframe⟩ := h
  by_cases hsame : surface' = surface
  · subst hsame
    rw [hlookup] at hlookup'
    cases hlookup'
    rcases List.mem_cons.mp hmem with rfl | hmem
    · exact Or.inl hframe
    · exact Or.inr ⟨surface', rest, by simp [published], queued, hmem, hframe⟩
  · refine Or.inr ⟨surface', queue, ?_, queued, hmem, hframe⟩
    simp [published, hsame, hlookup']

theorem Carries.after_published (hlookup : s.queues.lookup surface = some (front :: rest))
    (hall : ∀ frame ∈ encodedFrames front.event, frame ∈ s.decoded) :
    Carries delivered waiting arrived due (s.published surface front rest) where
  conforming := h.conforming
  stream := h.stream
  distinct := h.distinct
  queues := by
    intro surface' queue hlookup'
    change (s.queues.insert surface rest).lookup surface' = some queue at hlookup'
    rw [lookup_insert_eq] at hlookup'
    split_ifs at hlookup' with hsame
    · cases hlookup'
      subst hsame
      obtain ⟨records, hsub, hholds⟩ := h.queues surface' _ hlookup
      obtain ⟨r, others, -, hrest, rfl⟩ := List.forall₂_cons_right_iff.mp hholds
      exact ⟨others, (List.sublist_cons_self r others).trans hsub, hrest⟩
    · exact h.queues surface' queue hlookup'
  ready := by
    intro surface' queue hlookup' hnonempty
    change (s.queues.insert surface rest).lookup surface' = some queue at hlookup'
    rw [lookup_insert_eq] at hlookup'
    split_ifs at hlookup' with hsame
    · subst hsame
      exact h.ready surface' _ hlookup (List.cons_ne_nil _ _)
    · exact h.ready surface' queue hlookup' hnonempty
  traced := by
    intro frame hqueued
    have hother : frame ∉ encodedFrames front.event := fun hframe =>
      h.not_queued_published hlookup hframe hqueued
    rcases h.traced frame (queued_of_published hlookup hqueued) with hdue | hkept | hdecoded | hjob
    · exact Or.inl hdue
    · exact Or.inr (Or.inl hkept)
    · refine Or.inr (Or.inr (Or.inl ?_))
      exact Finset.mem_sdiff.mpr ⟨hdecoded, by simpa using hother⟩
    · exact Or.inr (Or.inr (Or.inr hjob))
  pending := by
    intro frame media hmedia
    obtain ⟨harrived, hwanted, hnew, hfree⟩ := h.pending frame media hmedia
    refine ⟨harrived, ?_, fun hdecoded => hnew (Finset.mem_sdiff.mp hdecoded).1, hfree⟩
    rcases hwanted with hwaiting | hqueued
    · exact Or.inl hwaiting
    · rcases queued_published_or hlookup hqueued with hfront | hqueued
      · exact absurd (hall frame hfront) hnew
      · exact Or.inr hqueued
  kept := h.kept
  taken := by
    intro frame hframe
    refine h.taken frame (hframe.imp_left fun hdecoded => (Finset.mem_sdiff.mp hdecoded).1)
  awaited := by
    intro m hm hdelivered
    rcases h.awaited m hm hdelivered with hqueued | htombstone
    · rcases queued_published_or hlookup hqueued with hfront | hqueued
      · -- what is decoded has arrived
        have harrived := h.taken m.frame (Or.inl (hall m.frame hfront))
        exact absurd (List.mem_map_of_mem hm) (h.apart harrived)
      · exact Or.inl hqueued
    · exact Or.inr htombstone
  tombstones := by
    intro frame hframe
    obtain ⟨hdue, hdelivered, hfree⟩ := h.tombstones frame hframe
    exact ⟨hdue, hdelivered, fun hqueued => hfree (queued_of_published hlookup hqueued)⟩
  tokens := h.tokens

variable {surfaces busy : List ClientSurfaceId} {session : HoistSessionId} {media : PendingMedia}

/-- **A round publishes something, or finds every queue blocked.** -/
theorem Carries.after_publishPass {result : EncodedDestinationState × Bool}
    (hpass : publishPass env surfaces s = .ok result) :
    Carries delivered waiting arrived due result.1 ∧
      s.output.length + result.2.toNat ≤ result.1.output.length ∧
      (result.2 = false → result.1 = s ∧ ∀ surface ∈ surfaces, s.Blocked surface) := by
  induction surfaces generalizing s result with
  | nil =>
      cases hpass
      exact ⟨h, le_rfl, fun _ => ⟨rfl, fun _ hmem => absurd hmem List.not_mem_nil⟩⟩
  | cons surface surfaces ih =>
      obtain ⟨one, hone, hrest⟩ := bind_eq_ok.mp hpass
      rcases publishFront_cases hone with ⟨rfl, hblocked⟩ | ⟨front, rest, hlookup, hall, rfl⟩
      · obtain ⟨hcarries, houtput, hquiet⟩ := ih h hrest
        refine ⟨hcarries, houtput, fun hnone => ?_⟩
        obtain ⟨hsame, hothers⟩ := hquiet hnone
        exact ⟨hsame, List.forall_mem_cons.mpr ⟨hblocked, hothers⟩⟩
      · obtain ⟨other, hother, rfl⟩ := map_eq_ok.mp hrest
        obtain ⟨hcarries, houtput, -⟩ := ih (h.after_published hlookup hall) hother
        have hlength : (s.published surface front rest).output.length = s.output.length + 1 := by
          simp [published]
        refine ⟨hcarries, ?_, fun hnone => ?_⟩
        · dsimp only [Bool.toNat_true]
          omega
        · cases hnone

omit h in
theorem lookup_tidied :
    s.tidied.queues.lookup surface = some queue ↔
      s.queues.lookup surface = some queue ∧ queue ≠ [] := by
  change (s.queues.retain fun _ queue => !queue.isEmpty).lookup surface = _ ↔ _
  rw [lookup_retain, Option.filter_eq_some_iff]
  simp

omit h in
/-- Empty queues are of no account. -/
theorem queued_tidied : s.tidied.Queued frame ↔ s.Queued frame := by
  constructor
  · rintro ⟨surface, queue, hlookup, queued, hmem, hframe⟩
    exact ⟨surface, queue, (lookup_tidied.mp hlookup).1, queued, hmem, hframe⟩
  · rintro ⟨surface, queue, hlookup, queued, hmem, hframe⟩
    exact ⟨surface, queue, lookup_tidied.mpr ⟨hlookup, List.ne_nil_of_mem hmem⟩, queued, hmem,
      hframe⟩

theorem Carries.after_tidied : Carries delivered waiting arrived due s.tidied where
  conforming := h.conforming
  stream := h.stream
  distinct := h.distinct
  queues := fun surface queue hlookup => h.queues surface queue (lookup_tidied.mp hlookup).1
  ready := by
    intro surface queue hlookup hnonempty
    obtain ⟨hready, hregistered⟩ := h.ready surface queue (lookup_tidied.mp hlookup).1 hnonempty
    refine ⟨?_, hregistered⟩
    refine List.mem_filter.mpr ⟨hready, decide_eq_true ?_⟩
    exact lookup_isSome.mp (by rw [← Option.isSome_some (a := queue), ← hlookup]; rfl)
  traced := fun frame hframe => h.traced frame (queued_tidied.mp hframe)
  pending := by
    intro frame media hmedia
    rw [queued_tidied]
    exact h.pending frame media hmedia
  kept := h.kept
  taken := h.taken
  awaited := by
    intro m hm hdelivered
    rw [queued_tidied]
    exact h.awaited m hm hdelivered
  tombstones := by
    intro frame hframe
    rw [queued_tidied]
    exact h.tombstones frame hframe
  tokens := h.tokens

omit h in
theorem blocked_tidied (h : s.Blocked surface) : s.tidied.Blocked surface := by
  intro front rest hlookup
  exact h front rest (lookup_tidied.mp hlookup).1

/-- Every queue is in turn. -/
theorem Carries.quiet_of_ready (hblocked : ∀ surface ∈ s.readySurfaces, s.Blocked surface) :
    s.Quiet := by
  intro surface front rest hlookup
  exact hblocked surface (h.ready surface _ hlookup (List.cons_ne_nil _ _)).1 front rest hlookup

theorem Carries.after_publishLoop (hloop : publishLoop env fuel s = .ok t) :
    Carries delivered waiting arrived due t ∧ s.output.length ≤ t.output.length ∧
      (fuel ≠ 0 → t.output.length = s.output.length → t = s.tidied ∧ s.Quiet) := by
  induction fuel generalizing s with
  | zero =>
      cases hloop
      exact ⟨h, le_rfl, fun hfuel => absurd rfl hfuel⟩
  | succ fuel ih =>
      obtain ⟨⟨u, progressed⟩, hpass, hrest⟩ := bind_eq_ok.mp hloop
      obtain ⟨hcarries, houtput, hquiet⟩ := h.after_publishPass hpass
      dsimp only at hcarries houtput hquiet hrest
      cases progressed with
      | true =>
          obtain ⟨hcarries', houtput', -⟩ := ih hcarries.after_tidied hrest
          have htidied : u.tidied.output = u.output := rfl
          rw [htidied] at houtput'
          rw [Bool.toNat_true] at houtput
          refine ⟨hcarries', by omega, fun _ hsame => ?_⟩
          omega
      | false =>
          cases hrest
          obtain ⟨rfl, hblocked⟩ := hquiet rfl
          exact ⟨h.after_tidied, le_rfl, fun _ _ => ⟨rfl, h.quiet_of_ready hblocked⟩⟩

/-- **What is ready is published**; if nothing is, then every front waits for a frame. -/
theorem Carries.after_publishReady (hpublish : publishReady env s = .ok t) :
    Carries delivered waiting arrived due t ∧ s.output.length ≤ t.output.length ∧
      (t.output.length = s.output.length → SameContents s.tidied t ∧ t.Quiet) := by
  obtain ⟨u, hsweep, hrest⟩ := bind_eq_ok.mp hpublish
  obtain ⟨v, hloop, hsweep'⟩ := bind_eq_ok.mp hrest
  obtain ⟨hsame, houtput⟩ := sameContents_sweepRetirement hsweep
  obtain ⟨hsame', houtput'⟩ := sameContents_sweepRetirement hsweep'
  obtain ⟨hcarries, hless, hquiet⟩ := (h.same hsame).after_publishLoop hloop
  rw [← houtput', houtput] at hless
  refine ⟨hcarries.same hsame', hless, fun hnone => ?_⟩
  obtain ⟨rfl, hblocked⟩ := hquiet (Nat.succ_ne_zero _) (by rw [houtput, ← houtput', hnone])
  have htidied : SameContents s.tidied u.tidied := by
    refine ⟨?_, hsame.mediaFrames, hsame.decoded, hsame.decodeInFlight, ?_, hsame.cancelledFrames,
      hsame.activity, hsame.nextToken⟩
    · simp only [tidied, hsame.queues]
    · simp only [tidied, hsame.queues, hsame.readySurfaces]
  refine ⟨htidied.trans hsame', fun surface => ?_⟩
  rw [Blocked, hsame'.queues, hsame'.decoded]
  exact blocked_tidied (hblocked surface)

section

variable (hpublish : ∀ n, env.publish n = none)
include hpublish

theorem Carries.publishFront_ok (surface : ClientSurfaceId) :
    ∃ result, publishFront env s surface = .ok result := by
  unfold publishFront
  split
  · exact ⟨none, rfl⟩
  · exact ⟨none, rfl⟩
  · rename_i front rest hlookup
    split_ifs with hall
    · have hnodup := h.queue_nodup hlookup
      rw [List.flatMap_cons, List.nodup_append] at hnodup
      obtain ⟨u, hu⟩ := publishFrames_ok (s := { s with queues := s.queues.insert surface rest })
        hpublish hnodup.1 (by simpa using hall)
      exact ⟨_, by rw [hu]; rfl⟩
    · exact ⟨none, rfl⟩

theorem Carries.publishPass_ok (surfaces : List ClientSurfaceId) :
    ∃ result, publishPass env surfaces s = .ok result := by
  induction surfaces generalizing s with
  | nil => exact ⟨_, rfl⟩
  | cons surface surfaces ih =>
      obtain ⟨one, hone⟩ := h.publishFront_ok hpublish surface
      unfold publishPass
      rw [hone]
      rcases publishFront_cases hone with ⟨rfl, -⟩ | ⟨front, rest, hlookup, hall, rfl⟩
      · exact ih h
      · obtain ⟨other, hother⟩ := ih (h.after_published hlookup hall)
        exact ⟨(other.1, true), by simp only [Except.bind, hother]; rfl⟩

theorem Carries.publishLoop_ok : ∃ t, publishLoop env fuel s = .ok t := by
  induction fuel generalizing s with
  | zero => exact ⟨s, rfl⟩
  | succ fuel ih =>
      obtain ⟨result, hpass⟩ := h.publishPass_ok hpublish s.readySurfaces
      have hcarries := (h.after_publishPass hpass).1.after_tidied
      unfold publishLoop
      rw [hpass]
      simp only [Except.bind]
      split_ifs
      · exact ih hcarries
      · exact ⟨_, rfl⟩

end

/-- Publishing fails only where the decoder or the publisher does. -/
theorem Carries.publishReady_ok (hretire : ∀ n, env.retire n = none)
    (hpublish : ∀ n, env.publish n = none) : ∃ t, publishReady env s = .ok t := by
  obtain ⟨u, hu⟩ := sweepRetirement_ok hretire s
  have hcarries := h.same (sameContents_sweepRetirement hu).1
  obtain ⟨v, hv⟩ : ∃ v, publishLoop env (u.events + 1) u = .ok v := hcarries.publishLoop_ok hpublish
  obtain ⟨w, hw⟩ := sweepRetirement_ok hretire v
  exact ⟨w, bind_eq_ok.mpr ⟨u, hu, bind_eq_ok.mpr ⟨v, hv, hw⟩⟩⟩

omit h

/-! ### Decoding -/

theorem offered_iff :
    s.Offered frame ↔ ∃ entry ∈ s.decodeInFlight.entries, entry.2.frame = frame := by
  constructor
  · rintro ⟨token, job, hlookup, hframe⟩
    exact ⟨⟨token, job⟩, mem_entries_iff.mpr hlookup, hframe⟩
  · rintro ⟨⟨token, job⟩, hmem, hframe⟩
    exact ⟨token, job, mem_entries_iff.mp hmem, hframe⟩

theorem submitted_iff : s.submitted frame = true ↔ frame ∈ s.decoded ∨ s.Offered frame := by
  rw [submitted, Bool.or_eq_true, decide_eq_true_eq, List.any_eq_true, offered_iff]
  simp only [decide_eq_true_eq]

/-- A candidate is a frame of a queued record that is kept, and not submitted. -/
theorem decodeCandidate_spec (h : s.decodeCandidate surface = some (session, frame)) :
    ∃ queue queued, s.queues.lookup surface = some queue ∧ queued ∈ queue ∧
      frame ∈ encodedFrames queued.event ∧ queued.session = session ∧
      ¬ (frame ∈ s.decoded ∨ s.Offered frame) ∧ frame ∈ s.mediaFrames := by
  unfold decodeCandidate at h
  split at h
  · cases h
  · cases h
  · rename_i front rest hlookup
    obtain ⟨found, hfind, hpair⟩ := Option.map_eq_some_iff.mp h
    cases hpair
    have hmem := List.mem_of_find?_eq_some hfind
    have hfound := List.find?_some hfind
    rw [Bool.and_eq_true, Bool.not_eq_true', decide_eq_true_eq, ← Bool.not_eq_true,
      submitted_iff] at hfound
    have hfront : (∃ queued ∈ front :: rest, frame ∈ encodedFrames queued.event ∧
        queued.session = front.session) := by
      unfold framesInTurn at hmem
      dsimp only at hmem
      split at hmem
      · rename_i next others
        split_ifs at hmem with hahead
        · simp only [Bool.and_eq_true, beq_iff_eq] at hahead
          exact ⟨next, by simp, hmem, hahead.1.2⟩
        · exact ⟨front, List.mem_cons_self, hmem, rfl⟩
      · exact ⟨front, List.mem_cons_self, hmem, rfl⟩
    obtain ⟨queued, hqueued, hframe, hsession⟩ := hfront
    exact ⟨_, queued, hlookup, hqueued, hframe, hsession, hfound.1, hfound.2⟩

/-- The state after the decoder has accepted a frame. -/
def accepting (s : EncodedDestinationState) (frame : MediaFrameId) : EncodedDestinationState :=
  { s with
    mediaFrames := s.mediaFrames.erase frame
    nextToken := s.nextToken + 1
    uses := s.uses + 1
    decodeInFlight := s.decodeInFlight.insert s.nextToken { frame } }

/-- The state after the decoder was busy. -/
def refused (s : EncodedDestinationState) (frame : MediaFrameId) (media : PendingMedia) :
    EncodedDestinationState :=
  { s with
    mediaFrames := (s.mediaFrames.erase frame).insert frame media
    nextToken := s.nextToken + 1
    uses := s.uses + 1 }

include h

theorem Carries.after_refused (hlookup : s.mediaFrames.lookup frame = some media) :
    Carries delivered waiting arrived due (s.refused frame media) := by
  refine h.congr rfl rfl (fun _ => Iff.rfl) (fun other => ?_) rfl rfl rfl (Nat.le_succ _)
  rw [refused, lookup_insert_eq, lookup_erase_eq]
  split_ifs with hsame
  · rw [hsame, hlookup]
  · rfl

omit h in
theorem offered_accepting (h : ∀ token ∈ s.decodeInFlight, token < s.nextToken)
    {other : MediaFrameId} :
    (s.accepting frame).Offered other ↔ other = frame ∨ s.Offered other := by
  have hfresh : s.decodeInFlight.lookup s.nextToken = none :=
    lookup_eq_none.mpr fun hmem => absurd (h _ hmem) (lt_irrefl _)
  constructor
  · rintro ⟨token, job, hlookup, rfl⟩
    rw [accepting, lookup_insert_eq] at hlookup
    split_ifs at hlookup with hsame
    · cases hlookup
      exact Or.inl rfl
    · exact Or.inr ⟨token, job, hlookup, rfl⟩
  · rintro (rfl | ⟨token, job, hlookup, rfl⟩)
    · exact ⟨s.nextToken, { frame := other }, by simp [accepting], rfl⟩
    · refine ⟨token, job, ?_, rfl⟩
      have hother : token ≠ s.nextToken := by
        rintro rfl
        rw [hfresh] at hlookup
        cases hlookup
      rw [accepting, lookup_insert_ne hother, hlookup]

omit h in
theorem decoding_accepting (h : ∀ token ∈ s.decodeInFlight, token < s.nextToken)
    {other : MediaFrameId} (hdecoding : other = frame ∨ s.Decoding other) :
    (s.accepting frame).Decoding other := by
  rcases hdecoding with rfl | ⟨token, job, hlookup, hframe, hwanted⟩
  · exact ⟨s.nextToken, { frame := other }, by simp [accepting], rfl, rfl⟩
  · refine ⟨token, job, ?_, hframe, hwanted⟩
    have hmem : token ∈ s.decodeInFlight := mem_of_lookup hlookup
    have hless := h token hmem
    rw [accepting, lookup_insert_ne (Nat.ne_of_lt hless), hlookup]

/-- A frame that is kept and queued goes to the decoder. -/
theorem Carries.after_accepting (hkept : frame ∈ s.mediaFrames) (hqueued : s.Queued frame) :
    Carries delivered waiting arrived due (s.accepting frame) where
  conforming := h.conforming
  stream := h.stream
  distinct := h.distinct
  queues := h.queues
  ready := h.ready
  traced := by
    intro other hother
    rcases h.traced other hother with hdue | hmedia | hdecoded | hjob
    · exact Or.inl hdue
    · by_cases hsame : other = frame
      · exact Or.inr (Or.inr (Or.inr (decoding_accepting h.tokens (Or.inl hsame))))
      · exact Or.inr (Or.inl (mem_erase.mpr ⟨hsame, hmedia⟩))
    · exact Or.inr (Or.inr (Or.inl hdecoded))
    · exact Or.inr (Or.inr (Or.inr (decoding_accepting h.tokens (Or.inr hjob))))
  pending := by
    intro other media hlookup
    change (s.mediaFrames.erase frame).lookup other = some media at hlookup
    rw [lookup_erase_eq] at hlookup
    split_ifs at hlookup with hsame
    obtain ⟨harrived, hwanted, hnew, hfree⟩ := h.pending other media hlookup
    refine ⟨harrived, hwanted, hnew, ?_⟩
    rw [offered_accepting h.tokens]
    rintro (heq | hoffered)
    · exact hsame heq
    · exact hfree hoffered
  kept := by
    intro m hm hwaiting
    refine mem_erase.mpr ⟨?_, h.kept m hm hwaiting⟩
    rintro heq
    obtain ⟨r, hr, hframe⟩ := h.delivered_of_queued hqueued
    obtain ⟨r', hr', hframe'⟩ := hwaiting
    exact h.not_waiting hr hframe hr' (heq ▸ hframe')
  taken := by
    intro other hother
    rw [offered_accepting h.tokens] at hother
    rcases hother with hdecoded | rfl | hoffered
    · exact h.taken other (Or.inl hdecoded)
    · obtain ⟨media, hmedia⟩ := exists_lookup hkept
      obtain ⟨⟨m, hm, hframe, -⟩, -⟩ := h.pending other media hmedia
      exact List.mem_map.mpr ⟨m, hm, hframe⟩
    · exact h.taken other (Or.inr hoffered)
  awaited := h.awaited
  tombstones := h.tombstones
  tokens := by
    intro token htoken
    change token < s.nextToken + 1
    rcases (mem_insert _).mp htoken with rfl | hmem
    · exact Nat.lt_succ_self _
    · exact Nat.lt_succ_of_lt (h.tokens token hmem)

/-- A frame kept for a queued record is of the session of that record. -/
theorem Carries.session_of_pending (hlookup : s.queues.lookup surface = some queue)
    (hmem : queued ∈ queue) (hframe : frame ∈ encodedFrames queued.event)
    (hmedia : s.mediaFrames.lookup frame = some media) : media.session = queued.session := by
  obtain ⟨r, hr, hholds⟩ := h.record_of_queued hlookup hmem
  obtain ⟨⟨m, hm, hsame, hsession⟩, -⟩ := h.pending frame media hmedia
  have hsent : m ∈ (delivered ++ waiting).flatMap (·.media) := by
    rw [h.stream]
    exact List.mem_append_left _ hm
  obtain ⟨r', hr', hm'⟩ := List.mem_flatMap.mp hsent
  have hconforming := h.conforming r' hr'
  have hone : r = r' := by
    refine record_unique h.distinct (List.mem_append_left _ hr) hr' (hholds.frames ▸ hframe) ?_
    exact hconforming.mem_frames.mpr ⟨m, hm', hsame⟩
  subst hone
  obtain ⟨event, henvelope, -, -⟩ := hholds
  rw [← hsession, hconforming.session m hm', henvelope]

/-- Nothing is published, and no job is lost. -/
def Continues (s t : EncodedDestinationState) : Prop :=
  t.output = s.output ∧ ∀ token ∈ s.decodeInFlight, token ∈ t.decodeInFlight

omit h in
theorem Continues.refl (s : EncodedDestinationState) : Continues s s :=
  ⟨rfl, fun _ => id⟩

omit h in
theorem Continues.trans {u : EncodedDestinationState} (h : Continues s t) (h' : Continues t u) :
    Continues s u :=
  ⟨h'.1.trans h.1, fun token hmem => h'.2 token (h.2 token hmem)⟩

/-- **A candidate is offered to the decoder**, and nothing goes wrong but with the decoder. -/
theorem Carries.after_scheduleDecode (env : DecoderAnswers)
    (hcandidate : s.decodeCandidate surface = some (session, frame)) :
    (∃ reason, env.submit s.uses = .failed reason ∧
        scheduleDecode env s frame session = .error (.backend reason)) ∨
      ∃ u accepted, scheduleDecode env s frame session = .ok (u, accepted) ∧
        Carries delivered waiting arrived due u ∧ Continues s u ∧
        (env.submit s.uses = .accepted → accepted = true) ∧
        (accepted = true → ∃ token, token ∈ u.decodeInFlight) := by
  obtain ⟨queue, queued, hlookup, hmem, hframe, hsession, -, hkept⟩ :=
    decodeCandidate_spec hcandidate
  obtain ⟨media, hmedia⟩ := exists_lookup hkept
  have hagree : media.session = session :=
    (h.session_of_pending hlookup hmem hframe hmedia).trans hsession
  have hmetadata : ¬ (s.queuedEvents.all fun queued =>
      decide (frame ∉ encodedFrames queued.event)) = true := by
    intro hall
    have hevent : queued ∈ s.queuedEvents :=
      List.mem_flatMap.mpr ⟨⟨surface, queue⟩, mem_entries_iff.mpr hlookup, hmem⟩
    exact of_decide_eq_true (List.all_eq_true.mp hall queued hevent) hframe
  unfold scheduleDecode
  rw [hmedia]
  dsimp only
  rw [if_neg (not_not_intro hagree), if_neg hmetadata]
  cases hsubmit : env.submit s.uses with
  | accepted =>
      refine Or.inr ⟨s.accepting frame, true, rfl,
        h.after_accepting hkept ⟨surface, queue, hlookup, queued, hmem, hframe⟩,
        ⟨rfl, fun token hmem => ?_⟩, fun _ => rfl, fun _ => ⟨s.nextToken, ?_⟩⟩
      · exact (mem_insert _).mpr (Or.inr hmem)
      · exact (mem_insert _).mpr (Or.inl rfl)
  | busy =>
      refine Or.inr ⟨s.refused frame media, false, rfl, h.after_refused hmedia,
        ⟨rfl, fun _ => id⟩, fun haccepted => ?_, fun haccepted => ?_⟩
      · cases haccepted
      · cases haccepted
  | failed reason => exact Or.inl ⟨reason, rfl, rfl⟩

omit h in
theorem mem_rotateLeft {α : Type} {l : List α} {n : ℕ} {a : α} : a ∈ l.rotateLeft n ↔ a ∈ l := by
  unfold List.rotateLeft
  dsimp only
  split_ifs
  · rfl
  · rw [List.mem_append, or_comm, ← List.mem_append, List.take_append_drop]

/-- What the scheduler and the order of the surfaces are is of no account. -/
theorem Carries.rescheduled (scheduler : Scheduler)
    (hsurfaces : ∀ surface, surface ∈ surfaces ↔ surface ∈ s.readySurfaces) :
    Carries delivered waiting arrived due
      { s with scheduler := scheduler, readySurfaces := surfaces } :=
  { h with
    ready := by
      intro surface queue hlookup hnonempty
      obtain ⟨hready, hregistered⟩ := h.ready surface queue hlookup hnonempty
      exact ⟨(hsurfaces surface).mpr hready, hregistered⟩ }

/-- **Frames go to the decoder** while it takes them. -/
theorem Carries.after_advanceLoop (hloop : advanceLoop env fuel busy s = .ok t) :
    Carries delivered waiting arrived due t ∧ Continues s t := by
  induction fuel generalizing s busy with
  | zero =>
      cases hloop
      exact ⟨h, Continues.refl _⟩
  | succ fuel ih =>
      unfold advanceLoop at hloop
      dsimp only at hloop
      have hselected := h.rescheduled
        (s.scheduler.select s.candidates busy s.activity s.policy (env.now s.uses)).1
        (fun _ => Iff.rfl)
      split at hloop
      · cases hloop
        exact ⟨hselected, rfl, fun _ => id⟩
      · split at hloop
        · cases hloop
          exact ⟨hselected, rfl, fun _ => id⟩
        · rename_i session frame hcandidate
          rcases hselected.after_scheduleDecode env hcandidate with
            ⟨reason, -, herror⟩ | ⟨u, accepted, hschedule, hcarries, hcontinues, -, -⟩
          · rw [herror] at hloop
            cases hloop
          · rw [hschedule] at hloop
            simp only [Except.bind] at hloop
            have hsame : Continues s u := ⟨hcontinues.1, hcontinues.2⟩
            split_ifs at hloop
            · obtain ⟨hcarries', hcontinues'⟩ :=
                ih (hcarries.rescheduled _ fun _ => mem_rotateLeft) hloop
              exact ⟨hcarries', hsame.trans ⟨hcontinues'.1, hcontinues'.2⟩⟩
            · obtain ⟨hcarries', hcontinues'⟩ := ih hcarries hloop
              exact ⟨hcarries', hsame.trans hcontinues'⟩

/-- Advancing fails only where the decoder does. -/
theorem Carries.advanceLoop_ok (hsubmit : ∀ n reason, env.submit n ≠ .failed reason) :
    ∃ t, advanceLoop env fuel busy s = .ok t := by
  induction fuel generalizing s busy with
  | zero => exact ⟨s, rfl⟩
  | succ fuel ih =>
      unfold advanceLoop
      dsimp only
      have hselected := h.rescheduled
        (s.scheduler.select s.candidates busy s.activity s.policy (env.now s.uses)).1
        (fun _ => Iff.rfl)
      split
      · exact ⟨_, rfl⟩
      · split
        · exact ⟨_, rfl⟩
        · rename_i session frame hcandidate
          rcases hselected.after_scheduleDecode env hcandidate with
            ⟨reason, hfailed, -⟩ | ⟨u, accepted, hschedule, hcarries, -, -, -⟩
          · exact absurd hfailed (hsubmit _ reason)
          · rw [hschedule]
            simp only [Except.bind]
            split_ifs
            · exact ih (hcarries.rescheduled _ fun _ => mem_rotateLeft)
            · exact ih hcarries

/-- **A candidate gets its turn**: where the decoder has a slot, a frame is submitted. -/
theorem Carries.advanceLoop_submits (hready : surface ∈ s.readySurfaces)
    (hregistered : surface ∈ s.activity.surfaces)
    (hcandidate : (s.decodeCandidate surface).isSome = true) (hslot : env.submit s.uses = .accepted)
    (hloop : advanceLoop env (fuel + 1) [] s = .ok t) : ∃ token, token ∈ t.decodeInFlight := by
  have hmem : surface ∈ s.candidates := List.mem_filter.mpr ⟨hready, hcandidate⟩
  have hsome := Scheduler.select_isSome s.scheduler s.policy (env.now s.uses) hmem List.not_mem_nil
    ((s.activity.group_isSome surface).mpr hregistered)
  obtain ⟨selection, hselection⟩ := Option.isSome_iff_exists.mp hsome
  have hchosen := (Scheduler.select_mem hselection).1
  obtain ⟨⟨session, frame⟩, hturn⟩ := Option.isSome_iff_exists.mp (List.mem_filter.mp hchosen).2
  have hselected := h.rescheduled
    (s.scheduler.select s.candidates [] s.activity s.policy (env.now s.uses)).1 (fun _ => Iff.rfl)
  unfold advanceLoop at hloop
  dsimp only at hloop
  rw [hselection] at hloop
  dsimp only at hloop
  split at hloop
  · rename_i hnone
    rw [show s.decodeCandidate selection.surface = none from hnone] at hturn
    cases hturn
  · rename_i session' frame' hcandidate'
    rcases hselected.after_scheduleDecode env hcandidate' with
      ⟨reason, hfailed, -⟩ | ⟨u, accepted, hschedule, hcarries, -, haccepted, hjob⟩
    · rw [show env.submit s.uses = .failed reason from hfailed] at hslot
      cases hslot
    · rw [hschedule] at hloop
      obtain rfl := haccepted hslot
      obtain ⟨token, htoken⟩ := hjob rfl
      obtain ⟨-, hcontinues⟩ :=
        (hcarries.rescheduled _ fun _ => mem_rotateLeft).after_advanceLoop hloop
      exact ⟨token, hcontinues.2 token htoken⟩

theorem Carries.after_advance (hadvance : advance env s = .ok t) :
    Carries delivered waiting arrived due t := by
  obtain ⟨u, hpublish, hrest⟩ := bind_eq_ok.mp hadvance
  obtain ⟨v, hloop, hsweep⟩ := bind_eq_ok.mp hrest
  have hpublished := (h.after_publishReady hpublish).1
  exact (hpublished.after_advanceLoop hloop).1.same (sameContents_sweepRetirement hsweep).1

omit h

end Carries

end EncodedDestinationState

open EncodedDestinationState

end Encoded
