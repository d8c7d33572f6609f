/-
**Arrivals keep each frame in its place.**

Control arrives in the order in which it was sent, and so do frames.  A record that arrives joins the
queue of its surface, or ends the surface and discards the queue; a frame that arrives is kept, unless
its record was discarded.  A completion turns a frame that is being decoded into a decoded one.

Main definitions: `EncodedDestinationState.Discarded`.

Main results:

* `EncodedDestinationState.Carries.after_cancelSurface`, `Carries.after_control`,
  `Carries.after_enqueueMedia`, `Carries.after_drainOne` — what each operation does to the frames;
* `EncodedDestinationState.Carries.after_poll` — what a poll does.
-/

import Weld.MediaCustody

namespace Encoded

open Client Gamepad Hoist Transition AList

namespace EncodedDestinationState

section Carries

variable {delivered waiting : List SentRecord} {arrived due : List MediaEnvelope}
  {s t u : EncodedDestinationState}

/-! ### Discarding -/

/-- What discarding frames comes to. -/
structure Discarded (frames : List MediaFrameId) (s t : EncodedDestinationState) : Prop where
  queues : t.queues = s.queues
  readySurfaces : t.readySurfaces = s.readySurfaces
  activity : t.activity = s.activity
  nextToken : t.nextToken = s.nextToken
  media : ∀ frame, t.mediaFrames.lookup frame =
    if frame ∈ frames then none else s.mediaFrames.lookup frame
  decoded : t.decoded = s.decoded \ frames.toFinset
  offered : ∀ frame, t.Offered frame ↔ s.Offered frame
  decoding : ∀ frame, frame ∉ frames → s.Decoding frame → t.Decoding frame
  jobs : ∀ token, token ∈ t.decodeInFlight ↔ token ∈ s.decodeInFlight
  tombstones : ∀ frame, frame ∈ t.cancelledFrames ↔ frame ∈ s.cancelledFrames ∨
    frame ∈ frames ∧ frame ∉ s.mediaFrames ∧ frame ∉ s.decoded ∧ ¬ s.Offered frame

theorem Discarded.nil (s : EncodedDestinationState) : Discarded [] s s where
  queues := rfl
  readySurfaces := rfl
  activity := rfl
  nextToken := rfl
  media := by simp
  decoded := by simp
  offered := fun _ => Iff.rfl
  decoding := fun _ _ => id
  jobs := fun _ => Iff.rfl
  tombstones := by simp

variable {frame : MediaFrameId} {session : HoistSessionId} {surface : ClientSurfaceId}
  {env : DecoderAnswers} {r : SentRecord} {event : WireClientSurfaceEvent}

/-- Frames are discarded one by one. -/
theorem Discarded.cons {frames : List MediaFrameId}
    (h : Discarded [frame] s t) (h' : Discarded frames t u) (hfresh : frame ∉ frames) :
    Discarded (frame :: frames) s u where
  queues := h'.queues.trans h.queues
  readySurfaces := h'.readySurfaces.trans h.readySurfaces
  activity := h'.activity.trans h.activity
  nextToken := h'.nextToken.trans h.nextToken
  media := by
    intro other
    rw [h'.media, h.media]
    by_cases hsame : other = frame <;> by_cases hmem : other ∈ frames <;> simp [hsame, hmem]
  decoded := by
    ext other
    rw [h'.decoded, h.decoded]
    simp [not_or, and_assoc]
  offered := fun other => (h'.offered other).trans (h.offered other)
  decoding := by
    intro other hother hdecoding
    rw [List.mem_cons, not_or] at hother
    exact h'.decoding other hother.2 (h.decoding other (by simpa using hother.1) hdecoding)
  jobs := fun token => (h'.jobs token).trans (h.jobs token)
  tombstones := by
    intro other
    rw [h'.tombstones, h.tombstones, h.offered, h.decoded, ← lookup_isSome (s := t.mediaFrames),
      h.media]
    by_cases hsame : other = frame
    · subst hsame
      simp [hfresh]
    · simp [hsame, lookup_isSome]

/-- Whoever has a job with the frame is told that it is not wanted. -/
theorem discarded_cancelFrame
    (h : cancelFrame s session frame = .ok t) : Discarded [frame] s t := by
  have hmedia : ∀ other, (s.mediaFrames.erase frame).lookup other =
      if other ∈ [frame] then none else s.mediaFrames.lookup other := by
    intro other
    rw [lookup_erase_eq]
    simp
  have hdecoded : s.decoded.erase frame = s.decoded \ [frame].toFinset := by
    rw [List.toFinset_cons, List.toFinset_nil, insert_empty_eq, Finset.sdiff_singleton_eq_erase]
  unfold cancelFrame at h
  split at h
  · rename_i entry hfind
    cases h
    obtain ⟨token, job⟩ := entry
    have hframe : job.frame = frame := by simpa using List.find?_some hfind
    have hjob : s.decodeInFlight.lookup token = some job :=
      mem_entries_iff.mp (List.mem_of_find?_eq_some hfind)
    have hoffered : s.Offered frame := ⟨token, job, hjob, hframe⟩
    refine ⟨rfl, rfl, rfl, rfl, hmedia, hdecoded, ?_, ?_, ?_, ?_⟩
    · -- the job keeps its frame
      intro other
      constructor
      · rintro ⟨token', job', hlookup, rfl⟩
        rw [lookup_modify] at hlookup
        split_ifs at hlookup with hsame
        · obtain ⟨old, hold, rfl⟩ := Option.map_eq_some_iff.mp hlookup
          exact ⟨token', old, hold, rfl⟩
        · exact ⟨token', job', hlookup, rfl⟩
      · rintro ⟨token', job', hlookup, rfl⟩
        by_cases hsame : token' = token
        · refine ⟨token', { job' with cancelled := true }, ?_, rfl⟩
          rw [lookup_modify, if_pos hsame, hlookup]
          rfl
        · exact ⟨token', job', by simp [hsame, hlookup], rfl⟩
    · rintro other hother ⟨token', job', hlookup, rfl, hwanted⟩
      have hsame : token' ≠ token := by
        rintro rfl
        rw [hjob] at hlookup
        cases hlookup
        exact hother (by rw [hframe]; exact List.mem_cons_self)
      exact ⟨token', job', by simp [hsame, hlookup], rfl, hwanted⟩
    · intro token'
      rw [mem_keys, keys_modify, ← mem_keys]
    · intro other
      refine ⟨Or.inl, ?_⟩
      rintro (hmem | ⟨hmem, -, -, hfree⟩)
      · exact hmem
      · rw [List.mem_singleton] at hmem
        exact absurd (hmem ▸ hoffered) hfree
  · rename_i hfind
    have hfree : ¬ s.Offered frame := by
      rw [offered_iff]
      rintro ⟨entry, hmem, hframe⟩
      exact absurd (decide_eq_true hframe) (List.find?_eq_none.mp hfind entry hmem)
    split_ifs at h with hpresent hroom
    · cases h
      refine ⟨rfl, rfl, rfl, rfl, hmedia, hdecoded, fun _ => Iff.rfl, fun _ _ => id,
        fun _ => Iff.rfl, fun other => ⟨Or.inl, ?_⟩⟩
      rintro (hmem | ⟨hmem, hmissing, hnew, -⟩)
      · exact hmem
      · rw [List.mem_singleton] at hmem
        subst hmem
        exact absurd hpresent (not_or.mpr ⟨hmissing, hnew⟩)
    · cases h
      rw [not_or] at hpresent
      refine ⟨rfl, rfl, rfl, rfl, hmedia, hdecoded, fun _ => Iff.rfl, fun _ _ => id,
        fun _ => Iff.rfl, fun other => ?_⟩
      rw [mem_insert, List.mem_singleton]
      constructor
      · rintro (rfl | hmem)
        · exact Or.inr ⟨rfl, hpresent.1, hpresent.2, hfree⟩
        · exact Or.inl hmem
      · rintro (hmem | ⟨hsame, -⟩)
        · exact Or.inr hmem
        · exact Or.inl hsame

theorem discarded_cancelFrames {frames : List (HoistSessionId × MediaFrameId)}
    (hnodup : (frames.map (·.2)).Nodup) (h : cancelFrames s frames = .ok t) :
    Discarded (frames.map (·.2)) s t := by
  induction frames generalizing s with
  | nil =>
      cases h
      exact Discarded.nil _
  | cons entry frames ih =>
      obtain ⟨hfresh, hnodup⟩ := List.nodup_cons.mp hnodup
      obtain ⟨u, hone, hrest⟩ := bind_eq_ok.mp h
      exact (discarded_cancelFrame hone).cons (ih hnodup hrest) hfresh

/-- The frames the queue of a surface refers to. -/
def surfaceFrames (s : EncodedDestinationState) (surface : ClientSurfaceId) : List MediaFrameId :=
  ((s.queues.lookup surface).getD []).flatMap fun queued => encodedFrames queued.event

theorem mem_surfaceFrames :
    frame ∈ s.surfaceFrames surface ↔ ∃ queue, s.queues.lookup surface = some queue ∧
      ∃ queued ∈ queue, frame ∈ encodedFrames queued.event := by
  unfold surfaceFrames
  cases s.queues.lookup surface with
  | none | some => simp

theorem queued_of_surfaceFrames (h : frame ∈ s.surfaceFrames surface) : s.Queued frame :=
  ⟨surface, mem_surfaceFrames.mp h⟩

variable (h : Carries delivered waiting arrived due s)
include h

theorem Carries.surfaceFrames_nodup (surface : ClientSurfaceId) : (s.surfaceFrames surface).Nodup := by
  unfold surfaceFrames
  cases hlookup : s.queues.lookup surface with
  | none => exact List.nodup_nil
  | some queue => exact h.queue_nodup hlookup

/-- What is known of a surface, and its queue, are forgotten. -/
def forgotten (s : EncodedDestinationState) (surface : ClientSurfaceId) : EncodedDestinationState :=
  { s with
    readySurfaces := s.readySurfaces.filter fun candidate => candidate != surface
    scheduler := s.scheduler.forget s.activity surface
    activity := s.activity.remove surface
    queues := s.queues.erase surface }

/-- What is queued elsewhere is not of this queue. -/
theorem Carries.queued_forgotten :
    (s.forgotten surface).Queued frame ↔
      s.Queued frame ∧ frame ∉ s.surfaceFrames surface := by
  constructor
  · rintro ⟨surface', queue', hlookup', queued, hmem, hframe⟩
    rw [forgotten, lookup_erase_eq] at hlookup'
    split_ifs at hlookup' with hsame
    refine ⟨⟨surface', queue', hlookup', queued, hmem, hframe⟩, fun hframe' => ?_⟩
    obtain ⟨queue, hlookup, queued', hmem', hframe'⟩ := mem_surfaceFrames.mp hframe'
    exact hsame (h.same_surface hlookup' hlookup hmem hmem' hframe hframe')
  · rintro ⟨⟨surface', queue', hlookup', queued, hmem, hframe⟩, hother⟩
    by_cases hsame : surface' = surface
    · subst hsame
      exact absurd (mem_surfaceFrames.mpr ⟨queue', hlookup', queued, hmem, hframe⟩) hother
    · exact ⟨surface', queue', by simp [forgotten, hsame, hlookup'], queued, hmem, hframe⟩

/-- **The end of a surface** discards its queue; a frame that is due leaves a tombstone. -/
theorem Carries.after_discarding
    (hdiscarded : Discarded (s.surfaceFrames surface) (s.forgotten surface) t) :
    Carries delivered waiting arrived due t := by
  have hqueued : ∀ frame, t.Queued frame ↔ s.Queued frame ∧ frame ∉ s.surfaceFrames surface := by
    intro frame
    rw [← h.queued_forgotten, Queued, hdiscarded.queues]
    rfl
  have hkept : ∀ frame, frame ∈ t.mediaFrames ↔ frame ∈ s.mediaFrames ∧
      frame ∉ s.surfaceFrames surface := by
    intro frame
    rw [← lookup_isSome, hdiscarded.media, ← lookup_isSome]
    split_ifs with hmem <;> simp [hmem, forgotten]
  refine ⟨h.conforming, h.stream, h.distinct, ?_, ?_, ?_, ?_, ?_, ?_, ?_, ?_, ?_⟩
  · intro surface' queue' hlookup'
    rw [hdiscarded.queues, forgotten, lookup_erase_eq] at hlookup'
    split_ifs at hlookup' with hsame
    exact h.queues surface' queue' hlookup'
  · intro surface' queue' hlookup' hnonempty
    rw [hdiscarded.queues, forgotten, lookup_erase_eq] at hlookup'
    split_ifs at hlookup' with hsame
    rw [hdiscarded.readySurfaces, hdiscarded.activity]
    obtain ⟨hready, hregistered⟩ := h.ready surface' queue' hlookup' hnonempty
    exact ⟨List.mem_filter.mpr ⟨hready, by simpa using hsame⟩,
      Activity.mem_remove.mpr ⟨hsame, hregistered⟩⟩
  · intro frame hframe
    obtain ⟨hframe, hother⟩ := (hqueued frame).mp hframe
    rcases h.traced frame hframe with hdue | hmedia | hdecoded | hjob
    · exact Or.inl hdue
    · exact Or.inr (Or.inl ((hkept frame).mpr ⟨hmedia, hother⟩))
    · refine Or.inr (Or.inr (Or.inl ?_))
      rw [hdiscarded.decoded]
      exact Finset.mem_sdiff.mpr ⟨hdecoded, by rwa [List.mem_toFinset]⟩
    · exact Or.inr (Or.inr (Or.inr (hdiscarded.decoding frame hother hjob)))
  · intro frame media hmedia
    rw [hdiscarded.media] at hmedia
    split_ifs at hmedia with hmem
    obtain ⟨harrived, hwanted, hnew, hfree⟩ := h.pending frame media hmedia
    rw [hqueued, hdiscarded.offered, hdiscarded.decoded]
    exact ⟨harrived, hwanted.imp_right fun hframe => ⟨hframe, hmem⟩,
      fun hdecoded => hnew (Finset.mem_sdiff.mp hdecoded).1, hfree⟩
  · intro m hm hwaiting
    refine (hkept m.frame).mpr ⟨h.kept m hm hwaiting, fun hmem => ?_⟩
    obtain ⟨r, hr, hframe⟩ := h.delivered_of_queued (queued_of_surfaceFrames hmem)
    obtain ⟨r', hr', hframe'⟩ := hwaiting
    exact h.not_waiting hr hframe hr' hframe'
  · intro frame hframe
    rw [hdiscarded.offered, hdiscarded.decoded] at hframe
    exact h.taken frame (hframe.imp_left fun hdecoded => (Finset.mem_sdiff.mp hdecoded).1)
  · intro m hm hdelivered
    rw [hqueued, hdiscarded.tombstones]
    have hlate : m.frame ∈ due.map (·.frame) := List.mem_map_of_mem hm
    rcases h.awaited m hm hdelivered with hframe | htombstone
    · by_cases hmem : m.frame ∈ s.surfaceFrames surface
      · -- what is due is nowhere yet
        have hnowhere : ¬ (m.frame ∈ s.decoded ∨ s.Offered m.frame) := fun htaken =>
          h.apart (h.taken m.frame htaken) hlate
        rw [not_or] at hnowhere
        refine Or.inr (Or.inr ⟨hmem, fun hkept => ?_, hnowhere.1, hnowhere.2⟩)
        obtain ⟨media, hmedia⟩ := exists_lookup hkept
        obtain ⟨⟨m', hm', hsame, -⟩, -⟩ := h.pending m.frame media hmedia
        exact h.apart (List.mem_map.mpr ⟨m', hm', hsame⟩) hlate
      · exact Or.inl ⟨hframe, hmem⟩
    · exact Or.inr (Or.inl htombstone)
  · intro frame hframe
    rw [hdiscarded.tombstones] at hframe
    rw [hqueued]
    rcases hframe with htombstone | ⟨hmem, hmissing, hnew, hfree⟩
    · obtain ⟨hdue, hdelivered, hgone⟩ := h.tombstones frame htombstone
      exact ⟨hdue, hdelivered, fun hframe => hgone hframe.1⟩
    · refine ⟨?_, h.delivered_of_queued (queued_of_surfaceFrames hmem), fun hframe => hframe.2 hmem⟩
      rcases h.traced frame (queued_of_surfaceFrames hmem) with hdue | hmedia | hdecoded | hjob
      · exact hdue
      · exact absurd hmedia hmissing
      · exact absurd hdecoded hnew
      · exact absurd hjob.offered hfree
  · intro token htoken
    rw [hdiscarded.jobs] at htoken
    rw [hdiscarded.nextToken]
    exact h.tokens token htoken

/-- **The end of a surface, or its withdrawal**, leaves each frame where it should be. -/
theorem Carries.after_cancelSurface (hcancel : cancelSurface env s surface = .ok t) :
    Carries delivered waiting arrived due t := by
  obtain ⟨u, hframes, hsweep⟩ := bind_eq_ok.mp hcancel
  have hlist : (framesOf ((s.queues.lookup surface).getD [])).map (·.2) =
      s.surfaceFrames surface := by
    simp [framesOf, surfaceFrames, List.map_flatMap, Function.comp_def]
  have hdiscarded := discarded_cancelFrames (by rw [hlist]; exact h.surfaceFrames_nodup surface)
    hframes
  rw [hlist] at hdiscarded
  have hretired : SameContents u (u.retireSurfaceGenerations surface) :=
    ⟨rfl, rfl, rfl, rfl, rfl, rfl, rfl, rfl⟩
  exact (h.after_discarding hdiscarded).same
    (hretired.trans (sameContents_sweepRetirement hsweep).1)

omit h

/-! ### Control -/

/-- A record without frames that joins no queue. -/
theorem Carries.deliver (h : Carries delivered (r :: waiting) arrived due s)
    (hframes : r.frames = []) : Carries (delivered ++ [r]) waiting arrived due s := by
  have hall : delivered ++ [r] ++ waiting = delivered ++ r :: waiting := by
    rw [List.append_assoc, List.singleton_append]
  have hnone : ∀ {frame : MediaFrameId}, frame ∉ r.frames := by
    intro frame
    rw [hframes]
    exact List.not_mem_nil
  have hdelivered : ∀ {frame : MediaFrameId}, (∃ r' ∈ delivered ++ [r], frame ∈ r'.frames) ↔
      ∃ r' ∈ delivered, frame ∈ r'.frames := by
    intro frame
    simp [or_and_right, exists_or, hnone]
  have hwaiting : ∀ {frame : MediaFrameId}, (∃ r' ∈ r :: waiting, frame ∈ r'.frames) ↔
      ∃ r' ∈ waiting, frame ∈ r'.frames := by
    intro frame
    simp [hnone]
  refine ⟨?_, ?_, ?_, ?_, h.ready, h.traced, ?_, ?_, h.taken, ?_, ?_, h.tokens⟩
  · rw [hall]
    exact h.conforming
  · rw [hall]
    exact h.stream
  · rw [hall]
    exact h.distinct
  · intro surface queue hlookup
    obtain ⟨records, hsub, hholds⟩ := h.queues surface queue hlookup
    exact ⟨records, hsub.trans (List.sublist_append_left _ _), hholds⟩
  · intro frame media hmedia
    rw [← hwaiting]
    exact h.pending frame media hmedia
  · intro m hm hmem
    exact h.kept m hm (hwaiting.mpr hmem)
  · intro m hm hmem
    exact h.awaited m hm (hdelivered.mp hmem)
  · intro frame hframe
    rw [hdelivered]
    exact h.tombstones frame hframe

/-- The state after a record joined a queue. -/
def joined (s : EncodedDestinationState) (surfaces : List ClientSurfaceId)
    (surface : ClientSurfaceId) (queue : List QueuedDestinationEvent) : EncodedDestinationState :=
  { s with readySurfaces := surfaces, queues := s.queues.insert surface queue }

variable {surfaces : List ClientSurfaceId} {kept : List QueuedDestinationEvent}
  {completions : List DecodeCompletion} {packets : List SourcePacket}

/-- What leaves a queue without frames does not matter. -/
theorem queued_joined {queued : QueuedDestinationEvent}
    (hkept : kept.Sublist ((s.queues.lookup surface).getD []))
    (hrest : ∀ old ∈ (s.queues.lookup surface).getD [], old ∈ kept ∨ encodedFrames old.event = []) :
    (s.joined surfaces surface (kept ++ [queued])).Queued frame ↔
      s.Queued frame ∨ frame ∈ encodedFrames queued.event := by
  have hold : ∀ {old}, old ∈ (s.queues.lookup surface).getD [] →
      ∃ queue, s.queues.lookup surface = some queue ∧ old ∈ queue := by
    intro old hmem
    cases hlookup : s.queues.lookup surface with
    | none => simp [hlookup] at hmem
    | some queue => exact ⟨queue, rfl, by simpa [hlookup] using hmem⟩
  constructor
  · rintro ⟨surface', queue, hlookup, old, hmem, hframe⟩
    rw [joined, lookup_insert_eq] at hlookup
    split_ifs at hlookup with hsame
    · cases hlookup
      rcases List.mem_append.mp hmem with hmem | hmem
      · obtain ⟨queue, hlookup, hmem⟩ := hold (hkept.subset hmem)
        exact Or.inl ⟨surface, queue, hlookup, old, hmem, hframe⟩
      · rw [List.mem_singleton.mp hmem] at hframe
        exact Or.inr hframe
    · exact Or.inl ⟨surface', queue, hlookup, old, hmem, hframe⟩
  · rintro (⟨surface', queue, hlookup, old, hmem, hframe⟩ | hframe)
    · by_cases hsame : surface' = surface
      · subst hsame
        have hkeep : old ∈ kept := by
          rcases hrest old (by simpa [hlookup] using hmem) with hkeep | hnone
          · exact hkeep
          · rw [hnone] at hframe
            exact absurd hframe List.not_mem_nil
        exact ⟨surface', kept ++ [queued], by simp [joined], old, List.mem_append_left _ hkeep,
          hframe⟩
      · exact ⟨surface', queue, by simp [joined, hsame, hlookup], old, hmem, hframe⟩
    · exact ⟨surface, kept ++ [queued], by simp [joined], queued, by simp, hframe⟩

/-- **A record joins the queue of its surface.** -/
theorem Carries.after_joined (h : Carries delivered (r :: waiting) arrived due s)
    {event' : WireClientSurfaceEvent} (henvelope : r.envelope = ⟨session, .surface event⟩)
    (hframes : encodedFrames event' = encodedFrames event)
    (hkept : kept.Sublist ((s.queues.lookup event.surface).getD [])) (hrest : ∀ old ∈
      (s.queues.lookup event.surface).getD [], old ∈ kept ∨ encodedFrames old.event = [])
    (hregistered : event.surface ∈ s.activity.surfaces) (hready : event.surface ∈ surfaces)
    (hmore : s.readySurfaces ⊆ surfaces) :
    Carries (delivered ++ [r]) waiting arrived due
      (s.joined surfaces event.surface (kept ++ [⟨session, event'⟩])) := by
  have hall : delivered ++ [r] ++ waiting = delivered ++ r :: waiting := by
    rw [List.append_assoc, List.singleton_append]
  have hown : encodedFrames event' = r.frames := by
    rw [hframes, SentRecord.frames, SourceEnvelope.frames, henvelope]
  have hqueued : ∀ frame,
      (s.joined surfaces event.surface (kept ++ [⟨session, event'⟩])).Queued frame ↔
        s.Queued frame ∨ frame ∈ r.frames := by
    intro frame
    rw [queued_joined hkept hrest, hown]
  have hnew : ∀ {frame}, frame ∈ r.frames → ∀ r' ∈ delivered, frame ∉ r'.frames := by
    intro frame hframe r' hr' hframe'
    exact h.not_waiting hr' hframe' List.mem_cons_self hframe
  refine ⟨?_, ?_, ?_, ?_, ?_, ?_, ?_, ?_, h.taken, ?_, ?_, h.tokens⟩
  · rw [hall]
    exact h.conforming
  · rw [hall]
    exact h.stream
  · rw [hall]
    exact h.distinct
  · intro surface queue hlookup
    rw [joined, lookup_insert_eq] at hlookup
    split_ifs at hlookup with hsame
    · cases hlookup
      have hlast : Holds surface r ⟨session, event'⟩ := ⟨event, henvelope, hsame.symm, hframes⟩
      have hold : ∃ records, records.Sublist delivered ∧
          List.Forall₂ (Holds surface) records kept := by
        cases hlookup : s.queues.lookup event.surface with
        | none =>
            rw [hlookup, Option.getD_none, List.sublist_nil] at hkept
            exact ⟨[], List.nil_sublist _, hkept ▸ List.Forall₂.nil⟩
        | some queue =>
            rw [hlookup, Option.getD_some] at hkept
            obtain ⟨records, hsub, hholds⟩ := h.queues event.surface queue hlookup
            obtain ⟨part, hpart, hholds⟩ := holds_sublist (hsame ▸ hholds) hkept
            exact ⟨part, hpart.trans hsub, hholds⟩
      obtain ⟨records, hsub, hholds⟩ := hold
      exact ⟨records ++ [r], hsub.append (List.Sublist.refl _),
        List.rel_append hholds (List.Forall₂.cons hlast List.Forall₂.nil)⟩
    · obtain ⟨records, hsub, hholds⟩ := h.queues surface queue hlookup
      exact ⟨records, hsub.trans (List.sublist_append_left _ _), hholds⟩
  · intro surface queue hlookup hnonempty
    rw [joined, lookup_insert_eq] at hlookup
    split_ifs at hlookup with hsame
    · subst hsame
      exact ⟨hready, hregistered⟩
    · obtain ⟨hready, hregistered⟩ := h.ready surface queue hlookup hnonempty
      exact ⟨hmore hready, hregistered⟩
  · intro frame hframe
    rcases (hqueued frame).mp hframe with hframe | hframe
    · exact h.traced frame hframe
    · -- its frames are due or have been kept for it
      rcases h.known.mp ⟨r, by simp, hframe⟩ with harrived | hdue
      · obtain ⟨m, hm, rfl⟩ := List.mem_map.mp harrived
        exact Or.inr (Or.inl (h.kept m hm ⟨r, List.mem_cons_self, hframe⟩))
      · exact Or.inl hdue
  · intro frame media hmedia
    obtain ⟨harrived, hwanted, htaken⟩ := h.pending frame media hmedia
    refine ⟨harrived, ?_, htaken⟩
    rw [hqueued]
    rcases hwanted with ⟨r', hr', hframe⟩ | hframe
    · rcases List.mem_cons.mp hr' with rfl | hr'
      · exact Or.inr (Or.inr hframe)
      · exact Or.inl ⟨r', hr', hframe⟩
    · exact Or.inr (Or.inl hframe)
  · rintro m hm ⟨r', hr', hframe⟩
    exact h.kept m hm ⟨r', List.mem_cons_of_mem _ hr', hframe⟩
  · rintro m hm ⟨r', hr', hframe⟩
    rw [hqueued]
    rcases List.mem_append.mp hr' with hr' | hr'
    · exact (h.awaited m hm ⟨r', hr', hframe⟩).imp_left Or.inl
    · rw [List.mem_singleton.mp hr'] at hframe
      exact Or.inl (Or.inr hframe)
  · intro frame hframe
    obtain ⟨hdue, ⟨r', hr', hmem⟩, hgone⟩ := h.tombstones frame hframe
    refine ⟨hdue, ⟨r', List.mem_append_left _ hr', hmem⟩, ?_⟩
    rw [hqueued, not_or]
    exact ⟨hgone, fun hown => hnew hown r' hr' hmem⟩

/-- Newer metadata supersedes records without frames only. -/
theorem mem_remaining_or {queue : List QueuedDestinationEvent} {old : QueuedDestinationEvent}
    (hold : old ∈ queue) : old ∈ remaining queue session event ∨ encodedFrames old.event = [] := by
  unfold remaining
  split_ifs
  · by_cases hmetadata : isMetadata old.event = true
    · refine Or.inr ?_
      unfold isMetadata at hmetadata
      unfold encodedFrames
      split at hmetadata
      · rename_i hkind
        rw [hkind]
      · cases hmetadata
    · exact Or.inl (List.mem_filter.mpr ⟨hold, by simp [hmetadata]⟩)
  · exact Or.inl hold

theorem mem_announced : surface ∈ (s.announced session event).activity.surfaces ↔
      surface = event.surface ∨ surface ∈ s.activity.surfaces := by
  rw [← @Activity.mem_register s.activity session, mem_keys, mem_keys]
  unfold announced
  split
  · rw [Activity.keys_role]
  · rw [Activity.keys_mapped]
  · rfl

theorem Carries.after_announced (h : Carries delivered waiting arrived due s)
    (session : HoistSessionId) (event : WireClientSurfaceEvent) :
    Carries delivered waiting arrived due (s.announced session event) :=
  { h with
    ready := by
      intro surface queue hlookup hnonempty
      obtain ⟨hready, hregistered⟩ := h.ready surface queue hlookup hnonempty
      exact ⟨hready, mem_announced.mpr (Or.inr hregistered)⟩ }

theorem Carries.after_enqueue (h : Carries delivered (r :: waiting) arrived due s)
    (henvelope : r.envelope = ⟨session, .surface event⟩)
    (henqueue : enqueue env s session event = .ok t) :
    Carries (delivered ++ [r]) waiting arrived due t := by
  have hown : r.frames = encodedFrames event := by
    rw [SentRecord.frames, SourceEnvelope.frames, henvelope]
  have hannounced := h.after_announced session event
  unfold enqueue at henqueue
  dsimp only at henqueue
  by_cases hmany : maxReplacements < (encodedFrames event).length
  · rw [if_pos hmany] at henqueue
    cases henqueue
  by_cases halpha : keepsAlpha event = true
  · rw [if_neg hmany, if_pos halpha] at henqueue
    cases henqueue
  rw [if_neg hmany, if_neg halpha] at henqueue
  by_cases hdestroyed : event.kind = .destroyed
  · -- the end of the surface
    rw [if_pos hdestroyed] at henqueue
    obtain ⟨u, hcancel, rfl⟩ := map_eq_ok.mp henqueue
    have hnone : r.frames = [] := by
      rw [hown, encodedFrames, hdestroyed]
    have hcarries := (hannounced.deliver hnone).after_cancelSurface hcancel
    exact hcarries.congr rfl rfl (fun _ => Iff.rfl) (fun _ => rfl) rfl rfl rfl le_rfl
  have hupdated := hannounced.same ((s.announced session event).sameContents_updateStreamGenerations
    (markEncodedBuffersOpaque event))
  have hregistered : event.surface ∈ ((s.announced session event).updateStreamGenerations
      (markEncodedBuffersOpaque event)).activity.surfaces := by
    rw [(sameContents_updateStreamGenerations _ _).activity]
    exact mem_announced.mpr (Or.inl rfl)
  generalize (s.announced session event).updateStreamGenerations
    (markEncodedBuffersOpaque event) = u at henqueue hupdated hregistered
  split_ifs at henqueue with hroom hempty
  · have hjoined := hupdated.after_joined henvelope (encodedFrames_markEncodedBuffersOpaque event)
      (remaining_sublist _ session event) (fun _ => mem_remaining_or) hregistered
      (List.mem_append_right u.readySurfaces (List.mem_singleton_self _)) (List.subset_append_left _ _)
    exact (hjoined.after_publishReady henqueue).1
  · have hpresent : event.surface ∈ u.readySurfaces := by
      cases hlookup : u.queues.lookup event.surface with
      | none => simp [hlookup] at hempty
      | some queue =>
          refine (hupdated.ready event.surface queue hlookup ?_).1
          rintro rfl
          simp [hlookup] at hempty
    have hjoined := hupdated.after_joined henvelope (encodedFrames_markEncodedBuffersOpaque event)
      (remaining_sublist _ session event) (fun _ => mem_remaining_or) hregistered hpresent
      (List.Subset.refl _)
    exact (hjoined.after_publishReady henqueue).1

/-- **Control arrives.** -/
theorem Carries.after_control (h : Carries delivered (r :: waiting) arrived due s)
    (happly : applySourcePacket env s (.control r.envelope) = .ok t) :
    Carries (delivered ++ [r]) waiting arrived due t := by
  have hframes : ∀ {message : EncodedSourceMessage}, r.envelope.message = message →
      (∀ event, message ≠ .surface event) → r.frames = [] := by
    intro message hmessage hother
    unfold SentRecord.frames SourceEnvelope.frames
    rw [hmessage]
    cases message with
    | surface event => exact absurd rfl (hother event)
    | _ => rfl
  unfold applySourcePacket at happly
  dsimp only at happly
  split at happly
  · rename_i event hmessage
    have henvelope : r.envelope = ⟨r.envelope.session, .surface event⟩ := by
      rw [← hmessage]
    exact h.after_enqueue henvelope happly
  · rename_i surface hmessage
    exact (h.deliver (hframes hmessage fun event => by simp)).after_cancelSurface happly
  · rename_i valid hmessage
    split_ifs at happly
    cases happly
    exact h.deliver (hframes hmessage fun event => by simp)
  · cases happly
  · rename_i hmessage
    cases happly
    exact h.deliver (hframes hmessage fun event => by simp)

/-! ### Media -/

/-- A frame arrives: what is known of the others stays known. -/
theorem Carries.after_enqueueMedia {m : MediaEnvelope}
    (h : Carries delivered waiting arrived (m :: due) s) (henqueue : s.enqueueMedia m = .ok t) :
    Carries delivered waiting (arrived ++ [m]) due t := by
  have hstream : (delivered ++ waiting).flatMap (·.media) = arrived ++ [m] ++ due := by
    rw [h.stream, List.append_assoc, List.singleton_append]
  have hlate : m.frame ∈ (m :: due).map (·.frame) := by simp
  have hnew : ¬ (m.frame ∈ s.decoded ∨ s.Offered m.frame) := fun htaken =>
    h.apart (h.taken m.frame htaken) hlate
  have hnone : m.frame ∉ s.mediaFrames := by
    intro hkept
    obtain ⟨media, hmedia⟩ := exists_lookup hkept
    obtain ⟨⟨m', hm', hsame, -⟩, -⟩ := h.pending m.frame media hmedia
    exact h.apart (List.mem_map.mpr ⟨m', hm', hsame⟩) hlate
  have hsplit : ∀ {frame : MediaFrameId}, frame ∈ (m :: due).map (·.frame) →
      frame = m.frame ∨ frame ∈ due.map (·.frame) := by
    intro frame hframe
    simpa using hframe
  -- the frames due are all different
  have honce : m.frame ∉ due.map (·.frame) := by
    have hnodup := h.frames_perm.nodup_iff.mpr h.distinct
    rw [List.map_append, List.nodup_append, List.map_cons, List.nodup_cons] at hnodup
    exact hnodup.2.1.1
  have htaken : ∀ frame, frame ∈ s.decoded ∨ s.Offered frame →
      frame ∈ (arrived ++ [m]).map (·.frame) := by
    intro frame hframe
    rw [List.map_append]
    exact List.mem_append_left _ (h.taken frame hframe)
  unfold enqueueMedia at henqueue
  split at henqueue
  · rename_i session htombstone
    split_ifs at henqueue
    cases henqueue
    have hmem : m.frame ∈ s.cancelledFrames := mem_of_lookup htombstone
    obtain ⟨-, ⟨r, hr, hframe⟩, hgone⟩ := h.tombstones m.frame hmem
    refine ⟨h.conforming, hstream, h.distinct, h.queues, h.ready, ?_, ?_, ?_, htaken, ?_, ?_,
      h.tokens⟩
    · intro frame hqueued
      rcases h.traced frame hqueued with hdue | hplace
      · rcases hsplit hdue with rfl | hdue
        · exact absurd hqueued hgone
        · exact Or.inl hdue
      · exact Or.inr hplace
    · intro frame media hmedia
      obtain ⟨⟨m', hm', hsame⟩, hrest⟩ := h.pending frame media hmedia
      exact ⟨⟨m', List.mem_append_left _ hm', hsame⟩, hrest⟩
    · rintro m' hm' ⟨r', hr', hframe'⟩
      rcases List.mem_append.mp hm' with hm' | hm'
      · exact h.kept m' hm' ⟨r', hr', hframe'⟩
      · rw [List.mem_singleton.mp hm'] at hframe'
        exact absurd hframe' (h.not_waiting hr hframe hr')
    · intro m' hm' hdelivered
      rcases h.awaited m' (List.mem_cons_of_mem _ hm') hdelivered with hqueued | hmem
      · exact Or.inl hqueued
      · refine Or.inr (mem_erase.mpr ⟨fun hsame => ?_, hmem⟩)
        exact honce (hsame ▸ List.mem_map_of_mem hm')
    · intro frame hframe
      obtain ⟨hother, hmem⟩ := mem_erase.mp hframe
      obtain ⟨hdue, hdelivered⟩ := h.tombstones frame hmem
      exact ⟨(hsplit hdue).resolve_left hother, hdelivered⟩
  · rename_i htombstone
    split_ifs at henqueue
    cases henqueue
    refine ⟨h.conforming, hstream, h.distinct, h.queues, h.ready, ?_, ?_, ?_, htaken, ?_, ?_,
      h.tokens⟩
    · intro frame hqueued
      rcases h.traced frame hqueued with hdue | hmedia | hplace
      · rcases hsplit hdue with rfl | hdue
        · exact Or.inr (Or.inl ((mem_insert _).mpr (Or.inl rfl)))
        · exact Or.inl hdue
      · exact Or.inr (Or.inl ((mem_insert _).mpr (Or.inr hmedia)))
      · exact Or.inr (Or.inr hplace)
    · intro frame media hmedia
      rw [lookup_insert_eq] at hmedia
      split_ifs at hmedia with hsame
      · cases hmedia
        subst hsame
        refine ⟨⟨m, by simp, rfl, rfl⟩, ?_, not_or.mp hnew⟩
        -- it was due for a record that waits, or for one that is queued
        obtain ⟨r, hr, hframe⟩ := h.known.mpr (Or.inr hlate)
        rcases List.mem_append.mp hr with hr | hr
        · rcases h.awaited m List.mem_cons_self ⟨r, hr, hframe⟩ with hqueued | hmem
          · exact Or.inr hqueued
          · exact absurd hmem (lookup_eq_none.mp htombstone)
        · exact Or.inl ⟨r, hr, hframe⟩
      · obtain ⟨⟨m', hm', hsame⟩, hrest⟩ := h.pending frame media hmedia
        exact ⟨⟨m', List.mem_append_left _ hm', hsame⟩, hrest⟩
    · intro m' hm' hwaiting
      rcases List.mem_append.mp hm' with hm' | hm'
      · exact (mem_insert _).mpr (Or.inr (h.kept m' hm' hwaiting))
      · exact (mem_insert _).mpr (Or.inl (by rw [List.mem_singleton.mp hm']))
    · exact fun m' hm' => h.awaited m' (List.mem_cons_of_mem _ hm')
    · intro frame hframe
      obtain ⟨hdue, hdelivered⟩ := h.tombstones frame hframe
      refine ⟨(hsplit hdue).resolve_left ?_, hdelivered⟩
      rintro rfl
      exact lookup_eq_none.mp htombstone hframe

/-! ### Completions -/

include h

theorem Carries.after_drainOne {completion : DecodeCompletion}
    (hdrain : s.drainOne completion = .ok t) : Carries delivered waiting arrived due t := by
  unfold drainOne at hdrain
  split at hdrain
  · cases hdrain
  · rename_i job hjob
    have hoffered : ∀ {frame}, ({ s with decodeInFlight := s.decodeInFlight.erase completion.token } :
        EncodedDestinationState).Offered frame → s.Offered frame := by
      rintro frame ⟨token, other, hlookup, hframe⟩
      rw [lookup_erase_eq] at hlookup
      split_ifs at hlookup
      exact ⟨token, other, hlookup, hframe⟩
    have hdecoding : ∀ {frame}, s.Decoding frame →
        frame = job.frame ∧ job.cancelled = false ∨
          ({ s with decodeInFlight := s.decodeInFlight.erase completion.token } :
            EncodedDestinationState).Decoding frame := by
      rintro frame ⟨token, other, hlookup, hframe, hwanted⟩
      by_cases hsame : token = completion.token
      · rw [hsame, hjob] at hlookup
        cases hlookup
        exact Or.inl ⟨hframe.symm, hwanted⟩
      · exact Or.inr ⟨token, other, by simp [hsame, hlookup], hframe, hwanted⟩
    have htokens : ∀ token ∈ s.decodeInFlight.erase completion.token, token < s.nextToken :=
      fun token htoken => h.tokens token (mem_erase.mp htoken).2
    by_cases hcancelled : job.cancelled = true
    · rw [if_pos hcancelled] at hdrain
      cases hdrain
      refine { h with traced := ?_, pending := ?_, taken := ?_, tokens := htokens }
      · intro frame hqueued
        rcases h.traced frame hqueued with hdue | hmedia | hdecoded | hwanted
        · exact Or.inl hdue
        · exact Or.inr (Or.inl hmedia)
        · exact Or.inr (Or.inr (Or.inl hdecoded))
        · rcases hdecoding hwanted with ⟨-, hjob⟩ | hwanted
          · rw [hcancelled] at hjob
            cases hjob
          · exact Or.inr (Or.inr (Or.inr hwanted))
      · intro frame media hmedia
        obtain ⟨harrived, hwanted, hnew, hfree⟩ := h.pending frame media hmedia
        exact ⟨harrived, hwanted, hnew, fun hjob => hfree (hoffered hjob)⟩
      · exact fun frame hframe => h.taken frame (hframe.imp_right hoffered)
    · rw [if_neg hcancelled] at hdrain
      split at hdrain
      · cases hdrain
      · split_ifs at hdrain
        cases hdrain
        have hfree : s.Offered job.frame := ⟨completion.token, job, hjob, rfl⟩
        refine { h with traced := ?_, pending := ?_, taken := ?_, tokens := htokens }
        · intro frame hqueued
          rcases h.traced frame hqueued with hdue | hmedia | hdecoded | hwanted
          · exact Or.inl hdue
          · exact Or.inr (Or.inl hmedia)
          · exact Or.inr (Or.inr (Or.inl (Finset.mem_insert_of_mem hdecoded)))
          · rcases hdecoding hwanted with ⟨rfl, -⟩ | hwanted
            · exact Or.inr (Or.inr (Or.inl (Finset.mem_insert_self _ _)))
            · exact Or.inr (Or.inr (Or.inr hwanted))
        · intro frame media hmedia
          obtain ⟨harrived, hwanted, hnew, hbusy⟩ := h.pending frame media hmedia
          refine ⟨harrived, hwanted, fun hdecoded => ?_, fun hjob => hbusy (hoffered hjob)⟩
          rcases Finset.mem_insert.mp hdecoded with rfl | hdecoded
          · exact hbusy hfree
          · exact hnew hdecoded
        · intro frame hframe
          rcases hframe with hdecoded | hjob
          · rcases Finset.mem_insert.mp hdecoded with rfl | hdecoded
            · exact h.taken job.frame (Or.inr hfree)
            · exact h.taken frame (Or.inl hdecoded)
          · exact h.taken frame (Or.inr (hoffered hjob))

theorem Carries.after_drainAll (hdrain : s.drainAll completions = .ok t) :
    Carries delivered waiting arrived due t := by
  induction completions generalizing s with
  | nil =>
      cases hdrain
      exact h
  | cons completion completions ih =>
      obtain ⟨u, hone, hrest⟩ := bind_eq_ok.mp hdrain
      exact ih (h.after_drainOne hone) hrest

/-! ### Polls -/

/-- What the transport delivers is the front of both streams. -/
def Delivers (packets : List SourcePacket) (control : List SourceEnvelope)
    (media : List MediaEnvelope) : Prop :=
  controls packets <+: control ∧ medias packets <+: media

/-- **Packets arrive.** -/
theorem Carries.after_applySourcePackets (hfront : Delivers packets (waiting.map (·.envelope)) due)
    (happly : applySourcePackets env s packets = .ok t) :
    Carries (delivered ++ waiting.take (controls packets).length)
      (waiting.drop (controls packets).length) (arrived ++ due.take (medias packets).length)
      (due.drop (medias packets).length) t := by
  induction packets generalizing s delivered waiting arrived due with
  | nil =>
      cases happly
      simpa [controls, medias] using h
  | cons packet packets ih =>
      obtain ⟨u, hone, hrest⟩ := bind_eq_ok.mp happly
      obtain ⟨hcontrol, hmedia⟩ := hfront
      cases packet with
      | control envelope =>
          have hcontrols : controls (.control envelope :: packets) = envelope :: controls packets :=
            rfl
          have hmedias : medias (.control envelope :: packets) = medias packets := rfl
          rw [hcontrols] at hcontrol ⊢
          cases waiting with
          | nil => simp at hcontrol
          | cons r waiting =>
              rw [List.map_cons, List.cons_prefix_cons] at hcontrol
              obtain ⟨rfl, hcontrol⟩ := hcontrol
              have hnext := ih (h.after_control hone) ⟨hcontrol, hmedia⟩ hrest
              rw [List.append_assoc, List.singleton_append] at hnext
              exact hnext
      | media m =>
          have hcontrols : controls (.media m :: packets) = controls packets := rfl
          have hmedias : medias (.media m :: packets) = m :: medias packets := rfl
          rw [hmedias] at hmedia ⊢
          cases due with
          | nil => simp at hmedia
          | cons m' due =>
              rw [List.cons_prefix_cons] at hmedia
              obtain ⟨rfl, hmedia⟩ := hmedia
              have hnext := ih (h.after_enqueueMedia hone) ⟨hcontrol, hmedia⟩ hrest
              rw [List.append_assoc, List.singleton_append] at hnext
              exact hnext

/-- **A poll leaves each frame where it should be.** -/
theorem Carries.after_poll (hfront : Delivers packets (waiting.map (·.envelope)) due)
    (hpoll : poll env s packets completions = .ok t) :
    Carries (delivered ++ waiting.take (controls packets).length)
      (waiting.drop (controls packets).length) (arrived ++ due.take (medias packets).length)
      (due.drop (medias packets).length) t := by
  obtain ⟨u, happly, hdrain⟩ := bind_eq_ok.mp hpoll
  obtain ⟨v, hall, hadvance⟩ := bind_eq_ok.mp hdrain
  have hclean : Carries delivered waiting arrived due { s with output := [] } :=
    h.congr rfl rfl (fun _ => Iff.rfl) (fun _ => rfl) rfl rfl rfl le_rfl
  exact ((hclean.after_applySourcePackets hfront happly).after_drainAll hall).after_advance hadvance

omit h

end Carries

end EncodedDestinationState

end Encoded
