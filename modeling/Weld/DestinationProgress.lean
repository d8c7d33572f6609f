/-
**The budgets of an encoded destination suffice and cannot deadlock.**

Control and media travel separately, and the destination limits each by what it holds already.  A
commit waits for its frames, a frame waits for the commit that refers to it, and tombstones of
discarded commits take room from control until their frames arrive.  With a source whose frames are
sent in the order of their commits these waits form no circle.  Say every queue waits for a frame that
is due.  Then the frames of all records that wait are due as well, so that no frame is kept at all and
the next one has room; otherwise nothing is queued and nothing discarded, and control has room.

What a source sends is sent at once, as far as the destination is concerned: what has not been sent
yet has not been delivered either.  What traffic says about attention does not matter here.

Main definitions: `EncodedLink`, `EncodedLinkCall`, `EncodedLink.step`, `EncodedLink.Respects`,
`EncodedLink.Conforms`, `EncodedLink.Moves`.

Main results:

* `EncodedDestinationState.publishLoop_fuel`, `advanceLoop_fuel` — the loops end;
* `EncodedDestinationState.Carries.front_fits` — with nothing to do, something has room;
* `budgets_suffice_and_cannot_deadlock` — for all runs.
-/

import Weld.MediaArrivals

namespace Encoded

open Client Gamepad Hoist Transition AList

variable (policy : SchedulingPolicy)

namespace EncodedDestinationState

section Carries

variable {delivered waiting : List SentRecord} {arrived due : List MediaEnvelope}
  {s t : EncodedDestinationState}

/-! ### The loops end -/

variable {env : DecoderAnswers} {surface : ClientSurfaceId} {frame : MediaFrameId}

theorem events_publishFront
    (h : publishFront env s surface = .ok (some t)) : t.events + 1 = s.events := by
  rcases publishFront_cases h with ⟨hnone, -⟩ | ⟨front, rest, hlookup, -, hsome⟩
  · cases hnone
  · cases hsome
    have hall := total_of_lookup hlookup fun _ queue => queue.length
    change ((s.queues.insert surface rest).total fun _ queue => queue.length) + 1 = _
    rw [total_insert, events, hall, List.length_cons]
    omega

variable {surfaces busy : List ClientSurfaceId} {fuel : ℕ} {front : QueuedDestinationEvent}
  {rest : List QueuedDestinationEvent}

/-- A round that publishes anything leaves fewer records. -/
theorem events_publishPass
    {result : EncodedDestinationState × Bool} (h : publishPass env surfaces s = .ok result) :
    result.1.events + result.2.toNat ≤ s.events := by
  induction surfaces generalizing s result with
  | nil =>
      cases h
      exact le_rfl
  | cons surface surfaces ih =>
      obtain ⟨one, hone, hrest⟩ := bind_eq_ok.mp h
      cases one with
      | none => exact ih hrest
      | some u =>
          obtain ⟨other, hother, rfl⟩ := map_eq_ok.mp hrest
          have hless := ih hother
          have hone := events_publishFront hone
          dsimp only [Bool.toNat_true]
          omega

/-- **Publishing ends**: more rounds than records make no difference. -/
theorem publishLoop_fuel (env : DecoderAnswers) (h : s.events < fuel) :
    publishLoop env (fuel + 1) s = publishLoop env fuel s := by
  induction fuel generalizing s with
  | zero => exact absurd h (Nat.not_lt_zero _)
  | succ fuel ih =>
      rw [publishLoop, publishLoop]
      cases hpass : publishPass env s.readySurfaces s with
      | error e => rfl
      | ok result =>
          have hless := events_publishPass hpass
          have htidied : result.1.tidied.events ≤ result.1.events :=
            total_retain_le result.1.queues (fun _ queue => !queue.isEmpty) fun _ queue =>
              queue.length
          simp only [Except.bind]
          split_ifs with hprogressed
          · rw [hprogressed, Bool.toNat_true] at hless
            exact ih (by omega)
          · rfl

/-- The turns that are left: frames that are kept, and surfaces that the decoder did not refuse. -/
def turns (s : EncodedDestinationState) (busy : List ClientSurfaceId) : ℕ :=
  s.mediaFrames.size + (s.readySurfaces.filter fun surface => decide (surface ∉ busy)).length

theorem rotateLeft_perm {α : Type} (l : List α) (n : ℕ) : (l.rotateLeft n).Perm l := by
  unfold List.rotateLeft
  dsimp only
  split_ifs
  · exact List.Perm.refl l
  · exact List.perm_append_comm.trans (List.Perm.of_eq (List.take_append_drop _ _))

/-- One more surface that is refused is one less that is left. -/
theorem length_filter_exclude (hmem : surface ∈ surfaces) (hfree : surface ∉ busy) :
    (surfaces.filter fun other => decide (other ∉ busy ++ [surface])).length <
      (surfaces.filter fun other => decide (other ∉ busy)).length := by
  have hfilter : (surfaces.filter fun other => decide (other ∉ busy ++ [surface])) =
      (surfaces.filter fun other => decide (other ∉ busy)).filter fun other =>
        decide (other ≠ surface) := by
    rw [List.filter_filter]
    refine List.filter_congr fun other _ => ?_
    simp [and_comm]
  rw [hfilter, List.length_filter_lt_length_iff_exists]
  exact ⟨surface, List.mem_filter.mpr ⟨hmem, by simpa using hfree⟩, by simp⟩

/-- The decoder takes a frame, or refuses a surface. -/
theorem mediaFrames_scheduleDecode {session : HoistSessionId} (hkept : frame ∈ s.mediaFrames)
    {accepted : Bool} (h : scheduleDecode env s frame session = .ok (t, accepted)) :
    t.mediaFrames.size + accepted.toNat = s.mediaFrames.size ∧
      t.readySurfaces = s.readySurfaces := by
  obtain ⟨media, hmedia⟩ := exists_lookup hkept
  have hsize := size_erase_of_lookup hmedia
  unfold scheduleDecode at h
  rw [hmedia] at h
  dsimp only at h
  split_ifs at h
  split at h
  · cases h
    exact ⟨by dsimp only [Bool.toNat_true]; omega, rfl⟩
  · cases h
    refine ⟨?_, rfl⟩
    dsimp only [Bool.toNat_false]
    rw [size_insert, erase_erase_self]
    omega
  · cases h

/-- A frame of a front that is kept is a candidate. -/
theorem front_not_kept (hidle : ∀ token, token ∉ s.decodeInFlight)
    (hnone : s.decodeCandidate surface = none)
    (hlookup : s.queues.lookup surface = some (front :: rest))
    (hframe : frame ∈ encodedFrames front.event)
    (hnew : frame ∉ s.decoded) : frame ∉ s.mediaFrames := by
  intro hkept
  have hfree : ¬ s.submitted frame = true := by
    rw [submitted_iff, not_or]
    refine ⟨hnew, ?_⟩
    rintro ⟨token, job, hjob, -⟩
    exact hidle token (mem_of_lookup hjob)
  have hnotall : ((encodedFrames front.event).all s.submitted) = false := by
    rw [← Bool.not_eq_true]
    exact fun hall => hfree (List.all_eq_true.mp hall frame hframe)
  have hturn : s.framesInTurn front rest = encodedFrames front.event := by
    unfold framesInTurn
    split
    · simp [hnotall]
    · rfl
  unfold decodeCandidate at hnone
  rw [hlookup] at hnone
  rw [Option.map_eq_none_iff, hturn, List.find?_eq_none] at hnone
  have hskipped := hnone frame hframe
  rw [Bool.and_eq_true, Bool.not_eq_true', decide_eq_true_eq] at hskipped
  exact hskipped ⟨Bool.eq_false_iff.mpr hfree, hkept⟩

variable (hidle : ∀ token, token ∉ s.decodeInFlight)
  (hnone : ∀ surface, s.decodeCandidate surface = none)

include hidle hnone

section

variable (h : Carries delivered waiting arrived due s)
include h

/-- With nothing to submit, every queue waits for a frame that is due. -/
theorem Carries.front_due (hquiet : s.Quiet)
    (hlookup : s.queues.lookup surface = some (front :: rest)) :
    ∃ frame ∈ encodedFrames front.event, frame ∈ due.map (·.frame) := by
  obtain ⟨frame, hframe, hnew⟩ := hquiet surface front rest hlookup
  refine ⟨frame, hframe, ?_⟩
  rcases h.traced frame ⟨surface, _, hlookup, front, List.mem_cons_self, hframe⟩ with
    hdue | hkept | hdecoded | ⟨token, job, hjob, -⟩
  · exact hdue
  · exact absurd hkept (front_not_kept hidle (hnone surface) hlookup hframe hnew)
  · exact absurd hdecoded hnew
  · exact absurd (mem_of_lookup hjob) (hidle token)

omit h in
omit hidle hnone in
/-- What the frames of records that have arrived are, is not due. -/
theorem Carries.not_due_of_arrived (h : Carries delivered waiting arrived due s) {r : SentRecord}
    (hr : r ∈ delivered ++ waiting) (harrived : ∀ m ∈ r.media, m ∈ arrived)
    (hframe : frame ∈ r.frames) : frame ∉ due.map (·.frame) := by
  obtain ⟨m, hm, rfl⟩ := (h.conforming r hr).mem_frames.mp hframe
  exact h.apart (List.mem_map_of_mem (harrived m hm))

/-- **If all frames of delivered records have arrived, then nothing is queued** and nothing left of
what was discarded. -/
theorem Carries.empty_of_arrived (hquiet : s.Quiet)
    (harrived : ∀ r ∈ delivered, ∀ m ∈ r.media, m ∈ arrived) :
    (∀ surface queue, s.queues.lookup surface = some queue → queue = []) ∧
      ∀ frame, frame ∉ s.cancelledFrames := by
  constructor
  · intro surface queue hlookup
    cases queue with
    | nil => rfl
    | cons front rest =>
        obtain ⟨frame, hframe, hdue⟩ := h.front_due hidle hnone hquiet hlookup
        obtain ⟨r, hr, hholds⟩ := h.record_of_queued hlookup List.mem_cons_self
        rw [hholds.frames] at hframe
        exact absurd hdue (h.not_due_of_arrived (List.mem_append_left _ hr) (harrived r hr) hframe)
  · intro frame htombstone
    obtain ⟨hdue, ⟨r, hr, hframe⟩, -⟩ := h.tombstones frame htombstone
    exact h.not_due_of_arrived (List.mem_append_left _ hr) (harrived r hr) hframe hdue

/-- **If all frames of records that wait are due, then no frame is kept.** -/
theorem Carries.nothing_kept (hquiet : s.Quiet) (hdue : ∀ r ∈ waiting, ∀ m ∈ r.media, m ∈ due)
    (frame : MediaFrameId) : frame ∉ s.mediaFrames := by
  intro hkept
  obtain ⟨media, hmedia⟩ := exists_lookup hkept
  obtain ⟨⟨m, hm, rfl, -⟩, hwanted, hnew, -⟩ := h.pending frame media hmedia
  have hhere : m.frame ∈ arrived.map (·.frame) := List.mem_map_of_mem hm
  rcases hwanted with ⟨r, hr, hframe⟩ | ⟨surface, queue, hlookup, queued, hmem, hframe⟩
  · obtain ⟨m', hm', hsame⟩ := (h.conforming r (List.mem_append_right _ hr)).mem_frames.mp hframe
    exact h.apart hhere (List.mem_map.mpr ⟨m', hdue r hr m' hm', hsame⟩)
  · cases queue with
    | nil => cases hmem
    | cons front rest =>
        rcases List.mem_cons.mp hmem with rfl | hmem
        · exact front_not_kept hidle (hnone surface) hlookup hframe hnew hkept
        · -- the front waits for a frame that is due, and was sent first
          obtain ⟨missing, hmissing, hlate⟩ := h.front_due hidle hnone hquiet hlookup
          obtain ⟨records, hsub, hall⟩ := h.queues surface _ hlookup
          obtain ⟨r, records, hfirst, hrest, rfl⟩ := List.forall₂_cons_right_iff.mp hall
          obtain ⟨before, after, rfl, hr, hsub⟩ := List.cons_sublist_iff.mp hsub
          obtain ⟨part, hpart, hholds⟩ := holds_sublist hrest (List.singleton_sublist.mpr hmem)
          obtain ⟨r', _, hlater, _, rfl⟩ := List.forall₂_cons_right_iff.mp hholds
          have hr' : r' ∈ after := hsub.subset (hpart.subset List.mem_cons_self)
          rw [hfirst.frames] at hmissing
          rw [hlater.frames] at hframe
          have hstream := h.stream
          rw [List.append_assoc] at hstream
          rcases arrived_or_due hstream with harrived | hdue
          · exact h.not_due_of_arrived (by simp [hr]) (harrived r hr) hmissing hlate
          · obtain ⟨m', hm', hsame⟩ := (h.conforming r' (by simp [hr'])).mem_frames.mp hframe
            exact h.apart hhere (List.mem_map.mpr
              ⟨m', hdue r' (List.mem_append_left _ hr') m' hm', hsame⟩)

/-- Then control has room. -/
theorem Carries.control_fits (hquiet : s.Quiet)
    (harrived : ∀ r ∈ delivered, ∀ m ∈ r.media, m ∈ arrived) :
    s.events = 0 ∧ 1 ≤ s.receiveBudget.controlRecords := by
  obtain ⟨hqueues, htombstones⟩ := h.empty_of_arrived hidle hnone hquiet harrived
  have hevents : s.events = 0 := total_eq_zero fun surface queue hlookup => by
    rw [hqueues surface queue hlookup, List.length_nil]
  have hreplacements : s.replacements = 0 := total_eq_zero fun surface queue hlookup => by
    rw [hqueues surface queue hlookup, List.map_nil, List.sum_nil]
  have hcancelled : s.cancelledFrames.size = 0 := by
    rw [size_eq_total]
    exact total_eq_zero fun frame session hlookup =>
      absurd (mem_of_lookup hlookup) (htombstones frame)
  refine ⟨hevents, ?_⟩
  rw [receiveBudget, hevents, hreplacements, hcancelled]
  dsimp only
  decide

/-- **With nothing to publish and nothing to submit, the front of control or of media has room.** -/
theorem Carries.front_fits (hquiet : s.Quiet) (hleft : waiting ≠ [] ∨ due ≠ [] ∨ s.events ≠ 0) :
    (waiting ≠ [] ∧ 1 ≤ s.receiveBudget.controlRecords) ∨
      ∃ m rest, due = m :: rest ∧ 1 ≤ s.receiveBudget.mediaRecords ∧
        m.bytes ≤ s.receiveBudget.mediaBytes := by
  cases due with
  | nil =>
      have harrived : ∀ r ∈ delivered, ∀ m ∈ r.media, m ∈ arrived := by
        intro r hr m hm
        have hsent : m ∈ (delivered ++ waiting).flatMap (·.media) :=
          List.mem_flatMap.mpr ⟨r, List.mem_append_left _ hr, hm⟩
        rw [h.stream, List.append_nil] at hsent
        exact hsent
      obtain ⟨hevents, hroom⟩ := h.control_fits hidle hnone hquiet harrived
      rcases hleft with hleft | hleft | hleft
      · exact Or.inl ⟨hleft, hroom⟩
      · exact absurd rfl hleft
      · exact absurd hevents hleft
  | cons m rest =>
      obtain ⟨r, hr, hm⟩ : ∃ r ∈ delivered ++ waiting, m ∈ r.media := by
        rw [← List.mem_flatMap, h.stream]
        exact List.mem_append_right _ List.mem_cons_self
      rcases arrived_or_due h.stream with harrived | hdue
      · -- the next frame belongs to a record that waits
        obtain ⟨-, hroom⟩ := h.control_fits hidle hnone hquiet harrived
        rcases List.mem_append.mp hr with hr | hr
        · exact absurd (List.mem_map_of_mem List.mem_cons_self)
            (h.apart (List.mem_map_of_mem (harrived r hr m hm)))
        · exact Or.inl ⟨List.ne_nil_of_mem hr, hroom⟩
      · have hkept := h.nothing_kept hidle hnone hquiet hdue
        have hmedia : s.mediaFrames.size = 0 := by
          rw [size_eq_total]
          exact total_eq_zero fun frame media hlookup =>
            absurd (mem_of_lookup hlookup) (hkept frame)
        have hbytes : s.mediaBytes = 0 := total_eq_zero fun frame media hlookup =>
          absurd (mem_of_lookup hlookup) (hkept frame)
        have hsmall := (h.conforming r hr).small m hm
        refine Or.inr ⟨m, rest, rfl, ?_, ?_⟩
        · rw [receiveBudget, hmedia]
          dsimp only
          decide
        · rw [receiveBudget, hbytes]
          dsimp only
          exact hsmall.trans (by decide)

omit hidle hnone

omit h in
/-- Empty queues take no room. -/
theorem receiveBudget_tidied (s : EncodedDestinationState) :
    s.tidied.receiveBudget = s.receiveBudget ∧ s.tidied.events = s.events := by
  have hempty : ∀ {queue : List QueuedDestinationEvent}, (!queue.isEmpty) = false → queue = [] := by
    intro queue h
    simpa using h
  have hevents : s.tidied.events = s.events :=
    total_retain_of_zero s.queues (fun _ queue => !queue.isEmpty)
      (fun _ queue => queue.length) fun _ queue h => by rw [hempty h, List.length_nil]
  have hreplacements : s.tidied.replacements = s.replacements :=
    total_retain_of_zero s.queues (fun _ queue => !queue.isEmpty)
      (fun _ queue => queueFrames queue) fun _ queue h => by
        rw [hempty h]
        rfl
  refine ⟨?_, hevents⟩
  rw [receiveBudget, receiveBudget, hevents, hreplacements]
  rfl

omit h in
theorem SameContents.receiveBudget (h : SameContents s t) :
    t.receiveBudget = s.receiveBudget ∧ t.events = s.events := by
  constructor
  · simp only [EncodedDestinationState.receiveBudget, events, replacements, mediaBytes, h.queues,
      h.cancelledFrames, h.mediaFrames]
  · rw [events, events, h.queues]

/-- A decoder that takes a frame now, and does not fail. -/
structure FreesSlot (env : DecoderAnswers) (s : EncodedDestinationState) : Prop where
  retires : ∀ n, env.retire n = none
  publishes : ∀ n, env.publish n = none
  never_fails : ∀ n reason, env.submit n ≠ .failed reason
  slot : ∀ t, publishReady env s = .ok t → env.submit t.uses = .accepted

/-- Advancing publishes a record or submits a frame. -/
def Advances (env : DecoderAnswers) (s : EncodedDestinationState) : Prop :=
  ∃ t, advance env s = .ok t ∧
    (s.output.length < t.output.length ∨ ∃ token, token ∈ t.decodeInFlight)

/-- **Where neither control nor media has room, there is something to do.** -/
theorem Carries.advances (hidle : ∀ token, token ∉ s.decodeInFlight)
    (hleft : waiting ≠ [] ∨ due ≠ [] ∨ s.events ≠ 0) (hfull : ¬ ((waiting ≠ [] ∧ 1 ≤
      s.receiveBudget.controlRecords) ∨ ∃ m rest, due = m :: rest ∧ 1 ≤ s.receiveBudget.mediaRecords
      ∧ m.bytes ≤ s.receiveBudget.mediaBytes)) (hfrees : FreesSlot env s) : Advances env s := by
  obtain ⟨u, hpublish⟩ := h.publishReady_ok hfrees.retires hfrees.publishes
  obtain ⟨hcarries, houtput, hquiet⟩ := h.after_publishReady hpublish
  obtain ⟨v, hloop⟩ : ∃ v, advanceLoop env
      (u.mediaFrames.size + u.readySurfaces.length + 1) [] u = .ok v :=
    hcarries.advanceLoop_ok hfrees.never_fails
  obtain ⟨-, hsame⟩ := hcarries.after_advanceLoop hloop
  obtain ⟨t, hsweep⟩ := sweepRetirement_ok hfrees.retires v
  obtain ⟨hcontents, houtput'⟩ := sameContents_sweepRetirement hsweep
  have hadvance : advance env s = .ok t :=
    bind_eq_ok.mpr ⟨u, hpublish, bind_eq_ok.mpr ⟨v, hloop, hsweep⟩⟩
  refine ⟨t, hadvance, ?_⟩
  rw [houtput', hsame.1, hcontents.decodeInFlight]
  rcases Nat.lt_or_eq_of_le houtput with hless | hequal
  · exact Or.inl hless
  · -- nothing was published
    obtain ⟨hcontents, hquiet⟩ := hquiet hequal.symm
    refine Or.inr ?_
    by_contra hnojob
    have hidle' : ∀ token, token ∉ u.decodeInFlight := by
      intro token
      rw [hcontents.decodeInFlight]
      exact hidle token
    have hnone : ∀ surface, u.decodeCandidate surface = none := by
      intro surface
      by_contra hsome
      obtain ⟨⟨session, frame⟩, hcandidate⟩ := Option.ne_none_iff_exists'.mp hsome
      obtain ⟨queue, queued, hlookup, hmem, -⟩ := decodeCandidate_spec hcandidate
      obtain ⟨hready, hregistered⟩ := hcarries.ready surface queue hlookup (List.ne_nil_of_mem hmem)
      exact hnojob (hcarries.advanceLoop_submits hready hregistered (by rw [hcandidate]; rfl)
        (hfrees.slot u hpublish) hloop)
    have hbudget : u.receiveBudget = s.receiveBudget :=
      hcontents.receiveBudget.1.trans (receiveBudget_tidied s).1
    have hevents : u.events = s.events := hcontents.receiveBudget.2.trans (receiveBudget_tidied s).2
    have hfits := hcarries.front_fits hidle' hnone hquiet (by rwa [hevents])
    rw [hbudget] at hfits
    exact hfull hfits

/-- A record is sent, with its frames. -/
theorem Carries.after_send {record : SentRecord} (hconforming : record.Conforming)
    (hnodup : record.frames.Nodup)
    (hfresh : ∀ r ∈ delivered ++ waiting, ∀ frame ∈ r.frames, frame ∉ record.frames) :
    Carries delivered (waiting ++ [record]) arrived (due ++ record.media) s := by
  have hnew : ∀ {m : MediaEnvelope}, m ∈ arrived → m.frame ∉ record.frames := by
    intro m hm
    obtain ⟨r, hr, hframe⟩ := h.known.mpr (Or.inl (List.mem_map_of_mem hm))
    exact hfresh r hr m.frame hframe
  have hmore : ∀ {frame : MediaFrameId}, frame ∈ due.map (·.frame) →
      frame ∈ (due ++ record.media).map (·.frame) := by
    intro frame hframe
    rw [List.map_append]
    exact List.mem_append_left _ hframe
  refine ⟨?_, ?_, ?_, h.queues, h.ready, ?_, ?_, ?_, h.taken, ?_, ?_, h.tokens⟩
  · intro r hr
    rw [← List.append_assoc] at hr
    rcases List.mem_append.mp hr with hr | hr
    · exact h.conforming r hr
    · rw [List.mem_singleton.mp hr]
      exact hconforming
  · rw [← List.append_assoc, List.flatMap_append, h.stream, List.flatMap_singleton,
      List.append_assoc]
  · rw [← List.append_assoc, List.flatMap_append, List.flatMap_singleton, List.nodup_append]
    refine ⟨h.distinct, hnodup, fun frame hframe frame' hframe' heq => ?_⟩
    obtain ⟨r, hr, hframe⟩ := List.mem_flatMap.mp hframe
    exact hfresh r hr frame hframe (heq ▸ hframe')
  · exact fun frame hframe => (h.traced frame hframe).imp_left hmore
  · intro frame media hmedia
    obtain ⟨harrived, hwanted, hrest⟩ := h.pending frame media hmedia
    refine ⟨harrived, hwanted.imp_left ?_, hrest⟩
    rintro ⟨r, hr, hframe⟩
    exact ⟨r, List.mem_append_left _ hr, hframe⟩
  · rintro m hm ⟨r, hr, hframe⟩
    rcases List.mem_append.mp hr with hr | hr
    · exact h.kept m hm ⟨r, hr, hframe⟩
    · rw [List.mem_singleton.mp hr] at hframe
      exact absurd hframe (hnew hm)
  · rintro m hm ⟨r, hr, hframe⟩
    rcases List.mem_append.mp hm with hm | hm
    · exact h.awaited m hm ⟨r, hr, hframe⟩
    · exact absurd (hconforming.mem_frames.mpr ⟨m, hm, rfl⟩)
        (hfresh r (List.mem_append_left _ hr) m.frame hframe)
  · intro frame hframe
    obtain ⟨hdue, hrest⟩ := h.tombstones frame hframe
    exact ⟨hmore hdue, hrest⟩

omit h in
theorem carries_new : Carries [] [] [] [] { policy } where
  conforming := by simp
  stream := rfl
  distinct := List.nodup_nil
  queues := by simp
  ready := by simp
  traced := by
    rintro frame ⟨surface, queue, hlookup, -⟩
    simp at hlookup
  pending := by simp
  kept := by simp
  taken := by
    rintro frame (hdecoded | ⟨token, job, hlookup, -⟩)
    · simp at hdecoded
    · simp at hlookup
  awaited := by simp
  tombstones := by
    intro frame hframe
    exact absurd hframe (notMem_empty frame)
  tokens := by
    intro token htoken
    exact absurd htoken (notMem_empty token)

/-- Traffic changes the focus and the attention of surfaces, and nothing else. -/
def attended (s : EncodedDestinationState) (focus : Option ClientSurfaceId)
    (attention : ClientSurfaceId → Attention) : EncodedDestinationState :=
  { s with
    activity :=
      { focus
        surfaces := s.activity.surfaces.mapValues fun surface entry =>
          { entry with attention := attention surface } } }

theorem Carries.after_attended (focus : Option ClientSurfaceId)
    (attention : ClientSurfaceId → Attention) :
    Carries delivered waiting arrived due (s.attended focus attention) := by
  refine h.congr rfl rfl (fun surface => ?_) (fun _ => rfl) rfl rfl rfl le_rfl
  rw [attended, mem_keys, keys_mapValues, ← mem_keys]

end

end Carries

/-- What a destination may hold. -/
structure InBounds (s : EncodedDestinationState) : Prop where
  events : s.events ≤ maxDestinationEvents
  media : s.mediaFrames.size ≤ maxPendingMediaFrames
  bytes : s.mediaBytes ≤ maxPendingMediaBytes
  references : s.replacements + s.cancelledFrames.size ≤ maxReferencedFrames

theorem Room.inBounds {c m b : ℕ} {s : EncodedDestinationState} (h : Room c m b s) :
    s.InBounds where
  events := Nat.le_of_add_right_le h.events
  media := Nat.le_of_add_right_le h.media
  bytes := Nat.le_of_add_right_le h.bytes
  references := by
    have hreferences := h.references
    omega

end EncodedDestinationState

open EncodedDestinationState

/-! ### A destination with what is on its way to it -/

/-- A destination, once it has failed, stays as it is.  `sent` are all records so far. -/
structure EncodedLink where
  destination : Except DestinationError EncodedDestinationState
  sent : List SentRecord := []
  control : List SourceEnvelope := []
  media : List MediaEnvelope := []

open EncodedLink

inductive EncodedLinkCall
  | send (record : SentRecord)
  | poll (env : DecoderAnswers) (packets : List SourcePacket) (completions : List DecodeCompletion)
  | attend (focus : Option ClientSurfaceId) (attention : ClientSurfaceId → Attention)

namespace EncodedLink

def new (policy : SchedulingPolicy) : EncodedLink where
  destination := .ok { policy }

def step (l : EncodedLink) : EncodedLinkCall → EncodedLink
  | .send record =>
      { l with
        sent := l.sent ++ [record]
        control := l.control ++ [record.envelope]
        media := l.media ++ record.media }
  | .poll env packets completions =>
      { l with
        destination := l.destination.bind fun s => s.poll env packets completions
        control := l.control.drop (controls packets).length
        media := l.media.drop (medias packets).length }
  | .attend focus attention =>
      { l with destination := l.destination.map fun s => s.attended focus attention }

/-- The transport delivers no more than it may.  What the packets are is not said. -/
def Respects (l : EncodedLink) : EncodedLinkCall → Prop
  | .poll _ packets _ => ∀ s, l.destination = .ok s → s.WithinBudget packets
  | _ => True

/-- The transport delivers the front of each stream, and the source conforms: it sends each frame
once, with its record. -/
def Conforms (l : EncodedLink) : EncodedLinkCall → Prop
  | .send record =>
      record.Conforming ∧ record.frames.Nodup ∧
        ∀ r ∈ l.sent, ∀ frame ∈ r.frames, frame ∉ record.frames
  | .poll _ packets _ => ∀ s, l.destination = .ok s →
      s.WithinBudget packets ∧ Delivers packets l.control l.media
  | .attend _ _ => True

/-- **Nothing is stuck**: the front of control or of media has room, a frame is with the decoder, or
advancing publishes or submits something as soon as the decoder has a slot. -/
def Moves (l : EncodedLink) (s : EncodedDestinationState) : Prop :=
  (l.control ≠ [] ∧ 1 ≤ s.receiveBudget.controlRecords) ∨
    (∃ m rest, l.media = m :: rest ∧ 1 ≤ s.receiveBudget.mediaRecords ∧
      m.bytes ≤ s.receiveBudget.mediaBytes) ∨
    (∃ token, token ∈ s.decodeInFlight) ∨
    ∀ env, FreesSlot env s → Advances env s

/-! ### Runs -/

variable {s : EncodedDestinationState} {l : EncodedLink} {packets : List SourcePacket}

/-- Packets that come first are within what all of them are within. -/
theorem withinBudget_take
    (h : s.WithinBudget packets) (n : ℕ) : s.WithinBudget (packets.take n) := by
  obtain ⟨hcontrol, hmedia, hbytes⟩ := h
  have hsub : (packets.take n).Sublist packets := List.take_sublist n packets
  have hmedias : (medias (packets.take n)).Sublist (medias packets) := hsub.filterMap _
  refine ⟨(hsub.filterMap _).length_le.trans hcontrol, hmedias.length_le.trans hmedia, ?_⟩
  exact ((hmedias.map _).sum_le_sum fun _ _ => Nat.zero_le _).trans hbytes

theorem inBounds_applySourcePackets
    (h : s.Room 0 0 0) (hbudget : s.WithinBudget packets) (env : DecoderAnswers) (n : ℕ) :
    Upholds InBounds (s.applySourcePackets env (packets.take n)) := by
  obtain ⟨hcontrol, hmedia, hbytes⟩ := withinBudget_take hbudget n
  have hroom : s.Room (0 + (controls (packets.take n)).length)
      (0 + (medias (packets.take n)).length)
      (0 + payload (medias (packets.take n))) := by
    refine h.receiveBudget.mono ?_ ?_ ?_ <;> omega
  exact (Room.applySourcePackets env hroom).imp fun t ht => ht.inBounds

variable {call : EncodedLinkCall}

/-- **One step**: a transport that respects the budget meets no bound. -/
theorem room_step
    (h : Upholds (Room 0 0 0) l.destination) (hok : l.Respects call) :
    Upholds (Room 0 0 0) (l.step call).destination := by
  cases call with
  | send record => exact h
  | poll env packets completions =>
      unfold step
      cases hdestination : l.destination with
      | error e =>
          rw [hdestination] at h
          exact h
      | ok s =>
          rw [hdestination] at h
          exact Room.poll h env (hok s hdestination) completions
  | attend focus attention => exact h.map fun s hs => hs.congr rfl rfl rfl

theorem room_new : Upholds (Room 0 0 0) (new policy).destination := by
  constructor <;> exact Nat.zero_le _

/-- Every frame is where it should be, as long as the destination has not failed. -/
def Linked (l : EncodedLink) : Prop :=
  ∀ s, l.destination = .ok s → ∃ delivered waiting arrived, l.sent = delivered ++ waiting ∧
    l.control = waiting.map (·.envelope) ∧
    Carries delivered waiting arrived l.media s

/-- **One step**: each frame stays where it should be. -/
theorem linked_step (h : l.Linked) (hok : l.Conforms call) : (l.step call).Linked := by
  intro t ht
  cases call with
  | send record =>
      obtain ⟨hconforming, hnodup, hfresh⟩ := hok
      obtain ⟨delivered, waiting, arrived, hsent, hcontrol, hcarries⟩ := h t ht
      refine ⟨delivered, waiting ++ [record], arrived, ?_, ?_, ?_⟩
      · change l.sent ++ [record] = _
        rw [hsent, List.append_assoc]
      · change l.control ++ [record.envelope] = _
        rw [hcontrol, List.map_append, List.map_singleton]
      · exact hcarries.after_send hconforming hnodup (hsent ▸ hfresh)
  | poll env packets completions =>
      obtain ⟨s, hs, hpoll⟩ := bind_eq_ok.mp ht
      obtain ⟨delivered, waiting, arrived, hsent, hcontrol, hcarries⟩ := h s hs
      obtain ⟨-, hfront⟩ := hok s hs
      rw [hcontrol] at hfront
      refine ⟨_, _, _, ?_, ?_, hcarries.after_poll hfront hpoll⟩
      · change l.sent = _
        rw [List.append_assoc, List.take_append_drop, hsent]
      · change l.control.drop _ = _
        rw [hcontrol, List.map_drop]
  | attend focus attention =>
      obtain ⟨s, hs, rfl⟩ := map_eq_ok.mp ht
      obtain ⟨delivered, waiting, arrived, hsent, hcontrol, hcarries⟩ := h s hs
      exact ⟨delivered, waiting, arrived, hsent, hcontrol, hcarries.after_attended focus attention⟩

theorem linked_new : (new policy).Linked := by
  intro s hs
  cases hs
  exact ⟨[], [], [], rfl, rfl, carries_new policy⟩

/-- **Nothing is stuck** where each frame is where it should be. -/
theorem Linked.moves (h : l.Linked) (hs : l.destination = .ok s)
    (hleft : l.control ≠ [] ∨ l.media ≠ [] ∨ s.events ≠ 0) : l.Moves s := by
  obtain ⟨delivered, waiting, arrived, -, hcontrol, hcarries⟩ := h s hs
  have hwaiting : l.control ≠ [] ↔ waiting ≠ [] := by
    rw [hcontrol, Ne, List.map_eq_nil_iff]
  unfold Moves
  rw [hwaiting] at hleft ⊢
  by_cases hjob : ∃ token, token ∈ s.decodeInFlight
  · exact Or.inr (Or.inr (Or.inl hjob))
  · by_contra hstuck
    rw [not_or, not_or, not_or] at hstuck
    obtain ⟨hfull, hfull', -, hnothing⟩ := hstuck
    exact hnothing fun env hfrees => hcarries.advances (not_exists.mp hjob) hleft
      (not_or.mpr ⟨hfull, hfull'⟩) hfrees

end EncodedLink

/-! ### The budgets -/

/-- **The budgets suffice, and cannot deadlock.**  In every run in which the transport delivers no
more than it may, whatever that is, the destination stays within its bounds, also between the packets
of a poll, and does not fail by one.  In every run in which the source conforms as well, nothing is
stuck as long as something is undelivered or queued. -/
theorem budgets_suffice_and_cannot_deadlock :
    (∀ (policy : SchedulingPolicy) (calls : List EncodedLinkCall),
      Meets step Respects (new policy) calls →
      Upholds (fun s => s.InBounds ∧ ∀ env packets n, s.WithinBudget packets →
          Upholds InBounds (s.applySourcePackets env (packets.take n)))
        (exec step (new policy) calls).destination) ∧
    (∀ (policy : SchedulingPolicy) (calls : List EncodedLinkCall),
      Meets step Conforms (new policy) calls →
      ∀ s, (exec step (new policy) calls).destination = .ok s →
        ((exec step (new policy) calls).control ≠ [] ∨
          (exec step (new policy) calls).media ≠ [] ∨ s.events ≠ 0) →
        (exec step (new policy) calls).Moves s) := by
  constructor
  · intro policy calls hmeets
    have hroom := hmeets.invariant
      (P := fun l => Upholds (Room 0 0 0) l.destination)
      (fun _ _ => room_step) (room_new policy)
    exact hroom.imp fun s hs => ⟨hs.inBounds, fun env packets n hbudget =>
      inBounds_applySourcePackets hs hbudget env n⟩
  · intro policy calls hmeets s hs hleft
    have hlinked := hmeets.invariant (fun _ _ => linked_step)
      (linked_new policy)
    exact hlinked.moves hs hleft

/-- A commit with one frame. -/
def exampleRecord : SentRecord where
  envelope :=
    { session := 3
      message := .surface
        { surface := ⟨⟨0, 1⟩, 1⟩
          kind := .commit
            { revision := 1
              mapped := true
              buffers := [⟨0, .replaced ⟨{}, true⟩ ⟨1, 1, 1⟩⟩] } } }
  media := [⟨3, ⟨1, 1, 1⟩, 1000⟩]

/-- The commit and its frame are sent, and the frame is delivered first. -/
def exampleCalls : List EncodedLinkCall :=
  [.send exampleRecord, .poll {} [.media ⟨3, ⟨1, 1, 1⟩, 1000⟩] []]

theorem budgets_suffice_where_media_comes_first :
    ∃ s, (exec step (new {}) exampleCalls).destination = .ok s ∧
      s.InBounds ∧ (exec step (new {}) exampleCalls).Moves s := by
  have hbudget : WithinBudget {} [.media ⟨3, ⟨1, 1, 1⟩, 1000⟩] := by
    refine ⟨?_, ?_, ?_⟩ <;> decide
  have hconforming : exampleRecord.Conforming := by
    refine ⟨List.Perm.refl _, ?_, ?_⟩ <;> simp [exampleRecord, maxEncodedAccessUnitBytes]
  have hpoll : ∃ s, (exec step (new {}) exampleCalls).destination =
      .ok s := ⟨_, rfl⟩
  obtain ⟨s, hs⟩ := hpoll
  have hbounds := budgets_suffice_and_cannot_deadlock.1 {} exampleCalls
    ⟨trivial, by rintro s ⟨⟩; exact hbudget, trivial⟩
  rw [hs] at hbounds
  refine ⟨s, hs, hbounds.1, ?_⟩
  refine budgets_suffice_and_cannot_deadlock.2 {} exampleCalls ⟨?_, ?_, trivial⟩ s hs
    (Or.inl (List.cons_ne_nil _ _))
  · exact ⟨hconforming, List.nodup_singleton _, fun r hr => absurd hr List.not_mem_nil⟩
  · rintro s ⟨⟩
    exact ⟨hbudget, List.nil_prefix, List.prefix_rfl⟩

end Encoded
