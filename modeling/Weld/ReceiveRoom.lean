/-
**Room for what the transport delivers.**

The destination of an encoded connection holds a bounded number of records, of frames and of bytes.
Before each poll it tells the transport how much may be delivered, separately for control and for
media.  What was promised stays available while the packets are applied, whatever they are: control
has reserved the references of a whole commit for each record, discarding a queue turns references
into tombstones but never adds any, and media waits only for room that control does not use.

Main definitions: `EncodedDestinationState.Room`, `Upholds`.

Main results:

* `EncodedDestinationState.Room.receiveBudget` — there is room for what is promised;
* `EncodedDestinationState.Room.poll` — a poll within the promise keeps all bounds.
-/

import Weld.EncodedDestination

namespace Encoded

open Client Gamepad Hoist AList

/-! ### Operations that keep a property -/

/-- The four errors of a full destination. -/
def DestinationError.isBound : DestinationError → Bool
  | .eventBound | .mediaFrameBound | .payloadByteBound | .cancelledFrameBound => true
  | _ => false

/-- The operation leads to a state with the property, or fails, but not by a bound. -/
def Upholds {α : Type} (P : α → Prop) : Except DestinationError α → Prop
  | .ok a => P a
  | .error e => e.isBound = false

namespace Upholds

variable {α β : Type} {P : α → Prop} {Q : β → Prop} {first : Except DestinationError α}

theorem bind {next : α → Except DestinationError β}
    (h : Upholds P first) (hnext : ∀ a, P a → Upholds Q (next a)) : Upholds Q (first.bind next) := by
  cases first with
  | error e => exact h
  | ok a => exact hnext a h

theorem map {f : α → β} (h : Upholds P first)
    (hf : ∀ a, P a → Q (f a)) : Upholds Q (first.map f) := by
  cases first with
  | error e => exact h
  | ok a => exact hf a h

theorem imp {P' : α → Prop} {result : Except DestinationError α} (h : Upholds P result)
    (himp : ∀ a, P a → P' a) : Upholds P' result := by
  cases result with
  | error e => exact h
  | ok a => exact himp a h

end Upholds

namespace EncodedDestinationState

/-! ### Room -/

/-- Room for `c` control records, for `m` frames and for `b` bytes of media. -/
structure Room (c m b : ℕ) (s : EncodedDestinationState) : Prop where
  events : s.events + c ≤ maxDestinationEvents
  references : s.cancelledFrames.size + s.replacements + maxReplacements * c ≤ maxReferencedFrames
  media : s.mediaFrames.size + m ≤ maxPendingMediaFrames
  bytes : s.mediaBytes + b ≤ maxPendingMediaBytes

section Room

variable {c m b : ℕ} {s t : EncodedDestinationState}

theorem Room.congr (h : Room c m b s) (hqueues : t.queues = s.queues)
    (hcancelled : t.cancelledFrames = s.cancelledFrames) (hmedia : t.mediaFrames = s.mediaFrames) :
    Room c m b t where
  events := by
    rw [EncodedDestinationState.events, hqueues]
    exact h.events
  references := by
    rw [replacements, hqueues, hcancelled]
    exact h.references
  media := by
    rw [hmedia]
    exact h.media
  bytes := by
    rw [mediaBytes, hmedia]
    exact h.bytes

theorem Room.mono {c' m' b' : ℕ} (h : Room c m b s) (hc : c' ≤ c) (hm : m' ≤ m) (hb : b' ≤ b) :
    Room c' m' b' s where
  events := by
    have hevents := h.events
    omega
  references := by
    have hreferences := h.references
    have hreserved := Nat.mul_le_mul_left maxReplacements hc
    omega
  media := by
    have hmedia := h.media
    omega
  bytes := by
    have hbytes := h.bytes
    omega

/-- **There is room for what is promised.** -/
theorem Room.receiveBudget (h : Room 0 0 0 s) :
    Room s.receiveBudget.controlRecords s.receiveBudget.mediaRecords s.receiveBudget.mediaBytes
      s := by
  obtain ⟨hevents, hreferences, hmedia, hbytes⟩ := h
  have hslots := Nat.div_mul_le_self
    (maxReferencedFrames - (s.cancelledFrames.size + s.replacements)) maxReplacements
  have hcontrol : s.receiveBudget.controlRecords ≤
      (maxReferencedFrames - (s.cancelledFrames.size + s.replacements)) / maxReplacements :=
    min_le_left _ _
  have hreserved := Nat.mul_le_mul_left maxReplacements hcontrol
  rw [Nat.mul_comm maxReplacements (_ / _)] at hreserved
  refine ⟨?_, ?_, ?_, ?_⟩
  · have hleft : s.receiveBudget.controlRecords ≤ maxDestinationEvents - s.events :=
      min_le_right _ _
    omega
  · omega
  · change s.mediaFrames.size + (maxPendingMediaFrames - s.mediaFrames.size) ≤ _
    omega
  · change s.mediaBytes + (maxPendingMediaBytes - s.mediaBytes) ≤ _
    omega

/-! ### Retiring and publishing -/

theorem Room.sweepRetirement (h : Room c m b s) (env : DecoderAnswers) :
    Upholds (Room c m b) (sweepRetirement env s) := by
  unfold EncodedDestinationState.sweepRetirement
  dsimp only
  split
  · rfl
  · exact h.congr rfl rfl rfl

variable (queue : List QueuedDestinationEvent)

/-- The frames of a queue. -/
def queueFrames : ℕ :=
  (queue.map fun queued => (encodedFrames queued.event).length).sum

/-- A shorter queue takes no more room. -/
theorem Room.shorten (h : Room c m b s) {surface : ClientSurfaceId}
    {queue rest : List QueuedDestinationEvent} (hlookup : s.queues.lookup surface = some queue)
    (hlength : rest.length ≤ queue.length) (hframes : queueFrames rest ≤ queueFrames queue) :
    Room c m b { s with queues := s.queues.insert surface rest } := by
  obtain ⟨hevents, hreferences, hmedia, hbytes⟩ := h
  rw [EncodedDestinationState.events, total_of_lookup hlookup] at hevents
  rw [replacements, total_of_lookup hlookup] at hreferences
  change queueFrames rest ≤ queueFrames queue at hframes
  unfold queueFrames at hframes
  refine ⟨?_, ?_, hmedia, hbytes⟩
  · rw [EncodedDestinationState.events, total_insert]
    omega
  · rw [replacements, total_insert]
    dsimp only
    omega

variable (env : DecoderAnswers)

theorem Room.publishFrames {frames : List MediaFrameId}
    (h : Room c m b s) : Upholds (Room c m b) (publishFrames env frames s) := by
  induction frames generalizing s with
  | nil => exact h
  | cons frame frames ih =>
      unfold EncodedDestinationState.publishFrames
      split_ifs
      · split
        · rfl
        · exact ih (h.congr rfl rfl rfl)
      · rfl

theorem Room.publishFront (h : Room c m b s) (env : DecoderAnswers) (surface : ClientSurfaceId) :
    Upholds (fun published => ∀ t, published = some t → Room c m b t)
      (publishFront env s surface) := by
  unfold EncodedDestinationState.publishFront
  split
  · intro t ht
    cases ht
  · intro t ht
    cases ht
  · rename_i front rest hlookup
    split_ifs
    · have hshort : Room c m b { s with queues := s.queues.insert surface rest } := by
        refine h.shorten hlookup (by simp) ?_
        simp [queueFrames]
      refine (Room.publishFrames env hshort).map fun u hu t ht => ?_
      cases ht
      exact hu.congr rfl rfl rfl
    · intro t ht
      cases ht

theorem Room.publishPass {surfaces : List ClientSurfaceId}
    (h : Room c m b s) :
    Upholds (fun result => Room c m b result.1) (publishPass env surfaces s) := by
  induction surfaces generalizing s with
  | nil => exact h
  | cons surface surfaces ih =>
      refine (h.publishFront env surface).bind fun published hpublished => ?_
      cases published with
      | none => exact ih h
      | some t => exact (ih (hpublished t rfl)).map fun _ => id

theorem Room.tidied (h : Room c m b s) : Room c m b s.tidied where
  events := by
    have hle : s.tidied.events ≤ s.events :=
      total_retain_le s.queues (fun _ queue => !queue.isEmpty) fun _ queue => queue.length
    have hevents := h.events
    omega
  references := by
    have hle : s.tidied.replacements ≤ s.replacements :=
      total_retain_le s.queues (fun _ queue => !queue.isEmpty) fun _ queue =>
        queueFrames queue
    have hreferences := h.references
    change s.cancelledFrames.size + s.tidied.replacements + maxReplacements * c ≤ _
    omega
  media := h.media
  bytes := h.bytes

variable {fuel : ℕ} {packets : List SourcePacket}

theorem Room.publishLoop (h : Room c m b s) : Upholds (Room c m b) (publishLoop env fuel s) := by
  induction fuel generalizing s with
  | zero => exact h
  | succ fuel ih =>
      refine (Room.publishPass env h).bind fun result hresult => ?_
      split_ifs
      · exact ih hresult.tidied
      · exact hresult.tidied

theorem Room.publishReady (h : Room c m b s) (env : DecoderAnswers) :
    Upholds (Room c m b) (publishReady env s) :=
  (h.sweepRetirement env).bind fun _ ht =>
    (Room.publishLoop env ht).bind fun _ hu => hu.sweepRetirement env

/-! ### Decoding -/

theorem Room.scheduleDecode (h : Room c m b s) (env : DecoderAnswers) (frame : MediaFrameId)
    (session : HoistSessionId) :
    Upholds (fun result => Room c m b result.1) (scheduleDecode env s frame session) := by
  unfold EncodedDestinationState.scheduleDecode
  split
  · exact h
  · rename_i media hlookup
    have hsize := size_erase_of_lookup hlookup
    have hbytes := total_of_lookup hlookup fun _ media => media.bytes
    obtain ⟨hroom, hreferences, hmedia, hpayload⟩ := h
    rw [mediaBytes] at hpayload
    split_ifs
    · rfl
    · rfl
    · split
      · refine ⟨hroom, hreferences, ?_, ?_⟩
        · change (s.mediaFrames.erase frame).size + m ≤ _
          omega
        · change (s.mediaFrames.erase frame).total (fun _ media => media.bytes) + b ≤ _
          omega
      · -- a busy decoder gives the frame back
        refine ⟨hroom, hreferences, ?_, ?_⟩
        · change ((s.mediaFrames.erase frame).insert frame media).size + m ≤ _
          rw [size_insert, erase_erase_self]
          omega
        · change ((s.mediaFrames.erase frame).insert frame media).total (fun _ media =>
            media.bytes) + b ≤ _
          rw [total_insert, erase_erase_self]
          omega
      · rfl

theorem Room.advanceLoop {busy : List ClientSurfaceId}
    (h : Room c m b s) : Upholds (Room c m b) (advanceLoop env fuel busy s) := by
  induction fuel generalizing busy s with
  | zero => exact h
  | succ fuel ih =>
      unfold EncodedDestinationState.advanceLoop
      dsimp only
      split
      · exact h.congr rfl rfl rfl
      · split
        · exact h.congr rfl rfl rfl
        · have hselected : Room c m b
              { s with scheduler := (s.scheduler.select s.candidates busy s.activity s.policy
                (env.now s.uses)).1 } := h.congr rfl rfl rfl
          refine (hselected.scheduleDecode env _ _).bind fun result hresult => ?_
          split_ifs
          · exact ih (hresult.congr rfl rfl rfl)
          · exact ih hresult

theorem Room.advance (h : Room c m b s) (env : DecoderAnswers) :
    Upholds (Room c m b) (advance env s) :=
  (h.publishReady env).bind fun _ ht =>
    (Room.advanceLoop env ht).bind fun _ hu => hu.sweepRetirement env

/-! ### Cancelling -/

/-- A discarded frame leaves a tombstone at most. -/
theorem Room.cancelFrame {session : HoistSessionId} {frame : MediaFrameId} {left : ℕ}
    (h : Room c m b s)
    (hleft : s.cancelledFrames.size + s.replacements + maxReplacements * c + (left + 1) ≤
      maxReferencedFrames) :
    Upholds (fun t => Room c m b t ∧
        t.cancelledFrames.size + t.replacements + maxReplacements * c + left ≤ maxReferencedFrames)
      (s.cancelFrame session frame) := by
  have hmedia := size_erase_le s.mediaFrames frame
  have hbytes := total_erase_le s.mediaFrames frame fun _ media => media.bytes
  obtain ⟨hroom, hreferences, hmost, hpayload⟩ := h
  rw [mediaBytes] at hpayload
  unfold EncodedDestinationState.cancelFrame
  split
  · refine ⟨⟨hroom, hreferences, ?_, ?_⟩, ?_⟩
    · dsimp only
      omega
    · rw [mediaBytes]
      dsimp only
      omega
    · change s.cancelledFrames.size + s.replacements + maxReplacements * c + left ≤ _
      omega
  · split_ifs with harrived hfull
    · refine ⟨⟨hroom, hreferences, ?_, ?_⟩, ?_⟩
      · dsimp only
        omega
      · rw [mediaBytes]
        dsimp only
        omega
      · change s.cancelledFrames.size + s.replacements + maxReplacements * c + left ≤ _
        omega
    · -- a tombstone takes the place of the reference
      have hsize : (s.cancelledFrames.insert frame session).size ≤ s.cancelledFrames.size + 1 := by
        rw [size_insert]
        have hle := size_erase_le s.cancelledFrames frame
        omega
      refine ⟨⟨hroom, ?_, ?_, ?_⟩, ?_⟩
      · change (s.cancelledFrames.insert frame session).size + s.replacements +
          maxReplacements * c ≤ _
        omega
      · dsimp only
        omega
      · rw [mediaBytes]
        dsimp only
        omega
      · change (s.cancelledFrames.insert frame session).size + s.replacements +
          maxReplacements * c + left ≤ _
        omega
    · omega

theorem Room.cancelFrames {frames : List (HoistSessionId × MediaFrameId)} (h : Room c m b s)
    (hleft : s.cancelledFrames.size + s.replacements + maxReplacements * c + frames.length ≤
      maxReferencedFrames) : Upholds (Room c m b) (s.cancelFrames frames) := by
  induction frames generalizing s with
  | nil => exact h
  | cons entry frames ih =>
      exact (h.cancelFrame hleft).bind fun t ht => ih ht.1 ht.2

theorem length_framesOf : (framesOf queue).length = queueFrames queue := by
  simp [framesOf, queueFrames, List.length_flatMap]

theorem Room.cancelSurface (h : Room c m b s) (env : DecoderAnswers) (surface : ClientSurfaceId) :
    Upholds (Room c m b) (cancelSurface env s surface) := by
  have hremoved : s.replacements =
      queueFrames ((s.queues.lookup surface).getD []) +
        (s.queues.erase surface).total fun _ queue => queueFrames queue := by
    cases hlookup : s.queues.lookup surface with
    | none =>
        rw [erase_of_lookup_none hlookup]
        change s.replacements = queueFrames [] + s.replacements
        simp [queueFrames]
    | some queue => exact total_of_lookup hlookup _
  have hevents := total_erase_le s.queues surface fun _ queue => queue.length
  obtain ⟨hroom, hreferences, hmedia, hpayload⟩ := h
  rw [EncodedDestinationState.events] at hroom
  refine Upholds.bind (Room.cancelFrames (c := c) (m := m) (b := b) ⟨?_, ?_, hmedia, hpayload⟩ ?_)
    fun t ht => ?_
  · rw [EncodedDestinationState.events]
    dsimp only
    omega
  · change s.cancelledFrames.size +
      ((s.queues.erase surface).total fun _ queue => queueFrames queue) + maxReplacements * c ≤ _
    omega
  · rw [length_framesOf]
    change s.cancelledFrames.size +
      ((s.queues.erase surface).total fun _ queue => queueFrames queue) + maxReplacements * c +
      _ ≤ _
    omega
  · have hretired : Room c m b (t.retireSurfaceGenerations surface) := ht.congr rfl rfl rfl
    exact hretired.sweepRetirement env

/-! ### Arrivals -/

@[simp] theorem encodedFrames_markEncodedBuffersOpaque (event : WireClientSurfaceEvent) :
    encodedFrames (markEncodedBuffersOpaque event) = encodedFrames event := by
  unfold markEncodedBuffersOpaque
  split
  · rename_i commit hkind
    simp only [encodedFrames, hkind, List.filterMap_map]
    refine List.filterMap_congr fun buffer _ => ?_
    simp only [Function.comp_apply]
    cases buffer.change <;> rfl
  · rfl

theorem remaining_sublist (session : HoistSessionId)
    (event : WireClientSurfaceEvent) : (remaining queue session event).Sublist queue := by
  unfold remaining
  split_ifs
  · exact List.filter_sublist
  · exact List.Sublist.refl _

/-- Two states that hold the same records, frames, jobs and tombstones. -/
structure SameContents (s t : EncodedDestinationState) : Prop where
  queues : t.queues = s.queues
  mediaFrames : t.mediaFrames = s.mediaFrames
  decoded : t.decoded = s.decoded
  decodeInFlight : t.decodeInFlight = s.decodeInFlight
  readySurfaces : t.readySurfaces = s.readySurfaces
  cancelledFrames : t.cancelledFrames = s.cancelledFrames
  activity : t.activity = s.activity
  nextToken : t.nextToken = s.nextToken

theorem SameContents.refl (s : EncodedDestinationState) : SameContents s s :=
  ⟨rfl, rfl, rfl, rfl, rfl, rfl, rfl, rfl⟩

theorem SameContents.trans {u : EncodedDestinationState} (h : SameContents s t)
    (h' : SameContents t u) : SameContents s u :=
  ⟨h'.queues.trans h.queues, h'.mediaFrames.trans h.mediaFrames, h'.decoded.trans h.decoded,
    h'.decodeInFlight.trans h.decodeInFlight, h'.readySurfaces.trans h.readySurfaces,
    h'.cancelledFrames.trans h.cancelledFrames, h'.activity.trans h.activity,
    h'.nextToken.trans h.nextToken⟩

/-- An inventory is replaced one buffer at a time. -/
theorem sameContents_foldl {f : EncodedDestinationState → WireSurfaceBufferUpdate →
      EncodedDestinationState} (hf : ∀ s buffer, SameContents s (f s buffer))
    (buffers : List WireSurfaceBufferUpdate) (s : EncodedDestinationState) :
    SameContents s (buffers.foldl f s) := by
  induction buffers generalizing s with
  | nil => exact SameContents.refl s
  | cons buffer buffers ih => exact (hf s buffer).trans (ih (f s buffer))

theorem sameContents_updateStreamGenerations (s : EncodedDestinationState)
    (event : WireClientSurfaceEvent) : SameContents s (s.updateStreamGenerations event) := by
  unfold updateStreamGenerations
  split
  · refine SameContents.trans ?_ (sameContents_foldl (fun s buffer => ?_) _ _)
    · exact ⟨rfl, rfl, rfl, rfl, rfl, rfl, rfl, rfl⟩
    · split <;> exact ⟨rfl, rfl, rfl, rfl, rfl, rfl, rfl, rfl⟩
  · exact SameContents.refl s

/-- The weight of a queue and that of the others. -/
theorem total_queues (s : EncodedDestinationState) (surface : ClientSurfaceId)
    {w : List QueuedDestinationEvent → ℕ} (hnil : w [] = 0) :
    (s.queues.total fun _ queue => w queue) = w ((s.queues.lookup surface).getD []) +
      (s.queues.erase surface).total fun _ queue => w queue := by
  cases hlookup : s.queues.lookup surface with
  | none =>
      rw [erase_of_lookup_none hlookup]
      simp [hnil]
  | some queue => exact total_of_lookup hlookup _

/-- A record takes its place at the end of a queue that may have become shorter. -/
theorem Room.append (h : Room (c + 1) m b s) (surface : ClientSurfaceId)
    (queued : QueuedDestinationEvent) {kept : List QueuedDestinationEvent}
    (hkept : kept.Sublist ((s.queues.lookup surface).getD []))
    (hframes : (encodedFrames queued.event).length ≤ maxReplacements) :
    Room c m b { s with queues := s.queues.insert surface (kept ++ [queued]) } := by
  have hlength := hkept.length_le
  have hless : queueFrames kept ≤ queueFrames ((s.queues.lookup surface).getD []) :=
    (hkept.map _).sum_le_sum fun _ _ => Nat.zero_le _
  have hone : queueFrames (kept ++ [queued]) =
      queueFrames kept + (encodedFrames queued.event).length := by
    simp [queueFrames]
  have hevents := s.total_queues surface (w := List.length) rfl
  have hreplaced := s.total_queues surface (w := queueFrames) rfl
  obtain ⟨hroom, hreferences, hmedia, hpayload⟩ := h
  rw [EncodedDestinationState.events, hevents] at hroom
  change s.cancelledFrames.size + (s.queues.total fun _ queue => queueFrames queue) + _ ≤ _
    at hreferences
  rw [hreplaced, Nat.mul_succ] at hreferences
  refine ⟨?_, ?_, hmedia, hpayload⟩
  · rw [EncodedDestinationState.events, total_insert, List.length_append, List.length_singleton]
    omega
  · change s.cancelledFrames.size + ((s.queues.insert surface (kept ++ [queued])).total
      fun _ queue => queueFrames queue) + maxReplacements * c ≤ _
    rw [total_insert, hone]
    omega

/-- A record arrives where a slot was reserved for it. -/
theorem Room.enqueue (h : Room (c + 1) m b s) (env : DecoderAnswers) (session : HoistSessionId)
    (event : WireClientSurfaceEvent) : Upholds (Room c m b) (enqueue env s session event) := by
  unfold EncodedDestinationState.enqueue
  dsimp only
  have hannounced : Room (c + 1) m b (s.announced session event) := h.congr rfl rfl rfl
  generalize s.announced session event = u at hannounced
  have hsame := u.sameContents_updateStreamGenerations (markEncodedBuffersOpaque event)
  have hupdated := hannounced.congr hsame.queues hsame.cancelledFrames hsame.mediaFrames
  generalize u.updateStreamGenerations (markEncodedBuffersOpaque event) = v at hupdated
  by_cases hmany : maxReplacements < (encodedFrames event).length
  · rw [if_pos hmany]
    rfl
  rw [if_neg hmany]
  by_cases halpha : keepsAlpha event = true
  · rw [if_pos halpha]
    rfl
  rw [if_neg halpha]
  by_cases hdestroyed : event.kind = .destroyed
  · rw [if_pos hdestroyed]
    exact ((hannounced.mono (Nat.le_succ c) le_rfl le_rfl).cancelSurface env event.surface).map
      fun t ht => ht.congr rfl rfl rfl
  -- the event bound is not reached
  have hevents := hupdated.events
  rw [if_neg hdestroyed, if_pos (by omega)]
  have happended := hupdated.append event.surface ⟨session, markEncodedBuffersOpaque event⟩
    (remaining_sublist _ session event) (by simpa using hmany)
  refine Room.publishReady ?_ env
  exact happended.congr rfl rfl rfl

/-- A frame arrives where there is room for it. -/
theorem Room.enqueueMedia {packet : MediaEnvelope} (h : Room c (m + 1) (b + packet.bytes) s) :
    Upholds (Room c m b) (s.enqueueMedia packet) := by
  obtain ⟨hroom, hreferences, hmedia, hpayload⟩ := h
  unfold EncodedDestinationState.enqueueMedia
  split
  · split_ifs
    · have hsize := size_erase_le s.cancelledFrames packet.frame
      refine ⟨hroom, ?_, by dsimp only; omega, ?_⟩
      · change (s.cancelledFrames.erase packet.frame).size + s.replacements +
          maxReplacements * c ≤ _
        omega
      · change s.mediaBytes + b ≤ _
        omega
    · rfl
  · split_ifs with hcount hbytes hpresent
    · omega
    · change maxPendingMediaBytes - s.mediaBytes < packet.bytes at hbytes
      omega
    · rfl
    · have habsent : s.mediaFrames.lookup packet.frame = none := lookup_eq_none.mpr hpresent
      refine ⟨hroom, hreferences, ?_, ?_⟩
      · rw [size_insert, erase_of_lookup_none habsent]
        omega
      · rw [mediaBytes, total_insert, erase_of_lookup_none habsent]
        rw [mediaBytes] at hpayload
        dsimp only
        omega

/-! ### Completions and polls -/

theorem Room.drainOne (h : Room c m b s) (completion : DecodeCompletion) :
    Upholds (Room c m b) (s.drainOne completion) := by
  unfold EncodedDestinationState.drainOne
  split
  · rfl
  · split_ifs
    · exact h.congr rfl rfl rfl
    · split
      · rfl
      · split_ifs
        · exact h.congr rfl rfl rfl
        · rfl

theorem Room.drain {completions : List DecodeCompletion} (h : Room c m b s)
    (env : DecoderAnswers) : Upholds (Room c m b) (drain env s completions) := by
  have hall : ∀ {completions : List DecodeCompletion} {s : EncodedDestinationState},
      Room c m b s → Upholds (Room c m b) (s.drainAll completions) := by
    intro completions
    induction completions with
    | nil => exact fun h => h
    | cons completion completions ih => exact fun h => (h.drainOne completion).bind fun _ => ih
  exact (hall h).bind fun _ ht => ht.advance env

/-- The control records among packets. -/
def controls (packets : List SourcePacket) : List SourceEnvelope :=
  packets.filterMap fun packet =>
    match packet with
    | .control envelope => some envelope
    | .media _ => none

/-- The frames among packets. -/
def medias (packets : List SourcePacket) : List MediaEnvelope :=
  packets.filterMap fun packet =>
    match packet with
    | .media envelope => some envelope
    | .control _ => none

def payload (packets : List MediaEnvelope) : ℕ := (packets.map (·.bytes)).sum

theorem Room.applySourcePackets
    (h : Room (c + (controls packets).length) (m + (medias packets).length)
      (b + payload (medias packets)) s) :
    Upholds (Room c m b) (applySourcePackets env s packets) := by
  induction packets generalizing s with
  | nil => exact h
  | cons packet packets ih =>
      cases packet with
      | media packet =>
          have hmedias : medias (.media packet :: packets) = packet :: medias packets := rfl
          have hroom : Room (c + (controls packets).length) (m + (medias packets).length + 1)
              (b + payload (medias packets) + packet.bytes) s := by
            refine h.mono le_rfl ?_ ?_
            · rw [hmedias, List.length_cons]
              omega
            · have hpayload : payload (packet :: medias packets) =
                  packet.bytes + payload (medias packets) := by simp [payload]
              rw [hmedias, hpayload]
              omega
          exact Upholds.bind hroom.enqueueMedia fun t => ih
      | control envelope =>
          have hslot : Room (c + (controls packets).length + 1) (m + (medias packets).length)
              (b + payload (medias packets)) s := h
          have hrest := hslot.mono (Nat.le_succ _) le_rfl le_rfl
          refine Upholds.bind (P := Room (c + (controls packets).length)
            (m + (medias packets).length) (b + payload (medias packets))) ?_ fun t => ih
          unfold EncodedDestinationState.applySourcePacket
          dsimp only
          split
          · exact hslot.enqueue env _ _
          · exact hrest.cancelSurface env _
          · split_ifs
            · exact hrest
            · rfl
          · rfl
          · exact hrest

/-- The transport delivers no more than it was told. -/
def WithinBudget (s : EncodedDestinationState) (packets : List SourcePacket) : Prop :=
  (controls packets).length ≤ s.receiveBudget.controlRecords ∧
    (medias packets).length ≤ s.receiveBudget.mediaRecords ∧
    payload (medias packets) ≤ s.receiveBudget.mediaBytes

/-- **A poll within the promise keeps all bounds**, whatever the packets are. -/
theorem Room.poll (h : Room 0 0 0 s) (env : DecoderAnswers)
    (hbudget : WithinBudget s packets) (completions : List DecodeCompletion) :
    Upholds (Room 0 0 0) (poll env s packets completions) := by
  obtain ⟨hcontrol, hmedia, hbytes⟩ := hbudget
  have hroom : Room (0 + (controls packets).length) (0 + (medias packets).length)
      (0 + payload (medias packets)) { s with output := [] } := by
    refine (h.receiveBudget.mono ?_ ?_ ?_).congr rfl rfl rfl <;> omega
  exact (Room.applySourcePackets env hroom).bind fun t ht => ht.drain env

end Room

end EncodedDestinationState

end Encoded
