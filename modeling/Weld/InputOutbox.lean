/-
**The outbox of input.**

A destination sends input, requests and acknowledgements to the source over one ordered connection.
`InputOutbox` holds what is not written yet: a new record may be merged with the last one that is still
there, if both are motions of the pointer, motions of one contact, or states of the gamepad that differ
in nothing but their axes.  Everything else is a barrier.

An addition of doubles is a parameter: the sum of deltas is computed with it, and must be finite.

Main definitions: `RelativeMotion.coalesce`, `Hoist.coalesceMotion`, `Hoist.compatibleGamepad`,
`Hoist.InputOutbox.push`, `Hoist.InputOutbox.recv`, `Hoist.OutboxRun`, `Hoist.MotionRun`,
`Hoist.TouchRun`, `Hoist.GamepadRun`.

Main results:

* `Hoist.OutboxRun.merged` — pushing and receiving merges adjacent records only;
* `Hoist.input_outbox_coalescing_is_faithful` — and what they become.
-/

import Mathlib.Data.List.Induction
import Weld.FloatArithmetic
import Weld.HoistMessages
import Weld.Merging

/-! ### Motions -/

namespace Client

/-- How doubles are added. -/
abbrev Addition := FloatValue → FloatValue → FloatValue

namespace FloatValue

/-- The exact sum. -/
def addExact : Addition
  | finite a, finite b => finite (a + b)
  | infinite a, infinite b => if a = b then infinite a else nan
  | infinite a, finite _ => infinite a
  | finite _, infinite b => infinite b
  | nan, _ | _, nan => nan

/-- The number, if it is one. -/
def toRat : FloatValue → ℚ
  | finite q => q
  | _ => 0

/-- A sum is finite only if both numbers are. -/
theorem addExact_finite {a b : FloatValue} (h : (addExact a b).isFinite = true) :
    a = finite a.toRat ∧ b = finite b.toRat ∧ addExact a b = finite (a.toRat + b.toRat) := by
  cases a with
  | finite p =>
      cases b with
      | finite q => exact ⟨rfl, rfl, rfl⟩
      | infinite | nan => cases h
  | infinite negative =>
      cases b with
      | finite q => cases h
      | infinite other =>
          simp only [addExact] at h
          split_ifs at h
          · cases h
          · cases h
      | nan => cases h
  | nan =>
      cases b with
      | finite | infinite | nan => cases h

end FloatValue

namespace RelativeMotion

def isFinite (motion : RelativeMotion) : Bool :=
  motion.delta.x.isFinite && motion.delta.y.isFinite && motion.unaccelerated.x.isFinite &&
    motion.unaccelerated.y.isFinite

/-- Accumulate an older sample, with the time of the newer one. -/
def accumulate (plus : Addition) (newer older : RelativeMotion) : Option RelativeMotion :=
  let sum : RelativeMotion :=
    { newer with
      delta := ⟨plus newer.delta.x older.delta.x, plus newer.delta.y older.delta.y⟩
      unaccelerated := ⟨plus newer.unaccelerated.x older.unaccelerated.x,
        plus newer.unaccelerated.y older.unaccelerated.y⟩ }
  if sum.isFinite then some sum else none

/-- Merge the payloads of adjacent motions.  Absolute and relative sources form a barrier. -/
def coalesce (plus : Addition) : Option RelativeMotion → Option RelativeMotion →
    Option (Option RelativeMotion)
  | none, none => some none
  | some newer, some older => (newer.accumulate plus older).map some
  | _, _ => none

end RelativeMotion

end Client

namespace Hoist

open Client Gamepad

def queueCapacity : ℕ := 256

/-! ### What may be merged -/

def isMotion (packet : DestinationEnvelope) : Bool :=
  match packet.message with
  | .input { event := .pointerMotion _ _, .. } => true
  | .input { event := .touch (.motion _ _), .. } => true
  | _ => false

/-- The next record with what it takes over from the previous one, if both are motions that may be
merged. -/
def coalesceMotion (plus : Addition) (previous next : DestinationEnvelope) :
    Option DestinationEnvelope :=
  match previous.message, next.message with
  | .input previousInput, .input nextInput =>
      if previous.session ≠ next.session ∨ previousInput.target ≠ nextInput.target then none
      else
        match previousInput.event, nextInput.event with
        | .touch (.motion old _), .touch (.motion new _) =>
            if previousInput.target.isTouch ∧ old = new then some next else none
        | .pointerMotion _ older, .pointerMotion position newer =>
            match previousInput.target with
            | .pointer _ _ =>
                (RelativeMotion.coalesce plus newer older).map fun merged =>
                  { next with message := .input { nextInput with event := .pointerMotion position merged } }
            | _ => none
        | _, _ => none
  | _, _ => none

def compatibleGamepad (previous next : DestinationEnvelope) : Bool :=
  match previous.message, next.message with
  | .gamepad old, .gamepad new => previous.session = next.session && new.supersedes old
  | _, _ => false

/-- What the last record and the next one become, if they are merged. -/
def coalesced (plus : Addition) (previous next : DestinationEnvelope) : Option DestinationEnvelope :=
  (coalesceMotion plus previous next).or (if compatibleGamepad previous next then some next else none)

/-! ### The queue -/

def saturatingSucc (n : ℕ) : ℕ := if n + 1 < wireLimit then n + 1 else n

def DestinationMessage.kindIndex : DestinationMessage → ℕ
  | .input _ => 0
  | .request _ => 1
  | .cursorReceived _ _ => 2
  | .bufferReleased _ => 3
  | .reclaim => 4
  | .gamepad _ => 5

structure InputObservations where
  motionsReceived : ℕ := 0
  dequeued : ℕ := 0
  queueHighWater : ℕ := 0
  deriving DecidableEq, Repr

structure InputOutbox where
  closed : Bool := false
  records : List DestinationEnvelope := []
  received : List ℕ := [0, 0, 0, 0, 0, 0]
  coalesced : ℕ := 0
  gamepadCoalesced : ℕ := 0
  observations : InputObservations := {}

inductive OutboxError
  | closed
  | exhausted (queued : ℕ) (received : List ℕ) (coalesced : ℕ)
  deriving DecidableEq, Repr

def OutboxError.text : OutboxError → String
  | closed => "input outbox is closed"
  | exhausted queued received coalesced =>
      "destination control backlog exhausted: " ++ toString queued ++
        " queued; received [input, request, cursor-ack, buffer-release, reclaim, gamepad]=" ++
        toString received ++ "; coalesced_motions=" ++ toString coalesced

namespace InputOutbox

/-- The record is counted, whatever becomes of it. -/
def count (s : InputOutbox) (packet : DestinationEnvelope) : InputOutbox :=
  { s with
    received := s.received.modify packet.message.kindIndex saturatingSucc
    observations :=
      if isMotion packet then
        { s.observations with motionsReceived := saturatingSucc s.observations.motionsReceived }
      else s.observations }

/-- Take the place of the last record. -/
def replace (s : InputOutbox) (front : List DestinationEnvelope) (merged : DestinationEnvelope) :
    InputOutbox :=
  match merged.message with
  | .gamepad _ =>
      { s with records := front ++ [merged], gamepadCoalesced := saturatingSucc s.gamepadCoalesced }
  | _ => { s with records := front ++ [merged], coalesced := saturatingSucc s.coalesced }

/-- Append a record, if there is room. -/
def append (s : InputOutbox) (packet : DestinationEnvelope) : InputOutbox × Except OutboxError Unit :=
  if s.records.length < queueCapacity then
    ({ s with
      records := s.records ++ [packet]
      observations :=
        { s.observations with
          queueHighWater := max s.observations.queueHighWater (s.records.length + 1) } }, .ok ())
  else (s, .error (.exhausted s.records.length s.received s.coalesced))

def push (plus : Addition) (s : InputOutbox) (packet : DestinationEnvelope) :
    InputOutbox × Except OutboxError Unit :=
  if s.closed then (s, .error .closed)
  else
    match s.records.getLast?.bind (Hoist.coalesced plus · packet) with
    | some merged => ((s.count packet).replace s.records.dropLast merged, .ok ())
    | none => (s.count packet).append packet

/-- Take the first record, or wait. -/
def recv (s : InputOutbox) : InputOutbox × Except OutboxError (Option DestinationEnvelope) :=
  if s.closed then (s, .error .closed)
  else
    match s.records with
    | [] => (s, .ok none)
    | packet :: records =>
        ({ s with
          records
          observations :=
            { s.observations with dequeued := saturatingSucc s.observations.dequeued } },
          .ok (some packet))

def close (s : InputOutbox) : InputOutbox := { s with closed := true, records := [] }

end InputOutbox

/-! ### Runs -/

inductive OutboxStep
  | push (packet : DestinationEnvelope)
  | recv
  deriving DecidableEq

/-- A queue with what was pushed into it and what was received from it. -/
structure OutboxRun where
  outbox : InputOutbox := {}
  pushed : List DestinationEnvelope := []
  received : List DestinationEnvelope := []

namespace OutboxRun

/-- A record that is refused is not pushed. -/
def step (plus : Addition) (run : OutboxRun) : OutboxStep → OutboxRun
  | .push packet =>
      let (outbox, result) := run.outbox.push plus packet
      match result with
      | .ok () => { run with outbox, pushed := run.pushed ++ [packet] }
      | .error _ => { run with outbox }
  | .recv =>
      let (outbox, result) := run.outbox.recv
      match result with
      | .ok (some packet) => { run with outbox, received := run.received ++ [packet] }
      | _ => { run with outbox }

def after (plus : Addition) (steps : List OutboxStep) : OutboxRun := steps.foldl (step plus) {}

/-- What was received, and what is still there. -/
def seen (run : OutboxRun) : List DestinationEnvelope := run.received ++ run.outbox.records

end OutboxRun

/-! ### What records become -/

/-- A motion of the pointer. -/
structure MotionSample where
  position : InputPosition
  relative : Option RelativeMotion
  time : ℕ

def MotionSample.record (session : HoistSessionId) (surface : ClientSurfaceId) (layer : SurfaceLayerId)
    (sample : MotionSample) : DestinationEnvelope :=
  ⟨session, .input ⟨.pointer surface layer, .pointerMotion sample.position sample.relative, sample.time⟩⟩

/-- A motion of a contact. -/
structure TouchSample where
  position : InputPosition
  time : ℕ

def TouchSample.record (session : HoistSessionId) (surface : ClientSurfaceId) (layer : SurfaceLayerId)
    (id : TouchId) (sample : TouchSample) : DestinationEnvelope :=
  ⟨session, .input ⟨.touch surface layer, .touch (.motion id sample.position), sample.time⟩⟩

def stateRecord (session : HoistSessionId) (generation : ℕ) (state : GamepadState) :
    DestinationEnvelope :=
  ⟨session, .gamepad (.state generation state)⟩

/-- What of the state of a gamepad is discrete: the buttons, the hat, and on which side of their
thresholds the triggers are. -/
def discrete (state : GamepadState) : GamepadButtons × (HatDirection × HatDirection) × Bool × Bool :=
  (state.buttons, state.dpad, decide (32768 ≤ state.triggers.1), decide (32768 ≤ state.triggers.2))

/-- The deltas are the sums over the motions, and the time is the newest one. -/
structure SumOf (motions : List RelativeMotion) (sum : RelativeMotion) : Prop where
  finite : ∀ motion ∈ motions, motion.isFinite = true
  deltaX : sum.delta.x = .finite (motions.map fun motion => motion.delta.x.toRat).sum
  deltaY : sum.delta.y = .finite (motions.map fun motion => motion.delta.y.toRat).sum
  unacceleratedX :
    sum.unaccelerated.x = .finite (motions.map fun motion => motion.unaccelerated.x.toRat).sum
  unacceleratedY :
    sum.unaccelerated.y = .finite (motions.map fun motion => motion.unaccelerated.y.toRat).sum
  newest : ∃ newest, motions.getLast? = some newest ∧ sum.timeMicros = newest.timeMicros

/-- Either no motion is relative, or all of them are. -/
def Accumulated (relatives : List (Option RelativeMotion)) (relative : Option RelativeMotion) : Prop :=
  (∀ other ∈ relatives, other = none) ∧ relative = none ∨
    ∃ motions sum, relatives = motions.map some ∧ relative = some sum ∧ SumOf motions sum

theorem isFinite_iff {motion : RelativeMotion} : motion.isFinite = true ↔
    motion.delta.x.isFinite = true ∧ motion.delta.y.isFinite = true ∧
      motion.unaccelerated.x.isFinite = true ∧ motion.unaccelerated.y.isFinite = true := by
  rw [RelativeMotion.isFinite, Bool.and_eq_true_iff, Bool.and_eq_true_iff, Bool.and_eq_true_iff,
    and_assoc, and_assoc]

theorem finite_toRat {value : FloatValue} (h : value.isFinite = true) :
    value = .finite value.toRat := by
  cases value with
  | finite q => rfl
  | infinite | nan => cases h

theorem SumOf.single {motion : RelativeMotion} (h : motion.isFinite = true) :
    SumOf [motion] motion := by
  obtain ⟨hx, hy, hux, huy⟩ := isFinite_iff.mp h
  refine ⟨fun other hother => ?_, ?_, ?_, ?_, ?_, motion, rfl, rfl⟩
  · rw [List.mem_singleton.mp hother]
    exact h
  · simpa using finite_toRat hx
  · simpa using finite_toRat hy
  · simpa using finite_toRat hux
  · simpa using finite_toRat huy

/-- What is accumulated, coordinate by coordinate. -/
theorem accumulate_spec {newer older sum : RelativeMotion}
    (h : newer.accumulate FloatValue.addExact older = some sum) :
    newer.isFinite = true ∧ older.isFinite = true ∧
      sum.delta.x = .finite (newer.delta.x.toRat + older.delta.x.toRat) ∧
      sum.delta.y = .finite (newer.delta.y.toRat + older.delta.y.toRat) ∧
      sum.unaccelerated.x = .finite (newer.unaccelerated.x.toRat + older.unaccelerated.x.toRat) ∧
      sum.unaccelerated.y = .finite (newer.unaccelerated.y.toRat + older.unaccelerated.y.toRat) ∧
      sum.timeMicros = newer.timeMicros := by
  simp only [RelativeMotion.accumulate] at h
  split_ifs at h with hfinite
  cases h
  obtain ⟨hx, hy, hux, huy⟩ := isFinite_iff.mp hfinite
  obtain ⟨hnx, hox, hsx⟩ := FloatValue.addExact_finite hx
  obtain ⟨hny, hoy, hsy⟩ := FloatValue.addExact_finite hy
  obtain ⟨hnux, houx, hsux⟩ := FloatValue.addExact_finite hux
  obtain ⟨hnuy, houy, hsuy⟩ := FloatValue.addExact_finite huy
  refine ⟨isFinite_iff.mpr ⟨?_, ?_, ?_, ?_⟩, isFinite_iff.mpr ⟨?_, ?_, ?_, ?_⟩, hsx, hsy, hsux, hsuy,
    rfl⟩
  · rw [hnx]; rfl
  · rw [hny]; rfl
  · rw [hnux]; rfl
  · rw [hnuy]; rfl
  · rw [hox]; rfl
  · rw [hoy]; rfl
  · rw [houx]; rfl
  · rw [houy]; rfl

theorem sum_concat (motions : List RelativeMotion) (newer : RelativeMotion)
    (f : RelativeMotion → ℚ) :
    ((motions ++ [newer]).map f).sum = f newer + (motions.map f).sum := by
  rw [List.map_append, List.sum_append, List.map_singleton, List.sum_singleton, add_comm]

/-- **One more motion is added to the sums.** -/
theorem SumOf.extend {motions : List RelativeMotion} {newer older sum : RelativeMotion}
    (h : SumOf motions older) (hsum : newer.accumulate FloatValue.addExact older = some sum) :
    SumOf (motions ++ [newer]) sum := by
  obtain ⟨hnewer, -, hx, hy, hux, huy, htime⟩ := accumulate_spec hsum
  refine ⟨fun motion hmotion => ?_, ?_, ?_, ?_, ?_, newer, List.getLast?_concat, htime⟩
  · rcases List.mem_append.mp hmotion with hold | hnew
    · exact h.finite motion hold
    · rw [List.mem_singleton.mp hnew]
      exact hnewer
  · rw [sum_concat, hx, h.deltaX]
    rfl
  · rw [sum_concat, hy, h.deltaY]
    rfl
  · rw [sum_concat, hux, h.unacceleratedX]
    rfl
  · rw [sum_concat, huy, h.unacceleratedY]
    rfl

variable {plus : Addition} {newer older : Option RelativeMotion}

/-- Payloads that coalesce are both absent, or both present. -/
theorem coalesce_cases {merged : Option RelativeMotion}
    (h : RelativeMotion.coalesce plus newer older = some merged) :
    newer = none ∧ older = none ∧ merged = none ∨
      ∃ new old sum, newer = some new ∧ older = some old ∧ merged = some sum ∧
        new.accumulate plus old = some sum := by
  cases newer with
  | none =>
      cases older with
      | none =>
          cases h
          exact .inl ⟨rfl, rfl, rfl⟩
      | some old => cases h
  | some new =>
      cases older with
      | none => cases h
      | some old =>
          obtain ⟨sum, hsum, rfl⟩ := Option.map_eq_some_iff.mp h
          exact .inr ⟨new, old, sum, rfl, rfl, rfl, hsum⟩

/-- What is accumulated so far is extended by a payload that coalesces. -/
theorem Accumulated.extend {relatives : List (Option RelativeMotion)} {merged : Option RelativeMotion}
    (h : Accumulated relatives older)
    (hmerged : RelativeMotion.coalesce FloatValue.addExact newer older = some merged) :
    Accumulated (relatives ++ [newer]) merged := by
  rcases coalesce_cases hmerged with ⟨rfl, rfl, rfl⟩ | ⟨new, old, sum, rfl, rfl, rfl, hsum⟩
  · rcases h with ⟨hnone, -⟩ | ⟨motions, sum, -, hsome, -⟩
    · refine .inl ⟨fun other hother => ?_, rfl⟩
      rcases List.mem_append.mp hother with hold | hnew
      · exact hnone other hold
      · exact List.mem_singleton.mp hnew
    · cases hsome
  · rcases h with ⟨-, hnone⟩ | ⟨motions, found, rfl, hsome, hof⟩
    · cases hnone
    · cases hsome
      refine .inr ⟨motions ++ [new], sum, ?_, rfl, hof.extend hsum⟩
      rw [List.map_append, List.map_singleton]

/-- A payload that coalesces is accumulated by itself. -/
theorem Accumulated.single {merged : Option RelativeMotion}
    (hmerged : RelativeMotion.coalesce FloatValue.addExact newer older = some merged) :
    Accumulated [older] older := by
  rcases coalesce_cases hmerged with ⟨-, rfl, -⟩ | ⟨new, old, sum, -, rfl, -, hsum⟩
  · exact .inl ⟨fun other hother => List.mem_singleton.mp hother, rfl⟩
  · exact .inr ⟨[old], old, rfl, rfl, .single (accumulate_spec hsum).2.1⟩

/-! ### Runs of records -/

/-- Motions of the pointer in one place: the last one, with the sums of the deltas. -/
def MotionRun (run : List DestinationEnvelope) (kept : DestinationEnvelope) : Prop :=
  ∃ (session : HoistSessionId) (surface : ClientSurfaceId) (layer : SurfaceLayerId)
    (samples : List MotionSample) (last : MotionSample) (relative : Option RelativeMotion),
    run = samples.map (MotionSample.record session surface layer) ∧ samples.getLast? = some last ∧
      Accumulated (samples.map (·.relative)) relative ∧
      kept = MotionSample.record session surface layer { last with relative }

/-- Motions of one contact: the last one. -/
def TouchRun (run : List DestinationEnvelope) (kept : DestinationEnvelope) : Prop :=
  ∃ (session : HoistSessionId) (surface : ClientSurfaceId) (layer : SurfaceLayerId) (id : TouchId)
    (samples : List TouchSample) (last : TouchSample),
    run = samples.map (TouchSample.record session surface layer id) ∧
      samples.getLast? = some last ∧ kept = TouchSample.record session surface layer id last

/-- States of the gamepad that agree in everything discrete: the last one. -/
def GamepadRun (run : List DestinationEnvelope) (kept : DestinationEnvelope) : Prop :=
  ∃ (session : HoistSessionId) (generation : ℕ) (states : List GamepadState) (last : GamepadState),
    run = states.map (stateRecord session generation) ∧ states.getLast? = some last ∧
      (∀ state ∈ states, discrete state = discrete last) ∧ kept = stateRecord session generation last

/-- What a run of records may become. -/
def Becomes (run : List DestinationEnvelope) (kept : DestinationEnvelope) : Prop :=
  run = [kept] ∨ MotionRun run kept ∨ TouchRun run kept ∨ GamepadRun run kept

/-- States that supersede each other agree in everything discrete. -/
theorem discrete_of_supersedes {generation generation' : ℕ} {old new : GamepadState}
    (h : (GamepadRequest.state generation' new).supersedes (.state generation old) = true) :
    generation = generation' ∧ discrete old = discrete new := by
  simp only [GamepadRequest.supersedes, Bool.and_eq_true, beq_iff_eq] at h
  obtain ⟨⟨⟨hgeneration, hbuttons⟩, hdpad⟩, hleft, hright⟩ := h
  exact ⟨hgeneration, by rw [discrete, discrete, hbuttons, hdpad, hleft, hright]⟩

variable {both : DestinationEnvelope}

/-- **What may be merged.** -/
theorem coalesced_cases {previous next : DestinationEnvelope}
    (h : coalesced plus previous next = some both) :
    (∃ (session : HoistSessionId) (surface : ClientSurfaceId) (layer : SurfaceLayerId)
        (old new : MotionSample) (relative : Option RelativeMotion),
      previous = old.record session surface layer ∧ next = new.record session surface layer ∧
        RelativeMotion.coalesce plus new.relative old.relative = some relative ∧
        both = MotionSample.record session surface layer { new with relative }) ∨
    (∃ (session : HoistSessionId) (surface : ClientSurfaceId) (layer : SurfaceLayerId) (id : TouchId)
        (old new : TouchSample), previous = old.record session surface layer id ∧
      next = new.record session surface layer id ∧ both = next) ∨
    ∃ (session : HoistSessionId) (generation : ℕ) (old new : GamepadState),
      previous = stateRecord session generation old ∧ next = stateRecord session generation new ∧
        discrete old = discrete new ∧ both = next := by
  obtain ⟨session, message⟩ := previous
  obtain ⟨session', message'⟩ := next
  rcases Option.or_eq_some_iff.mp h with hmotion | ⟨-, hgamepad⟩
  · rw [coalesceMotion] at hmotion
    split at hmotion
    · rename_i old new hold hnew
      cases hold
      cases hnew
      obtain ⟨target, event, time⟩ := old
      obtain ⟨target', event', time'⟩ := new
      split_ifs at hmotion with hother
      rw [not_or, not_not, not_not] at hother
      obtain ⟨hsession, htarget⟩ := hother
      dsimp only at hsession htarget hmotion
      subst hsession
      subst htarget
      split at hmotion
      · -- two motions of one contact
        rename_i id position id' position'
        split_ifs at hmotion with hsame
        cases hmotion
        obtain ⟨htouch, rfl⟩ := hsame
        cases target with
        | pointer | keyboard => cases htouch
        | touch surface layer =>
            exact .inr (.inl ⟨session, surface, layer, id, ⟨position, time⟩, ⟨position', time'⟩,
              rfl, rfl, rfl⟩)
      · -- two motions of the pointer
        rename_i position older position' newer
        cases target with
        | pointer surface layer =>
            obtain ⟨relative, hrelative, rfl⟩ := Option.map_eq_some_iff.mp hmotion
            exact .inl ⟨session, surface, layer, ⟨position, older, time⟩, ⟨position', newer, time'⟩,
              relative, rfl, rfl, hrelative, rfl⟩
        | keyboard | touch => cases hmotion
      · cases hmotion
    · cases hmotion
  · split_ifs at hgamepad with hcompatible
    cases hgamepad
    rw [compatibleGamepad] at hcompatible
    split at hcompatible
    · rename_i old new hold hnew
      cases hold
      cases hnew
      rw [Bool.and_eq_true_iff, decide_eq_true_iff] at hcompatible
      obtain ⟨hsession, hsupersedes⟩ := hcompatible
      subst hsession
      obtain ⟨generation, a, b, rfl, rfl⟩ := GamepadRequest.supersedes_iff_state hsupersedes
      exact .inr (.inr ⟨session, generation, a, b, rfl, rfl,
        (discrete_of_supersedes hsupersedes).2, rfl⟩)
    · cases hcompatible

theorem concat_map {β : Type} (f : β → DestinationEnvelope) (l : List β) (b : β) :
    l.map f ++ [f b] = (l ++ [b]).map f := by
  rw [List.map_append, List.map_singleton]

variable {run : List DestinationEnvelope} {session : HoistSessionId}
  {surface : ClientSurfaceId} {layer : SurfaceLayerId} {generation : ℕ} {old : GamepadState}
  {packet : DestinationEnvelope}

/-- A motion of the pointer comes from motions of the pointer. -/
theorem Becomes.motion {old : MotionSample} (h : Becomes run (old.record session surface layer))
    (hsingle : Accumulated [old.relative] old.relative) :
    ∃ samples : List MotionSample, run = samples.map (MotionSample.record session surface layer) ∧
      Accumulated (samples.map (·.relative)) old.relative := by
  rcases h with rfl | hmotion | htouch | hgamepad
  · exact ⟨[old], rfl, hsingle⟩
  · obtain ⟨session', surface', layer', samples, last, relative, rfl, -, hall, heq⟩ := hmotion
    cases old
    cases heq
    exact ⟨samples, rfl, hall⟩
  · obtain ⟨session', surface', layer', id, samples, last, -, -, heq⟩ := htouch
    cases heq
  · obtain ⟨session', generation, states, last, -, -, -, heq⟩ := hgamepad
    cases heq

/-- A motion of a contact comes from motions of the contact. -/
theorem Becomes.touch {id : TouchId}
    {old : TouchSample} (h : Becomes run (old.record session surface layer id)) :
    ∃ samples : List TouchSample, run = samples.map (TouchSample.record session surface layer id) := by
  rcases h with rfl | hmotion | htouch | hgamepad
  · exact ⟨[old], rfl⟩
  · obtain ⟨session', surface', layer', samples, last, relative, -, -, -, heq⟩ := hmotion
    cases heq
  · obtain ⟨session', surface', layer', id', samples, last, rfl, -, heq⟩ := htouch
    cases old
    cases last
    cases heq
    exact ⟨samples, rfl⟩
  · obtain ⟨session', generation, states, last, -, -, -, heq⟩ := hgamepad
    cases heq

/-- A state of the gamepad comes from states that agree with it. -/
theorem Becomes.gamepad (h : Becomes run (stateRecord session generation old)) :
    ∃ states : List GamepadState, run = states.map (stateRecord session generation) ∧
      ∀ state ∈ states, discrete state = discrete old := by
  rcases h with rfl | hmotion | htouch | hgamepad
  · exact ⟨[old], rfl, fun state hstate => by rw [List.mem_singleton.mp hstate]⟩
  · obtain ⟨session', surface', layer', samples, last, relative, -, -, -, heq⟩ := hmotion
    cases heq
  · obtain ⟨session', surface', layer', id', samples, last, -, -, heq⟩ := htouch
    cases heq
  · obtain ⟨session', generation', states, last, rfl, -, hall, heq⟩ := hgamepad
    cases heq
    exact ⟨states, rfl, hall⟩

/-- **What a run of records becomes.** -/
theorem becomes_of_run {kept : DestinationEnvelope}
    (h : Merging.Run (coalesced FloatValue.addExact) run kept) : Becomes run kept := by
  induction h with
  | single a => exact .inl rfl
  | @extend run old new both _ hmerge ih =>
      rcases coalesced_cases hmerge with ⟨session, surface, layer, previous, next, relative, rfl, rfl,
        hrelative, rfl⟩ | ⟨session, surface, layer, id, previous, next, rfl, rfl, rfl⟩ |
        ⟨session, generation, previous, next, rfl, rfl, hdiscrete, rfl⟩
      · obtain ⟨samples, rfl, hall⟩ := ih.motion (.single hrelative)
        refine .inr (.inl ⟨session, surface, layer, samples ++ [next], next, relative,
          concat_map _ _ _, List.getLast?_concat, ?_, rfl⟩)
        rw [List.map_append, List.map_singleton]
        exact hall.extend hrelative
      · obtain ⟨samples, rfl⟩ := ih.touch
        exact .inr (.inr (.inl ⟨session, surface, layer, id, samples ++ [next], next,
          concat_map _ _ _, List.getLast?_concat, rfl⟩))
      · obtain ⟨states, rfl, hall⟩ := ih.gamepad
        refine .inr (.inr (.inr ⟨session, generation, states ++ [next], next, concat_map _ _ _,
          List.getLast?_concat, fun state hstate => ?_, rfl⟩))
        rcases List.mem_append.mp hstate with hold | hnew
        · exact (hall state hold).trans hdiscrete
        · rw [List.mem_singleton.mp hnew]

/-! ### The queue merges adjacent records -/

variable {s : InputOutbox}

/-- A push that is refused leaves the records as they were. -/
theorem InputOutbox.push_error {error : OutboxError} (h : (s.push plus packet).2 = .error error) :
    (s.push plus packet).1.records = s.records ∧ (s.push plus packet).1.closed = s.closed := by
  rw [InputOutbox.push] at h ⊢
  split_ifs at h ⊢ with hclosed
  · exact ⟨rfl, rfl⟩
  · split at h
    · cases h
    · rw [InputOutbox.append] at h ⊢
      split_ifs at h ⊢
      exact ⟨rfl, rfl⟩

/-- A push that is accepted appends the record, or merges it with the last one. -/
theorem InputOutbox.push_ok (h : (s.push plus packet).2 = .ok ()) :
    (s.push plus packet).1.records = s.records ++ [packet] ∨
      ∃ front old both, s.records = front ++ [old] ∧
        Hoist.coalesced plus old packet = some both ∧
        (s.push plus packet).1.records = front ++ [both] := by
  rw [InputOutbox.push] at h ⊢
  split_ifs at h ⊢ with hclosed
  cases hmerged : s.records.getLast?.bind (Hoist.coalesced plus · packet) with
  | none =>
      rw [hmerged] at h
      rw [InputOutbox.append] at h ⊢
      split_ifs at h ⊢
      exact .inl rfl
  | some both =>
      obtain ⟨old, hold, hboth⟩ := Option.bind_eq_some_iff.mp hmerged
      obtain ⟨front, hfront⟩ := List.getLast?_eq_some_iff.mp hold
      refine .inr ⟨front, old, both, hfront, hboth, ?_⟩
      change ((s.count packet).replace s.records.dropLast both).records = front ++ [both]
      rw [InputOutbox.replace, hfront, List.dropLast_concat]
      split
      · rfl
      · rfl

namespace OutboxRun

variable {plus : Addition}

theorem step_merged {run : OutboxRun} (h : Merging.Merged (coalesced plus) run.pushed run.seen)
    (step : OutboxStep) :
    Merging.Merged (coalesced plus) (run.step plus step).pushed (run.step plus step).seen := by
  cases step with
  | push packet =>
      cases hresult : (run.outbox.push plus packet).2 with
      | error error =>
          obtain ⟨hrecords, -⟩ := InputOutbox.push_error hresult
          have hstep : run.step plus (.push packet) =
              { run with outbox := (run.outbox.push plus packet).1 } := by
            simp only [OutboxRun.step, hresult]
          rw [hstep, seen, hrecords]
          exact h
      | ok accepted =>
          have hstep : run.step plus (.push packet) =
              { run with
                outbox := (run.outbox.push plus packet).1
                pushed := run.pushed ++ [packet] } := by
            simp only [OutboxRun.step, hresult]
          rw [hstep, seen]
          rcases InputOutbox.push_ok hresult with hrecords | ⟨front, old, both, hfront, hboth,
            hrecords⟩
          · rw [hrecords, ← List.append_assoc]
            exact h.append packet
          · rw [seen, hfront, ← List.append_assoc] at h
            rw [hrecords, ← List.append_assoc]
            exact h.merge hboth
  | recv =>
      have hsame : (run.step plus .recv).pushed = run.pushed ∧
          (run.step plus .recv).seen = run.seen := by
        simp only [OutboxRun.step, InputOutbox.recv]
        split_ifs
        · exact ⟨rfl, rfl⟩
        · cases hrecords : run.outbox.records with
          | nil => exact ⟨rfl, rfl⟩
          | cons packet records =>
              refine ⟨rfl, ?_⟩
              rw [seen, seen, hrecords]
              exact List.append_assoc _ _ _
      rw [hsame.1, hsame.2]
      exact h

/-- **Pushing and receiving merges adjacent records only.** -/
theorem merged (plus : Addition) (steps : List OutboxStep) :
    Merging.Merged (coalesced plus) (after plus steps).pushed (after plus steps).seen := by
  induction steps using List.reverseRecOn with
  | nil => exact .nil
  | append_singleton steps step ih =>
      rw [after, List.foldl_append]
      exact step_merged ih step

end OutboxRun

/-- The record is neither a motion nor a state of the gamepad. -/
def isBarrier (packet : DestinationEnvelope) : Bool :=
  match packet.message with
  | .input { event := .pointerMotion _ _, .. } => false
  | .input { event := .touch (.motion _ _), .. } => false
  | .gamepad (.state _ _) => false
  | _ => true

/-- The discrete part of a state of the gamepad. -/
def discreteOf (packet : DestinationEnvelope) :
    Option (GamepadButtons × (HatDirection × HatDirection) × Bool × Bool) :=
  match packet.message with
  | .gamepad (.state _ state) => some (discrete state)
  | _ => none

/-- What is merged is no barrier, and keeps what is discrete. -/
theorem coalesced_keeps {old new : DestinationEnvelope} (h : coalesced plus old new = some both) :
    (isBarrier old = false ∧ isBarrier new = false ∧ isBarrier both = false) ∧
      discreteOf old = discreteOf new ∧ discreteOf both = discreteOf new := by
  rcases coalesced_cases h with ⟨session, surface, layer, previous, next, relative, rfl, rfl,
    -, rfl⟩ | ⟨session, surface, layer, id, previous, next, rfl, rfl, rfl⟩ |
    ⟨session, generation, previous, next, rfl, rfl, hdiscrete, rfl⟩
  · exact ⟨⟨rfl, rfl, rfl⟩, rfl, rfl⟩
  · exact ⟨⟨rfl, rfl, rfl⟩, rfl, rfl⟩
  · exact ⟨⟨rfl, rfl, rfl⟩, congrArg some hdiscrete, rfl⟩

/-- **The outbox merges adjacent records faithfully.** -/
theorem input_outbox_coalescing_is_faithful :
    (∀ steps : List OutboxStep,
      (∃ runs : List (List DestinationEnvelope),
        runs.flatten = (OutboxRun.after FloatValue.addExact steps).pushed ∧
          List.Forall₂ Becomes runs (OutboxRun.after FloatValue.addExact steps).seen) ∧
      (OutboxRun.after FloatValue.addExact steps).seen.filter isBarrier =
        (OutboxRun.after FloatValue.addExact steps).pushed.filter isBarrier ∧
      Thinning.transitions ((OutboxRun.after FloatValue.addExact steps).seen.filterMap discreteOf) =
        Thinning.transitions
          ((OutboxRun.after FloatValue.addExact steps).pushed.filterMap discreteOf)) ∧
    ∀ (s : InputOutbox) (packet : DestinationEnvelope) (error : OutboxError),
      (s.push FloatValue.addExact packet).2 = .error error →
        (s.push FloatValue.addExact packet).1.records = s.records ∧
          (s.push FloatValue.addExact packet).1.closed = s.closed := by
  refine ⟨fun steps => ?_, fun s packet error => InputOutbox.push_error⟩
  have hmerged := OutboxRun.merged FloatValue.addExact steps
  obtain ⟨runs, hflatten, hruns⟩ := hmerged.runs
  refine ⟨⟨runs, hflatten, hruns.imp fun _ _ => becomes_of_run⟩, ?_, ?_⟩
  · exact hmerged.filter_eq fun old new both h => (coalesced_keeps h).1
  · exact hmerged.transitions_eq fun old new both h => (coalesced_keeps h).2

end Hoist
