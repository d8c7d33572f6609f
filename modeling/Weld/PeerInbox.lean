/-
**The inbox of a peer.**

Three readers put what the network delivers in three bounded queues: control, audio and media.  A
reader has a permit for a record before it reads it, and the record keeps the permit until it is
drained.  The compositor drains the queues in turn, one after the other and each under its own lock, so
readers and failures come in between.

A queue that has failed still gives what it holds.  Only when it is empty does draining it fail, and
with it the whole call.

Main definitions: `IncomingQueue`, `Peer`, `step`.

Main results:

* `takeFitting_append` — what is drained and what is left is what there was.
-/

import Mathlib.Data.List.Basic

namespace PeerInbox

/-! ### Queues -/

structure IncomingQueue (α : Type) where
  available : Bool := true
  /-- Permits are given out no more. -/
  closed : Bool := false
  free : ℕ
  records : List α := []
  /-- Permits of readers that have nothing to send yet. -/
  reserved : ℕ := 0
  deriving DecidableEq, Repr

inductive Admission
  | granted
  | parked
  | unavailable
  deriving DecidableEq, Repr

/-- The records at the front that fit, as far as the room goes. -/
def takeFitting {α σ : Type} (fits : σ → α → Option σ) : ℕ → σ → List α → List α × List α
  | 0, _, records => ([], records)
  | _ + 1, _, [] => ([], [])
  | limit + 1, room, record :: records =>
      match fits room record with
      | none => ([], record :: records)
      | some room =>
          let (taken, left) := takeFitting fits limit room records
          (record :: taken, left)

theorem takeFitting_append {α σ : Type} (fits : σ → α → Option σ) (limit : ℕ) (room : σ)
    (records : List α) :
    (takeFitting fits limit room records).1 ++ (takeFitting fits limit room records).2 =
      records := by
  induction limit generalizing room records with
  | zero => rfl
  | succ limit ih =>
      cases records with
      | nil => rfl
      | cons record records =>
          unfold takeFitting
          cases fits room record with
          | none => rfl
          | some room =>
              have h := ih room records
              simp only [List.cons_append, h]

namespace IncomingQueue

variable {α σ : Type} (q : IncomingQueue α)

def withCapacity (α : Type) (capacity : ℕ) : IncomingQueue α := { free := capacity }

/-- A reader that gets no permit is parked and asks again. -/
def reserve : IncomingQueue α × Admission :=
  if q.closed then (q, .unavailable)
  else if q.free = 0 then (q, .parked)
  else ({ q with free := q.free - 1, reserved := q.reserved + 1 }, .granted)

/-- A reader goes away with its permit. -/
def cancel : IncomingQueue α :=
  if q.reserved = 0 then q else { q with free := q.free + 1, reserved := q.reserved - 1 }

/-- Whether the record is admitted is the last component.  If not, its permit is free again. -/
def send (record : α) : IncomingQueue α × Bool :=
  if q.reserved = 0 then (q, false)
  else if q.available then
    ({ q with reserved := q.reserved - 1, records := q.records ++ [record] }, true)
  else (q.cancel, false)

/-- Draining fails on a queue that has failed and is empty. -/
def refuses : Bool := q.records.isEmpty && !q.available

def drainMatching (limit : ℕ) (fits : σ → α → Option σ) (room : σ) :
    Option (List α × IncomingQueue α) :=
  if q.refuses then none
  else
    let (taken, left) := takeFitting fits limit room q.records
    some (taken, { q with records := left, free := q.free + taken.length })

/-- Whether a wake-up is issued. -/
def wakeIf (fits : α → Bool) : Bool := q.records.head?.any fits

/-- The first half of failing: nothing is admitted from here on. -/
def fail : IncomingQueue α := { q with available := false }

/-- The second half: whoever waits for a permit is told. -/
def close : IncomingQueue α := { q with closed := true }

end IncomingQueue

/-! ### The three queues -/

inductive Lane
  | control
  | audio
  | media
  deriving DecidableEq, Repr

/-- Audio comes in the same envelopes as control. -/
abbrev Record (C M : Type) : Lane → Type
  | .control => C
  | .audio => C
  | .media => M

inductive SourceTransportPacket (C M : Type)
  | control (record : C)
  | media (record : M)
  deriving DecidableEq, Repr

structure ReceiveBudget where
  controlRecords : ℕ
  mediaRecords : ℕ
  mediaBytes : ℕ
  deriving DecidableEq, Repr

def queueCapacity : ℕ := 256

def capacity : Lane → ℕ
  | .control => queueCapacity
  | .audio => 64
  | .media => 2

/-- The queue that is drained after this one. -/
def Lane.next : Lane → Option Lane
  | .control => some .audio
  | .audio => some .media
  | .media => none

section

variable {C M : Type}

/-- How many records of a queue a drain takes at most. -/
def ReceiveBudget.limit (budget : ReceiveBudget) : Lane → ℕ
  | .control => budget.controlRecords
  | .audio => 64
  | .media => budget.mediaRecords

/-- Media count for their bytes. -/
def fits (payload : M → ℕ) : (lane : Lane) → ℕ → Record C M lane → Option ℕ
  | .control, room, _ => some room
  | .audio, room, _ => some room
  | .media, room, packet => if room < payload packet then none else some (room - payload packet)

/-- Whether the first record of a queue can be taken. -/
def wakes (payload : M → ℕ) (budget : ReceiveBudget) : (lane : Lane) → Record C M lane → Bool
  | .control, _ => 0 < budget.controlRecords
  | .audio, _ => true
  | .media, packet => 0 < budget.mediaRecords && payload packet ≤ budget.mediaBytes

/-- What was taken from each queue. -/
abbrev Batch (C M : Type) := (lane : Lane) → List (Record C M lane)

/-- What a drain returns. -/
def Batch.packets (batch : Batch C M) : List (SourceTransportPacket C M) :=
  (batch .control).map .control ++ (batch .audio).map .control ++ (batch .media).map .media

/-- A call of `drain` that has not returned. -/
structure Call (C M : Type) where
  budget : ReceiveBudget
  /-- The queue whose turn it is. -/
  lane : Lane := .control
  hand : Batch C M := fun _ => []

structure Peer (C M : Type) where
  queues : (lane : Lane) → IncomingQueue (Record C M lane) :=
    fun lane => .withCapacity _ (capacity lane)
  call : Option (Call C M) := none
  /-- The readers that have sent a record and have not woken anybody yet. -/
  owed : ℕ := 0
  /-- A wake-up was issued since the last drain began. -/
  woken : Bool := false
  /-- The budget that `wakeIfReadable` saw last, since then. -/
  offered : Option ReceiveBudget := none
  /-- All records that were admitted. -/
  admitted : Batch C M := fun _ => []
  /-- What the drains have returned, one by one. -/
  returned : List (Batch C M) := []
  /-- For each drain that has failed, the records admitted until then that none had returned. -/
  refused : List (Batch C M) := []

namespace Peer

variable (payload : M → ℕ) (s : Peer C M)

def setQueue (lane : Lane) (q : IncomingQueue (Record C M lane)) : Peer C M :=
  { s with queues := Function.update s.queues lane q }

/-- What a call has in its hands. -/
def hand : Batch C M := fun lane =>
  match s.call with
  | none => []
  | some call => call.hand lane

/-- A reader sends a record.  It wakes the compositor afterwards. -/
def send (lane : Lane) (record : Record C M lane) : Peer C M :=
  if ((s.queues lane).send record).2 then
    { s.setQueue lane ((s.queues lane).send record).1 with
      owed := s.owed + 1
      admitted := Function.update s.admitted lane (s.admitted lane ++ [record]) }
  else s.setQueue lane ((s.queues lane).send record).1

def notify : Peer C M := if s.owed = 0 then s else { s with owed := s.owed - 1, woken := true }

/-- A failing queue wakes the compositor. -/
def close (lane : Lane) : Peer C M := { s.setQueue lane (s.queues lane).close with woken := true }

def beginDrain (budget : ReceiveBudget) : Peer C M :=
  if s.call.isSome then s else { s with call := some { budget }, woken := false, offered := none }

/-- Drain the queue whose turn it is.  If that fails, the call fails with what it has. -/
def drainLane : Peer C M :=
  match s.call with
  | none => s
  | some call =>
      match (s.queues call.lane).drainMatching (call.budget.limit call.lane)
          (fits payload call.lane) call.budget.mediaBytes with
      | none =>
          { s with
            call := none
            refused := s.refused ++ [fun lane => call.hand lane ++ (s.queues lane).records] }
      | some (taken, q) =>
          let hand := Function.update call.hand call.lane taken
          match call.lane.next with
          | some lane => { s.setQueue call.lane q with call := some { call with lane, hand } }
          | none => { s.setQueue call.lane q with call := none, returned := s.returned ++ [hand] }

/-- The first record of some queue can be taken. -/
def readable (budget : ReceiveBudget) : Bool :=
  (s.queues .audio).wakeIf (wakes payload budget .audio) ||
    (s.queues .control).wakeIf (wakes payload budget .control) ||
    (s.queues .media).wakeIf (wakes payload budget .media)

/-- A wake-up is issued if something can be taken, whatever becomes of it. -/
def wakeIfReadable (budget : ReceiveBudget) : Peer C M :=
  if s.call.isSome then s
  else { s with offered := some budget, woken := s.woken || s.readable payload budget }

end Peer

/-! ### All steps -/

/-- The queues fail one by one and in any order, as the connection does. -/
inductive Label (C M : Type)
  | reserve (lane : Lane)
  | cancel (lane : Lane)
  | send (lane : Lane) (record : Record C M lane)
  | notify
  | fail (lane : Lane)
  | close (lane : Lane)
  | beginDrain (budget : ReceiveBudget)
  | drainLane
  | wakeIfReadable (budget : ReceiveBudget)

def step (payload : M → ℕ) (s : Peer C M) : Label C M → Peer C M
  | .reserve lane => s.setQueue lane (s.queues lane).reserve.1
  | .cancel lane => s.setQueue lane (s.queues lane).cancel
  | .send lane record => s.send lane record
  | .notify => s.notify
  | .fail lane => s.setQueue lane (s.queues lane).fail
  | .close lane => s.close lane
  | .beginDrain budget => s.beginDrain budget
  | .drainLane => s.drainLane payload
  | .wakeIfReadable budget => s.wakeIfReadable payload budget

end

end PeerInbox
