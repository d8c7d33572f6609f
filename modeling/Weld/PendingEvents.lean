/-
**Pending client events.**

A consumer that paces itself keeps only the latest commit and the latest metadata of a surface
between the records whose order matters.  Roles, interactions, state requests and destructions are
such records: they are queued in order and never merged.  `weld-client` decides where an event goes
in `pending_order.rs` and puts it there in `pending.rs`.

Main definitions: `PendingClientEvents`, `Insertion`, `plan`, `PendingClientEvents.isControl`.
-/

import Weld.ClientSurface

namespace Client

/-! ### Where an event goes -/

/-- The three ways an event is queued. -/
inductive PendingKind
  | commit (mapped : Bool)
  | metadata
  | control
  deriving DecidableEq, Repr

def PendingKind.ofEvent (event : ClientSurfaceEvent) : PendingKind :=
  match event.kind with
  | .commit state => .commit state.mapped
  | .metadata _ => .metadata
  | _ => .control

/-- A queued event; a barrier is a commit that later commits of other surfaces may not pass. -/
structure PendingEvent (Scope : Type) where
  scope : Scope
  event : ClientSurfaceEvent
  barrier : Bool

inductive PendingEventUpdate
  | queued | commitCoalesced | metadataReplaced
  deriving DecidableEq, Repr

structure Insertion where
  replacement : Option ℕ := none
  barrier : Bool := false
  deriving DecidableEq, Repr

variable {Scope : Type} [DecidableEq Scope]

/-- Where a commit goes; the records come with their index, the latest first. -/
def planCommit (scope : Scope) (surface : ClientSurfaceId) (mapped : Bool) :
    List (PendingEvent Scope × ℕ) → Insertion
  | [] => ⟨none, !mapped⟩
  | (record, index) :: earlier =>
      match PendingKind.ofEvent record.event with
      | .metadata => planCommit scope surface mapped earlier
      | .commit previous =>
          if record.event.surface = surface then
            let compatible := decide (record.scope = scope) && previous == mapped
            ⟨if compatible then some index else none, !compatible || record.barrier⟩
          else if record.barrier then ⟨none, !mapped⟩
          else planCommit scope surface mapped earlier
      | .control => ⟨none, !mapped⟩

/-- Where metadata goes. -/
def planMetadata (scope : Scope) (surface : ClientSurfaceId) :
    List (PendingEvent Scope × ℕ) → Insertion
  | [] => {}
  | (record, index) :: earlier =>
      if record.scope = scope ∧ record.event.surface = surface ∧
          PendingKind.ofEvent record.event = .metadata then ⟨some index, false⟩
      else if record.barrier = true ∨ PendingKind.ofEvent record.event = .control then {}
      else planMetadata scope surface earlier

def plan (scope : Scope) (event : ClientSurfaceEvent) (records : List (PendingEvent Scope)) :
    Insertion :=
  match PendingKind.ofEvent event with
  | .commit mapped => planCommit scope event.surface mapped records.zipIdx.reverse
  | .metadata => planMetadata scope event.surface records.zipIdx.reverse
  | .control => {}

/-! ### The queue -/

structure PendingClientEvents (Scope : Type) where
  events : List (PendingEvent Scope) := []

namespace PendingClientEvents

/-- A commit takes over the buffers of the commit it replaces. -/
def carry (event previous : ClientSurfaceEvent) : ClientSurfaceEvent :=
  match event.kind, previous.kind with
  | .commit current, .commit old =>
      { event with kind := .commit (current.carryUnobservedContentFrom old) }
  | _, _ => event

def isCommit (event : ClientSurfaceEvent) : Bool :=
  match event.kind with
  | .commit _ => true
  | _ => false

variable (q : PendingClientEvents Scope)

/-- A replaced barrier commit keeps its place; anything else that is replaced moves to the end. -/
def insert (scope : Scope) (event : ClientSurfaceEvent)
    (insertion : Insertion) : PendingClientEvents Scope :=
  match insertion.replacement.bind fun index => q.events[index]?.map (index, ·) with
  | some (index, previous) =>
      if previous.barrier && isCommit event && isCommit previous.event then
        ⟨q.events.set index ⟨scope, carry event previous.event, previous.barrier⟩⟩
      else
        ⟨q.events.eraseIdx index ++ [⟨scope, carry event previous.event, insertion.barrier⟩]⟩
  | none => ⟨q.events ++ [⟨scope, event, insertion.barrier⟩]⟩

def push (scope : Scope) (event : ClientSurfaceEvent) : PendingClientEvents Scope :=
  q.insert scope event (plan scope event q.events)

/-- What an insertion did, as its caller is told. -/
def update (event : ClientSurfaceEvent) (insertion : Insertion) : PendingEventUpdate :=
  match insertion.replacement.bind fun index => q.events[index]? with
  | some previous =>
      if isCommit event && isCommit previous.event then .commitCoalesced else .metadataReplaced
  | none => .queued

/-- A push that respects the caller's limit; what is replaced is accepted at any length. -/
def tryPush (scope : Scope) (event : ClientSurfaceEvent)
    (limit : ℕ) :
    PendingClientEvents Scope × Except (Scope × ClientSurfaceEvent) PendingEventUpdate :=
  let insertion := plan scope event q.events
  if insertion.replacement.isNone && decide (limit ≤ q.events.length) then (q, .error (scope, event))
  else (q.insert scope event insertion, .ok (q.update event insertion))

omit [DecidableEq Scope] in
/-- The records that are queued. -/
def records : List (Scope × ClientSurfaceEvent) :=
  q.events.map fun pending => (pending.scope, pending.event)

def front : Option (Scope × ClientSurfaceEvent) := q.records.head?

def popFront : PendingClientEvents Scope × Option ClientSurfaceEvent :=
  match q.events with
  | [] => (q, none)
  | record :: events => (⟨events⟩, some record.event)

/-! ### What is never merged -/

def isControl (event : ClientSurfaceEvent) : Bool :=
  decide (PendingKind.ofEvent event = .control)

@[simp] theorem isControl_carry (event previous : ClientSurfaceEvent) :
    isControl (carry event previous) = isControl event := by
  unfold carry
  split
  · rename_i h _
    simp [isControl, PendingKind.ofEvent, h]
  · rfl

end PendingClientEvents

end Client
