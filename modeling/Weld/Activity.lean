/-
**Attention within one encoded connection.**

`activity.rs` of `weld-hoist-encoded` groups the surfaces of a connection — a toplevel with its
popups is one group — and summarises what the relay's traffic says about each group: is it focused,
was it typed into, does the pointer move over it.  Everything that divides work or bits between
windows divides it between groups, by the priority of each.

What is left out of the attention of a surface is what only the classification of single input
events reads: pointer position, layer, pressed buttons and the resizing flag.

Main definitions: `Activity`, `Activity.group`, `Activity.snapshot`, `GroupAttention.priority`,
`SchedulingPolicy`.

Main results:

* `Activity.lookup_groups_snapshot` — a snapshot lists the group of every surface;
* `Activity.group_isSome` — the surfaces that have a group are the registered ones.
-/

import Weld.BoundedWalk
import Weld.Dict
import Weld.HoistMessages

namespace Encoded

open Client Gamepad Hoist

abbrev Duration := ℕ

/-! ### Priorities -/

inductive Priority
  | background | focused | moving | interactive
  deriving DecidableEq, Repr

def Priority.index : Priority → ℕ
  | background => 0
  | focused => 1
  | moving => 2
  | interactive => 3

/-- Scheduling preferences, with durations in nanoseconds; a weight of zero counts as one. -/
structure SchedulingPolicy where
  interactionGrace : Duration := 750000000
  motionGrace : Duration := 150000000
  motionDwell : Duration := 75000000
  starvationAge : Duration := 100000000
  weights : Priority → UInt16 := fun priority =>
    match priority with
    | .background => 1
    | .focused => 2
    | .moving => 4
    | .interactive => 8

/-- A group of surfaces: a session and the root surface of the group. -/
structure Group where
  session : HoistSessionId
  root : ClientSurfaceId
  deriving DecidableEq, Repr

/-- What is known of a group. -/
structure GroupAttention where
  focused : Bool := false
  interaction : Option Instant := none
  sustainedMotion : Option Instant := none
  motion : Option Instant := none
  qualityMotion : Option Instant := none
  deriving DecidableEq, Repr

/-- Less than `grace` has passed. -/
def fresh (now : Instant) (last : Option Instant) (grace : Duration) : Bool :=
  last.any fun last => decide (now - last < grace)

def GroupAttention.priority (a : GroupAttention) (now : Instant)
    (interactionGrace motionGrace : Duration) : Priority :=
  if fresh now a.interaction interactionGrace || fresh now a.sustainedMotion motionGrace then
    .interactive
  else if fresh now a.motion motionGrace then .moving
  else if a.focused then .focused
  else .background

/-! ### Surfaces -/

structure Attention where
  interaction : Option Instant := none
  motionStart : Option Instant := none
  motionLast : Option Instant := none
  qualityMotion : Option Instant := none
  deriving DecidableEq, Repr

/-- The attention of a group with one more mapped surface. -/
def GroupAttention.observe (summary : GroupAttention) (policy : SchedulingPolicy) (focused : Bool)
    (attention : Attention) : GroupAttention :=
  let sustained :=
    match attention.motionStart, attention.motionLast with
    | some start, some last => decide (policy.motionDwell ≤ last - start)
    | _, _ => false
  { focused := summary.focused || focused
    interaction := max summary.interaction attention.interaction
    qualityMotion := max summary.qualityMotion attention.qualityMotion
    sustainedMotion :=
      if sustained then max summary.sustainedMotion attention.motionLast
      else summary.sustainedMotion
    motion := if sustained then summary.motion else max summary.motion attention.motionLast }

structure ActivitySurface where
  session : HoistSessionId
  owner : Option ClientSurfaceId := none
  mapped : Bool := false
  attention : Attention := {}
  deriving DecidableEq, Repr

structure Activity where
  surfaces : Dict ClientSurfaceId ActivitySurface := ∅
  focus : Option ClientSurfaceId := none

/-- Reusable observations of the groups. -/
structure ActivitySnapshot where
  groups : Dict ClientSurfaceId Group := ∅
  attention : Dict Group GroupAttention := ∅

namespace Activity

variable (a : Activity)

/-- A surface without an owner, of the session asked about. -/
def isRoot (session : HoistSessionId) (surface : ClientSurfaceId) : Bool :=
  (a.surfaces.lookup surface).any fun entry => entry.session == session && entry.owner.isNone

/-- The owner of a surface of the session asked about. -/
def ownerOf (session : HoistSessionId) (surface : ClientSurfaceId) : Option ClientSurfaceId :=
  ((a.surfaces.lookup surface).filter fun entry => entry.session == session).bind (·.owner)

variable (surface : ClientSurfaceId)

/-- The group of a surface.  A malformed or cyclic chain of owners, or one that leaves the session,
makes the surface a group of its own. -/
def group : Option Group :=
  (a.surfaces.lookup surface).map fun entry =>
    ⟨entry.session,
      (BoundedWalk.walk (a.isRoot entry.session) (a.ownerOf entry.session) a.surfaces.size
        surface).getD surface⟩

/-! ### What changes attention -/

/-- Change the attention of the surfaces that satisfy `p`. -/
def attend (p : ClientSurfaceId → Bool) (f : Attention → Attention) : Activity :=
  { a with
    surfaces := a.surfaces.mapValues fun surface entry =>
      if p surface then { entry with attention := f entry.attention } else entry }

def resetGroupMotion (group : Option Group) : Activity :=
  match group with
  | none => a
  | some group =>
      a.attend (fun surface => decide (a.group surface = some group)) fun attention =>
        { attention with motionStart := none, motionLast := none }

def clearFocus : Activity :=
  ({ a with focus := none } : Activity).resetGroupMotion (a.focus.bind a.group)

/-- The surface is the root of the group of another. -/
def isRootOf (root surface : ClientSurfaceId) : Bool :=
  (a.group surface).any fun group => group.root == root

def clearSurfaceAttention : Activity :=
  let cleared :=
    if a.focus = some surface ∨ a.focus.any (a.isRootOf surface) = true then a.clearFocus else a
  cleared.attend (fun member => member == surface || cleared.isRootOf surface member) fun _ => {}

/-! ### What changes the surfaces -/

def remove : Activity :=
  let cleared := a.clearSurfaceAttention surface
  { cleared with surfaces := cleared.surfaces.erase surface }

def register (session : HoistSessionId) (surface : ClientSurfaceId) : Activity :=
  if (a.surfaces.lookup surface).any fun entry => entry.session == session then a
  else
    let removed := a.remove surface
    { removed with surfaces := removed.surfaces.insert surface { session := session } }

def role (role : ClientSurfaceRole) : Activity :=
  { a with
    surfaces := a.surfaces.modify surface fun entry =>
      if entry.owner = role.popupOwner then entry
      else { entry with attention := {}, owner := role.popupOwner } }

def mapped (mapped : Bool) : Activity :=
  let cleared := if mapped then a else a.clearSurfaceAttention surface
  { cleared with
    surfaces := cleared.surfaces.modify surface fun entry => { entry with mapped := mapped } }

/-! ### Snapshots -/

/-- Count a surface towards the attention of its group, if it is mapped. -/
def summarize (policy : SchedulingPolicy) (attention : Dict Group GroupAttention)
    (surface : ClientSurfaceId) : Dict Group GroupAttention :=
  match a.group surface, a.surfaces.lookup surface with
  | some group, some entry =>
      if entry.mapped then
        attention.insert group
          (GroupAttention.observe ((attention.lookup group).getD {}) policy
            (decide (a.focus.bind a.group = some group)) entry.attention)
      else attention
  | _, _ => attention

/-- The summaries are maxima and disjunctions, so the order of the surfaces is of no account. -/
def snapshot (policy : SchedulingPolicy) : ActivitySnapshot where
  groups := a.surfaces.keys.foldl (fun groups surface =>
      match a.group surface with
      | some group => groups.insert surface group
      | none => groups) ∅
  attention := a.surfaces.keys.foldl (a.summarize policy) ∅

/-! ### What a snapshot lists -/

/-- **The surfaces that have a group are the registered ones.** -/
theorem group_isSome : (a.group surface).isSome = true ↔ surface ∈ a.surfaces := by
  rw [group, Option.isSome_map, AList.lookup_isSome]

/-- **A snapshot lists the group of every surface.** -/
theorem lookup_groups_snapshot (policy : SchedulingPolicy)
    (surface : ClientSurfaceId) :
    (a.snapshot policy).groups.lookup surface = a.group surface := by
  have hfold : ∀ (keys : List ClientSurfaceId) (groups : Dict ClientSurfaceId Group),
      (keys.foldl (fun groups surface =>
        match a.group surface with
        | some group => groups.insert surface group
        | none => groups) groups).lookup surface =
        if surface ∈ keys then (a.group surface).or (groups.lookup surface)
        else groups.lookup surface := by
    intro keys
    induction keys with
    | nil => simp
    | cons key keys ih =>
        intro groups
        rw [List.foldl_cons, ih]
        by_cases hkey : surface = key
        · subst hkey
          cases a.group surface <;> simp
        · cases hgroup : a.group key <;> simp [hkey]
  rw [snapshot, hfold]
  by_cases hmem : surface ∈ a.surfaces.keys
  · rw [if_pos hmem]
    simp
  · have hnone : a.group surface = none := by
      rw [← Option.not_isSome_iff_eq_none, group_isSome, AList.mem_keys]
      exact hmem
    simp [hmem, hnone]

/-! ### Who is registered -/

@[simp] theorem keys_attend (p : ClientSurfaceId → Bool) (f : Attention → Attention) :
    (a.attend p f).surfaces.keys = a.surfaces.keys :=
  AList.keys_mapValues _ _

@[simp] theorem keys_clearFocus : a.clearFocus.surfaces.keys = a.surfaces.keys := by
  unfold clearFocus resetGroupMotion
  split
  · rfl
  · exact keys_attend _ _ _

@[simp] theorem keys_clearSurfaceAttention :
    (a.clearSurfaceAttention surface).surfaces.keys = a.surfaces.keys := by
  unfold clearSurfaceAttention
  split_ifs <;> simp

theorem mem_remove {a : Activity} {surface other : ClientSurfaceId} :
    other ∈ (a.remove surface).surfaces ↔ other ≠ surface ∧ other ∈ a.surfaces := by
  rw [remove, AList.mem_erase, AList.mem_keys, keys_clearSurfaceAttention, ← AList.mem_keys]

theorem mem_register {a : Activity} {session : HoistSessionId} {surface other : ClientSurfaceId} :
    other ∈ (a.register session surface).surfaces ↔ other = surface ∨ other ∈ a.surfaces := by
  unfold register
  split_ifs with hsame
  · refine ⟨Or.inr, fun h => h.elim (fun heq => ?_) id⟩
    subst heq
    cases hentry : a.surfaces.lookup other with
    | none => simp [hentry] at hsame
    | some entry => exact AList.mem_of_lookup hentry
  · rw [AList.mem_insert, mem_remove]
    by_cases h : other = surface <;> simp [h]

@[simp] theorem keys_role (role : ClientSurfaceRole) :
    (a.role surface role).surfaces.keys = a.surfaces.keys :=
  AList.keys_modify _ _ _

@[simp] theorem keys_mapped (mapped : Bool) :
    (a.mapped surface mapped).surfaces.keys = a.surfaces.keys := by
  unfold Activity.mapped
  cases mapped <;> simp

end Activity

end Encoded
