/-
**Weighted admission between presentation groups.**

`scheduling.rs` of `weld-hoist-encoded` decides whose work goes next.  Every group owes for the work
it was given, at a price that falls with the weight of its priority, and the group that would owe
least is chosen; a group that has waited too long goes first all the same.  Selecting spends
nothing: only an accepted selection is paid for.  The counters that only the log reads are left out.

Main definitions: `Scheduler`, `Selection`.

Main results:

* `Scheduler.lookup_admitted` — what a selection does to the groups;
* `Scheduler.select_spec` — what it chooses;
* `Scheduler.floor_le` — what is forgiven to all groups is owed by each.
-/

import Mathlib.Data.List.MinMax
import Mathlib.Data.Prod.Lex
import Weld.Activity

namespace Encoded

open Client Gamepad Hoist

/-! ### The state -/

/-- What a group owes, since when it waits, and the priority it was last seen with. -/
structure Service where
  finish : ℕ
  waiting : Option Instant := none
  priority : Option Priority := none
  deriving DecidableEq, Repr

structure Selection where
  surface : ClientSurfaceId
  group : Group
  finish : ℕ
  priority : Priority
  aged : Bool
  deriving DecidableEq, Repr

structure Scheduler where
  groups : Dict Group Service := ∅

/-- What one service costs at a priority. -/
def SchedulingPolicy.cost (policy : SchedulingPolicy) (priority : Priority) : ℕ :=
  65536 / max (policy.weights priority).toNat 1

/-- The priority a snapshot gives a group. -/
def ActivitySnapshot.priorityOf (snapshot : ActivitySnapshot) (policy : SchedulingPolicy)
    (now : Instant) (group : Group) : Priority :=
  ((snapshot.attention.lookup group).getD {}).priority now policy.interactionGrace
    policy.motionGrace

/-- Addition of 64-bit numbers that stops at the largest. -/
def saturatingAdd (a b : ℕ) : ℕ := min (a + b) (2 ^ 64 - 1)

namespace Scheduler

/-- The least debt of any group, zero if there is none. -/
def floor (groups : Dict Group Service) : ℕ :=
  (groups.entries.map fun entry => entry.2.finish).min?.getD 0

/-! ### Selecting -/

/-- Some candidate of the group is not excluded. -/
def available (snapshot : ActivitySnapshot) (candidates excluded : List ClientSurfaceId)
    (group : Group) : Bool :=
  candidates.any fun candidate =>
    decide (candidate ∉ excluded) && decide (snapshot.groups.lookup candidate = some group)

/-- The service of a group as a selection sees it.  A group whose priority rises starts anew from
the floor; one that is excluded for now keeps its debt but does not age. -/
def refresh (floor : ℕ) (available : Bool) (now : Instant) (priority : Priority)
    (entry : Service) : Service where
  finish :=
    if entry.priority.all fun previous => decide (previous.index < priority.index) then floor
    else entry.finish
  waiting := if available then some (entry.waiting.getD now) else none
  priority := some priority

/-- Look at the group of one candidate. -/
def visit (snapshot : ActivitySnapshot) (candidates excluded : List ClientSurfaceId)
    (policy : SchedulingPolicy) (now : Instant) (floor : ℕ) (groups : Dict Group Service)
    (surface : ClientSurfaceId) : Dict Group Service :=
  match snapshot.groups.lookup surface with
  | none => groups
  | some group =>
      groups.insert group
        (refresh floor (available snapshot candidates excluded group) now
          (snapshot.priorityOf policy now group) ((groups.lookup group).getD ⟨floor, none, none⟩))

/-- What choosing a surface would mean, and since when its group waits if that is too long. -/
def offer (snapshot : ActivitySnapshot) (excluded : List ClientSurfaceId)
    (policy : SchedulingPolicy) (now : Instant) (groups : Dict Group Service)
    (surface : ClientSurfaceId) : Option (Selection × Option Instant) :=
  if surface ∈ excluded then none
  else
    (snapshot.groups.lookup surface).bind fun group =>
      (groups.lookup group).map fun service =>
        let priority := service.priority.getD .background
        let agedAt := service.waiting.filter fun since => decide (policy.starvationAge ≤ now - since)
        (⟨surface, group, saturatingAdd service.finish (policy.cost priority), priority,
          agedAt.isSome⟩, agedAt)

/-- The group that has waited too long goes first, of two the one that has waited longer; otherwise
the one that will owe less. -/
def better (new old : Selection × Option Instant) : Bool :=
  match new.2, old.2 with
  | some since, some before => decide (since < before)
  | some _, none => true
  | none, some _ => false
  | none, none => decide (new.1.finish < old.1.finish)

def consider (best : Option (Selection × Option Instant)) (new : Selection × Option Instant) :
    Option (Selection × Option Instant) :=
  match best with
  | none => some new
  | some old => if better new old then some new else some old

/-- The groups as a selection leaves them: those without a candidate are forgotten. -/
def admitted (s : Scheduler) (snapshot : ActivitySnapshot)
    (candidates excluded : List ClientSurfaceId) (policy : SchedulingPolicy) (now : Instant) :
    Dict Group Service :=
  let retained := s.groups.retain fun group _ =>
    candidates.any fun surface => decide (snapshot.groups.lookup surface = some group)
  candidates.foldl (visit snapshot candidates excluded policy now (floor retained)) retained

/-- Candidates come one for each surface, in stable rotation order.  Exclusions are for this attempt
only. -/
def select (s : Scheduler) (candidates excluded : List ClientSurfaceId) (activity : Activity)
    (policy : SchedulingPolicy) (now : Instant) : Scheduler × Option Selection :=
  let snapshot := activity.snapshot policy
  let groups := s.admitted snapshot candidates excluded policy now
  (⟨groups⟩,
    ((candidates.filterMap (offer snapshot excluded policy now groups)).foldl consider none).map
      (·.1))

/-! ### Paying -/

/-- The selected group owes for the selection and waits from now on. -/
def charge (s : Scheduler) (selection : Selection) (now : Instant) : Dict Group Service :=
  s.groups.modify selection.group fun service =>
    { service with finish := selection.finish, waiting := some now }

/-- What all groups owe is forgiven. -/
def accepted (s : Scheduler) (selection : Selection) (now : Instant) : Scheduler :=
  let charged := s.charge selection now
  ⟨charged.mapValues fun _ service => { service with finish := service.finish - floor charged }⟩

def forget (s : Scheduler) (activity : Activity) (surface : ClientSurfaceId) : Scheduler :=
  match activity.group surface with
  | some group => if group.root = surface then ⟨s.groups.erase group⟩ else s
  | none => s

/-! ### The floor -/

variable {groups : Dict Group Service} {group : Group} {activity : Activity}

/-- **What is forgiven to all groups is owed by each.** -/
theorem floor_le {service : Service}
    (h : groups.lookup group = some service) : floor groups ≤ service.finish := by
  have hmem : service.finish ∈ groups.entries.map fun entry => entry.2.finish :=
    List.mem_map.mpr ⟨⟨group, service⟩, AList.mem_entries_iff.mpr h, rfl⟩
  cases hmin : (groups.entries.map fun entry => entry.2.finish).min? with
  | none =>
      rw [List.min?_eq_none_iff] at hmin
      rw [hmin] at hmem
      simp at hmem
  | some least =>
      rw [floor, hmin]
      exact (List.min?_eq_some_iff.mp hmin).2 _ hmem

/-- Some group owes no more than the floor. -/
theorem exists_floor (h : group ∈ groups) :
    ∃ g service, groups.lookup g = some service ∧ service.finish = floor groups := by
  obtain ⟨service, hservice⟩ := AList.exists_lookup h
  have hmem : service.finish ∈ groups.entries.map fun entry => entry.2.finish :=
    List.mem_map.mpr ⟨⟨group, service⟩, AList.mem_entries_iff.mpr hservice, rfl⟩
  cases hmin : (groups.entries.map fun entry => entry.2.finish).min? with
  | none =>
      rw [List.min?_eq_none_iff] at hmin
      rw [hmin] at hmem
      simp at hmem
  | some least =>
      obtain ⟨⟨g, found⟩, hentry, hfinish⟩ := List.mem_map.mp (List.min?_eq_some_iff.mp hmin).1
      refine ⟨g, found, AList.mem_entries_iff.mp hentry, ?_⟩
      rw [floor, hmin]
      exact hfinish

/-! ### What a selection does to the groups -/

/-- Looking at a group twice is looking at it once. -/
@[simp] theorem refresh_refresh (least : ℕ) (available : Bool) (now : Instant)
    (priority : Priority) (entry : Service) :
    refresh least available now priority (refresh least available now priority entry) =
      refresh least available now priority entry := by
  cases available <;> simp [refresh]

section Select

variable {snapshot : ActivitySnapshot} {candidates excluded : List ClientSurfaceId}
  {policy : SchedulingPolicy} {now : Instant}

/-- The groups after some of the candidates have been looked at. -/
theorem lookup_foldl_visit (least : ℕ) (seen : List ClientSurfaceId)
    (groups : Dict Group Service) (group : Group) :
    (seen.foldl (visit snapshot candidates excluded policy now least) groups).lookup group =
      if ∃ surface ∈ seen, snapshot.groups.lookup surface = some group then
        some (refresh least (available snapshot candidates excluded group) now
          (snapshot.priorityOf policy now group) ((groups.lookup group).getD ⟨least, none, none⟩))
      else groups.lookup group := by
  induction seen generalizing groups with
  | nil => simp
  | cons surface seen ih =>
      rw [List.foldl_cons, ih]
      simp only [visit, List.mem_cons, exists_eq_or_imp]
      cases hsurface : snapshot.groups.lookup surface with
      | none => simp
      | some other =>
          by_cases hsame : group = other
          · subst hsame
            simp
          · have hne : ¬ some other = some group := fun h => hsame (Option.some.inj h).symm
            simp [hsame, hne]

/-- **What a selection does to the groups.** -/
theorem lookup_admitted (s : Scheduler) (snapshot : ActivitySnapshot)
    (candidates excluded : List ClientSurfaceId) (policy : SchedulingPolicy) (now : Instant)
    (group : Group) :
    (s.admitted snapshot candidates excluded policy now).lookup group =
      if ∃ surface ∈ candidates, snapshot.groups.lookup surface = some group then
        let least := floor (s.groups.retain fun group _ =>
          candidates.any fun surface => decide (snapshot.groups.lookup surface = some group))
        some (refresh least (available snapshot candidates excluded group) now
          (snapshot.priorityOf policy now group) ((s.groups.lookup group).getD ⟨least, none, none⟩))
      else none := by
  rw [admitted, lookup_foldl_visit]
  by_cases hmem : ∃ surface ∈ candidates, snapshot.groups.lookup surface = some group
  · have hany : (candidates.any fun surface =>
        decide (snapshot.groups.lookup surface = some group)) = true := by
      simpa using hmem
    rw [if_pos hmem, if_pos hmem, AList.lookup_retain]
    cases s.groups.lookup group with
    | none => rfl
    | some service => rw [Option.filter_some, if_pos hany]
  · have hany : (candidates.any fun surface =>
        decide (snapshot.groups.lookup surface = some group)) = false := by
      simpa using hmem
    rw [if_neg hmem, if_neg hmem, AList.lookup_retain]
    cases s.groups.lookup group with
    | none => rfl
    | some service => simp [hany]

end Select

/-! ### What a selection chooses -/

/-- Who goes first: the smaller rank. -/
def rank (offered : Selection × Option Instant) : ℕ ×ₗ ℕ :=
  match offered.2 with
  | some since => toLex (0, since)
  | none => toLex (1, offered.1.finish)

theorem better_iff (new old : Selection × Option Instant) :
    better new old = true ↔ rank new < rank old := by
  obtain ⟨new, newAge⟩ := new
  obtain ⟨old, oldAge⟩ := old
  cases newAge <;> cases oldAge <;> simp [better, rank, Prod.Lex.toLex_lt_toLex]

/-- The choice is the first of the candidates with the least rank. -/
theorem foldl_consider (offers : List (Selection × Option Instant)) :
    offers.foldl consider none = offers.argmin rank := by
  have hstep : (fun best new => consider best new) =
      List.argAux fun b c : Selection × Option Instant => rank b < rank c := by
    funext best new
    cases best with
    | none => rfl
    | some old => simp [consider, List.argAux, better_iff]
  rw [List.argmin, ← hstep]

variable {candidates excluded : List ClientSurfaceId}

/-- **What a selection chooses**: one of the offers, and none comes before it. -/
theorem select_spec {s : Scheduler} {policy : SchedulingPolicy} {now : Instant}
    {selection : Selection}
    (h : (s.select candidates excluded activity policy now).2 = some selection) :
    ∃ agedAt, (∃ surface ∈ candidates, offer (activity.snapshot policy) excluded policy now
          (s.select candidates excluded activity policy now).1.groups surface =
            some (selection, agedAt)) ∧
      ∀ surface ∈ candidates, ∀ other,
        offer (activity.snapshot policy) excluded policy now
          (s.select candidates excluded activity policy now).1.groups surface = some other →
            ¬ rank other < rank (selection, agedAt) := by
  obtain ⟨⟨chosen, agedAt⟩, hbest, rfl⟩ := Option.map_eq_some_iff.mp h
  rw [foldl_consider] at hbest
  refine ⟨agedAt, ?_, ?_⟩
  · obtain ⟨surface, hsurface, hoffer⟩ := List.mem_filterMap.mp (List.argmin_mem hbest)
    exact ⟨surface, hsurface, hoffer⟩
  · intro surface hsurface other hoffer
    exact List.not_lt_of_mem_argmin (List.mem_filterMap.mpr ⟨surface, hsurface, hoffer⟩) hbest

/-- Whenever there is an offer, something is chosen. -/
theorem select_isSome (s : Scheduler) (policy : SchedulingPolicy) (now : Instant)
    {surface : ClientSurfaceId} (hmem : surface ∈ candidates) (hfree : surface ∉ excluded)
    (hgroup : (activity.group surface).isSome = true) :
    ((s.select candidates excluded activity policy now).2).isSome = true := by
  obtain ⟨group, hgroup⟩ := Option.isSome_iff_exists.mp hgroup
  rw [← activity.lookup_groups_snapshot policy] at hgroup
  by_contra hnone
  have hempty : ((candidates.filterMap (offer (activity.snapshot policy) excluded policy now
      (s.select candidates excluded activity policy now).1.groups)).foldl consider none) = none := by
    simpa [select] using hnone
  rw [foldl_consider, List.argmin_eq_none, List.filterMap_eq_nil_iff] at hempty
  have hoffer := hempty surface hmem
  rw [offer, if_neg hfree, hgroup, Option.bind_some, Option.map_eq_none_iff, select,
    lookup_admitted, if_pos ⟨surface, hmem, hgroup⟩] at hoffer
  cases hoffer

end Scheduler

end Encoded
