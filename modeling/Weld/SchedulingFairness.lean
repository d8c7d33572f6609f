/-
**Scheduling is fair and starves nobody.**

A run of the scheduler is any sequence of selections, acceptances and forgotten surfaces; an
acceptance is of what the latest selection chose, and of that once.  Two things are promised of every
run.  A group that could have been chosen all along and has waited too long is overtaken by no more
groups than were waiting when it began to.  And where nobody ages and no priority changes, what two
groups have paid stays together, however many surfaces each of them has.

Ties are broken by the order of the candidates: groups that wait since the same moment may go first.
A group without a candidate is forgotten together with what it owed.

Main definitions: `Scheduling`, `SchedulerCall`, `Scheduling.step`, `Scheduling.Waits`,
`Scheduling.PassedOver`, `Scheduler.ahead`, `Scheduling.Steady`.

Main results:

* `Scheduling.overtaken` — **nobody starves**;
* `Scheduling.shares` — **the shares are fair**;
* `Scheduling.scheduling_is_fair` — both, with what a single call does;
* `Scheduling.ties_and_absence` — ties and forgotten debts do occur.
-/

import Mathlib.Data.Finset.Card
import Weld.FairService
import Weld.Scheduling
import Weld.Transition

namespace Encoded

open Client Gamepad Hoist Transition AList

/-! ### Single calls -/

variable {s : Scheduler} {surface : ClientSurfaceId} {selection : Selection} {activity : Activity}
  {excluded : List ClientSurfaceId} {now : Instant}

namespace Scheduler

/-- Since when a group waits. -/
def waitingOf (s : Scheduler) (group : Group) : Option Instant :=
  (s.groups.lookup group).bind (·.waiting)

/-- What a group owes. -/
def debtOf (s : Scheduler) (group : Group) : ℕ := ((s.groups.lookup group).map (·.finish)).getD 0

/-- The groups that stay when only those of the candidates do. -/
def retained (s : Scheduler) (candidates : List ClientSurfaceId) (activity : Activity) :
    Dict Group Service :=
  s.groups.retain fun group _ =>
    candidates.any fun surface => decide (activity.group surface = some group)

/-- The candidates include one of the group that is not excluded. -/
def Offers (candidates excluded : List ClientSurfaceId) (activity : Activity) (group : Group) :
    Prop :=
  ∃ surface ∈ candidates, surface ∉ excluded ∧ activity.group surface = some group

section Select

variable {s : Scheduler} {candidates excluded : List ClientSurfaceId} {activity : Activity}
  {policy : SchedulingPolicy} {now : Instant}

theorem lookup_select (s : Scheduler) (candidates excluded : List ClientSurfaceId)
    (activity : Activity) (policy : SchedulingPolicy) (now : Instant) (group : Group) :
    (s.select candidates excluded activity policy now).1.groups.lookup group =
      if ∃ surface ∈ candidates, activity.group surface = some group then
        some (refresh (floor (s.retained candidates activity))
          (available (activity.snapshot policy) candidates excluded group) now
          ((activity.snapshot policy).priorityOf policy now group)
          ((s.groups.lookup group).getD ⟨floor (s.retained candidates activity), none, none⟩))
      else none := by
  have h := s.lookup_admitted (activity.snapshot policy) candidates excluded policy now group
  simp only [Activity.lookup_groups_snapshot] at h
  exact h

theorem available_iff (policy : SchedulingPolicy) (group : Group) :
    available (activity.snapshot policy) candidates excluded group = true ↔
      Offers candidates excluded activity group := by
  simp [available, Offers, Activity.lookup_groups_snapshot]

/-- What an offer says. -/
theorem offer_spec {groups : Dict Group Service} {offered : Selection × Option Instant}
    (h : offer (activity.snapshot policy) excluded policy now groups surface = some offered) :
    offered.1.surface = surface ∧ surface ∉ excluded ∧
      activity.group surface = some offered.1.group ∧
      ∃ service, groups.lookup offered.1.group = some service ∧
        offered.1.finish =
          saturatingAdd service.finish (policy.cost (service.priority.getD .background)) ∧
        offered.2 = service.waiting.filter fun since =>
          decide (policy.starvationAge ≤ now - since) := by
  unfold offer at h
  split_ifs at h with hexcluded
  obtain ⟨group, hgroup, hservice⟩ := Option.bind_eq_some_iff.mp h
  obtain ⟨service, hlookup, rfl⟩ := Option.map_eq_some_iff.mp hservice
  rw [Activity.lookup_groups_snapshot] at hgroup
  exact ⟨rfl, hexcluded, hgroup, service, hlookup, rfl, rfl⟩

variable {group : Group} {service : Service}

/-- A group with a candidate that is not excluded is offered. -/
theorem offer_of_offers
    (h : Offers candidates excluded activity group)
    (hservice : (s.select candidates excluded activity policy now).1.groups.lookup group =
      some service) :
    ∃ surface ∈ candidates, ∃ offered,
      offer (activity.snapshot policy) excluded policy now
        (s.select candidates excluded activity policy now).1.groups surface = some offered ∧
      offered.1.finish =
        saturatingAdd service.finish (policy.cost (service.priority.getD .background)) ∧
      offered.2 = service.waiting.filter fun since =>
        decide (policy.starvationAge ≤ now - since) := by
  obtain ⟨surface, hmem, hfree, hgroup⟩ := h
  refine ⟨surface, hmem, ?_⟩
  rw [offer, if_neg hfree, Activity.lookup_groups_snapshot, hgroup, Option.bind_some, hservice]
  exact ⟨_, rfl, rfl, rfl⟩

/-- **An excluded surface is never chosen**, and what is chosen is a candidate. -/
theorem select_mem (h : (s.select candidates excluded activity policy now).2 = some selection) :
    selection.surface ∈ candidates ∧ selection.surface ∉ excluded ∧
      activity.group selection.surface = some selection.group := by
  obtain ⟨agedAt, ⟨surface, hmem, hoffer⟩, -⟩ := select_spec h
  obtain ⟨hsurface, hfree, hgroup, -⟩ := offer_spec hoffer
  rw [← hsurface] at hmem hfree hgroup
  exact ⟨hmem, hfree, hgroup⟩

/-- Since when the groups wait after a selection. -/
theorem waitingOf_select (group : Group) :
    (s.select candidates excluded activity policy now).1.waitingOf group =
      if available (activity.snapshot policy) candidates excluded group = true then
        some ((s.waitingOf group).getD now)
      else none := by
  unfold waitingOf
  rw [lookup_select]
  by_cases hmem : ∃ surface ∈ candidates, activity.group surface = some group
  · rw [if_pos hmem]
    cases s.groups.lookup group <;> simp [refresh]
  · have hnot : ¬ available (activity.snapshot policy) candidates excluded group = true := by
      rw [available_iff]
      rintro ⟨surface, hsurface, -, hgroup⟩
      exact hmem ⟨surface, hsurface, hgroup⟩
    rw [if_neg hmem, if_neg hnot]
    rfl

/-- **What a selection does to the debts**: a group without a candidate is forgotten, one that is
new or whose priority rises owes the floor, and all others owe what they owed. -/
theorem debts_select (s : Scheduler) (candidates excluded : List ClientSurfaceId)
    (activity : Activity) (policy : SchedulingPolicy) (now : Instant) (group : Group) :
    ((s.select candidates excluded activity policy now).1.groups.lookup group).map (·.finish) =
      if ∃ surface ∈ candidates, activity.group surface = some group then
        match s.groups.lookup group with
        | none => some (floor (s.retained candidates activity))
        | some before =>
            if (before.priority.all fun previous =>
              decide (previous.index <
                ((activity.snapshot policy).priorityOf policy now group).index)) = true then
              some (floor (s.retained candidates activity))
            else some before.finish
      else none := by
  rw [lookup_select]
  by_cases hmem : ∃ surface ∈ candidates, activity.group surface = some group
  · rw [if_pos hmem, if_pos hmem]
    cases s.groups.lookup group with
    | none => simp [refresh]
    | some before =>
        simp only [Option.getD_some, Option.map_some, refresh]
        split_ifs <;> rfl
  · rw [if_neg hmem, if_neg hmem]
    rfl

/-- Where nobody has waited too long, nobody goes first for it. -/
theorem nobody_ages (hage : 0 < policy.starvationAge)
    (hyoung : ∀ group since, s.waitingOf group = some since → now - since < policy.starvationAge)

    (hservice : (s.select candidates excluded activity policy now).1.groups.lookup group =
      some service) :
    (service.waiting.filter fun since => decide (policy.starvationAge ≤ now - since)) = none := by
  rw [Option.filter_eq_none_iff]
  intro since hsince
  have hwaiting : (s.select candidates excluded activity policy now).1.waitingOf group =
      some since := by
    rw [waitingOf, hservice, Option.bind_some, hsince]
  rw [waitingOf_select] at hwaiting
  split_ifs at hwaiting
  simp only [decide_eq_true_eq, not_le]
  cases hbefore : s.waitingOf group with
  | none =>
      rw [hbefore, Option.getD_none, Option.some_inj] at hwaiting
      rwa [hwaiting, Nat.sub_self]
  | some before =>
      rw [hbefore, Option.getD_some] at hwaiting
      exact hyoung group since (hbefore.trans hwaiting)

/-- A selection sets the priority of every group that has a candidate. -/
theorem priority_select
    (h : (s.select candidates excluded activity policy now).1.groups.lookup group = some service) :
    service.priority = some ((activity.snapshot policy).priorityOf policy now group) := by
  rw [lookup_select] at h
  split_ifs at h with hmem
  cases h
  rfl

/-- What stays is owed by someone who was there. -/
theorem floor_retained_le {bound : ℕ}
    (h : ∀ group service, s.groups.lookup group = some service → service.finish ≤ bound) :
    floor (s.retained candidates activity) ≤ bound := by
  by_cases hempty : ∃ group, group ∈ s.retained candidates activity
  · obtain ⟨group, hgroup⟩ := hempty
    obtain ⟨g, service, hlookup, hfloor⟩ := exists_floor hgroup
    rw [retained, lookup_retain, Option.filter_eq_some_iff] at hlookup
    rw [← hfloor]
    exact h g service hlookup.1
  · have hentries : (s.retained candidates activity).entries = [] := by
      rw [List.eq_nil_iff_forall_not_mem]
      rintro ⟨group, service⟩ hmem
      exact hempty ⟨group, mem_keys.mpr (mem_keys_of_lookup (mem_entries_iff.mp hmem))⟩
    simp [floor, hentries]

end Select

section Accepted

variable (s : Scheduler) (selection : Selection) (now : Instant)

theorem lookup_charge (group : Group) :
    (s.charge selection now).lookup group =
      (s.groups.lookup group).map fun service =>
        if group = selection.group then
          { service with finish := selection.finish, waiting := some now }
        else service := by
  rw [charge, lookup_modify]
  split_ifs
  · rfl
  · cases s.groups.lookup group <;> rfl

theorem lookup_accepted (group : Group) :
    (s.accepted selection now).groups.lookup group =
      ((s.charge selection now).lookup group).map fun service =>
        { service with finish := service.finish - floor (s.charge selection now) } := by
  simp [accepted]

/-- Since when the groups wait after an acceptance. -/
theorem waitingOf_accepted (group : Group) :
    (s.accepted selection now).waitingOf group =
      if group = selection.group ∧ group ∈ s.groups then some now else s.waitingOf group := by
  unfold waitingOf
  rw [lookup_accepted, lookup_charge]
  by_cases hgroup : group ∈ s.groups
  · obtain ⟨service, hservice⟩ := exists_lookup hgroup
    rw [hservice]
    by_cases hsame : group = selection.group
    · rw [if_pos ⟨hsame, hgroup⟩]
      simp [hsame]
    · simp [hsame]
  · rw [lookup_eq_none.mpr hgroup]
    simp [hgroup]

/-- What the selected group owes after an acceptance, and what the others owe. -/
theorem debtOf_accepted {group : Group} (hgroup : group ∈ s.groups) :
    (s.accepted selection now).debtOf group + floor (s.charge selection now) =
      if group = selection.group then selection.finish else s.debtOf group := by
  obtain ⟨service, hservice⟩ := exists_lookup hgroup
  by_cases hsame : group = selection.group
  · have hcharged : (s.charge selection now).lookup group =
        some { service with finish := selection.finish, waiting := some now } := by
      rw [lookup_charge, hservice, Option.map_some, if_pos hsame]
    rw [debtOf, lookup_accepted, hcharged, if_pos hsame]
    exact Nat.sub_add_cancel (floor_le hcharged)
  · have hcharged : (s.charge selection now).lookup group = some service := by
      rw [lookup_charge, hservice, Option.map_some, if_neg hsame]
    rw [debtOf, debtOf, lookup_accepted, hcharged, hservice, if_neg hsame]
    exact Nat.sub_add_cancel (floor_le hcharged)

/-- An acceptance changes no priority, and neither adds nor drops a group. -/
theorem priority_accepted (group : Group) :
    ((s.accepted selection now).groups.lookup group).map (·.priority) =
      (s.groups.lookup group).map (·.priority) := by
  rw [lookup_accepted, lookup_charge]
  cases s.groups.lookup group with
  | none => rfl
  | some service =>
      simp only [Option.map_some]
      split_ifs <;> rfl

/-- After an acceptance some group owes nothing. -/
theorem exists_debtless (hgroup : selection.group ∈ s.groups) :
    ∃ group ∈ s.groups, (s.accepted selection now).debtOf group = 0 := by
  have hcharged : selection.group ∈ s.charge selection now := by
    rw [← lookup_isSome, lookup_charge, Option.isSome_map, lookup_isSome]
    exact hgroup
  obtain ⟨group, service, hlookup, hfloor⟩ := exists_floor hcharged
  refine ⟨group, ?_, ?_⟩
  · have hsome : ((s.groups.lookup group).isSome) = true := by
      have h := congrArg Option.isSome (s.lookup_charge selection now group)
      rw [Option.isSome_map, hlookup] at h
      exact h.symm
    exact lookup_isSome.mp hsome
  · rw [debtOf, lookup_accepted, hlookup]
    simp [hfloor]

end Accepted

/-- The groups, `group` apart, that wait since `since` or longer. -/
def ahead (s : Scheduler) (group : Group) (since : Instant) : Finset Group :=
  s.groups.keys.toFinset.filter fun other =>
    other ≠ group ∧ (s.waitingOf other).any (fun waiting => decide (waiting ≤ since)) = true

variable {since : Instant} {group : Group}

theorem mem_ahead {other : Group} :
    other ∈ s.ahead group since ↔
      other ≠ group ∧ ∃ waiting, s.waitingOf other = some waiting ∧ waiting ≤ since := by
  simp only [ahead, Finset.mem_filter, List.mem_toFinset, Option.any_eq_true, decide_eq_true_eq]
  constructor
  · rintro ⟨-, hne, hwaiting⟩
    exact ⟨hne, hwaiting⟩
  · rintro ⟨hne, waiting, hwaiting, hle⟩
    obtain ⟨service, hservice, -⟩ := Option.bind_eq_some_iff.mp hwaiting
    exact ⟨mem_of_lookup hservice, hne, waiting, hwaiting, hle⟩

/-- Only groups that waited before are ahead afterwards, if whoever begins to wait does so later. -/
theorem ahead_subset {s' : Scheduler} (h : ∀ other waiting, s'.waitingOf other = some waiting → waiting ≤
      since → s.waitingOf other = some waiting) : s'.ahead group since ⊆ s.ahead group since := by
  intro other hother
  obtain ⟨hne, waiting, hwaiting, hle⟩ := mem_ahead.mp hother
  exact mem_ahead.mpr ⟨hne, waiting, h other waiting hwaiting hle, hle⟩

/-- **Among groups that have waited too long, the choice falls on one that has waited longest.** -/
theorem chosen_ahead {candidates : List ClientSurfaceId} {policy : SchedulingPolicy}
    (h : (s.select candidates excluded activity policy now).2 = some selection)
    (hoffers : Offers candidates excluded activity group) (hwaiting : s.waitingOf group = some since)
    (haged : policy.starvationAge ≤ now - since) (hne : selection.group ≠ group) :
    selection.group ∈ (s.select candidates excluded activity policy now).1.ahead group since := by
  have hstill : (s.select candidates excluded activity policy now).1.waitingOf group =
      some since := by
    rw [waitingOf_select, if_pos ((available_iff policy group).mpr hoffers), hwaiting]
    rfl
  obtain ⟨service, hservice, hsince⟩ := Option.bind_eq_some_iff.mp hstill
  obtain ⟨surface, hmem, offered, hoffer, -, hage⟩ := offer_of_offers hoffers hservice
  have hoffered : offered.2 = some since := by
    rw [hage, hsince, Option.filter_some, if_pos (decide_eq_true haged)]
  obtain ⟨agedAt, ⟨other, hother, hchosen⟩, hleast⟩ := select_spec h
  have hrank := hleast surface hmem offered hoffer
  obtain ⟨-, -, -, chosen, hlookup, -, hchosenAge⟩ := offer_spec hchosen
  refine mem_ahead.mpr ⟨hne, ?_⟩
  cases agedAt with
  | none =>
      refine absurd ?_ hrank
      rw [rank, rank, hoffered]
      exact Prod.Lex.toLex_lt_toLex.mpr (Or.inl Nat.zero_lt_one)
  | some waiting =>
      refine ⟨waiting, ?_, ?_⟩
      · rw [waitingOf, hlookup, Option.bind_some]
        exact (Option.filter_eq_some_iff.mp hchosenAge.symm).1
      · by_contra hlater
        refine hrank ?_
        rw [rank, rank, hoffered]
        exact Prod.Lex.toLex_lt_toLex.mpr (Or.inr ⟨rfl, Nat.lt_of_not_le hlater⟩)

/-- Forgetting a surface forgets at most the group it is the root of. -/
theorem lookup_forget (s : Scheduler) (activity : Activity) (surface : ClientSurfaceId)
    (group : Group) :
    (s.forget activity surface).groups.lookup group =
      if activity.group surface = some group ∧ group.root = surface then none
      else s.groups.lookup group := by
  unfold forget
  cases hgroup : activity.group surface with
  | none => simp
  | some found =>
      by_cases hroot : found.root = surface
      · by_cases hsame : group = found
        · subst hsame
          simp [hroot]
        · have hne : ¬ found = group := fun h => hsame h.symm
          simp [hroot, hsame, hne]
      · have hnot : ¬ (some found = some group ∧ group.root = surface) := by
          rintro ⟨hfound, h⟩
          exact hroot (Option.some.inj hfound ▸ h)
        rw [if_neg hnot]
        simp [hroot]

end Scheduler

open Scheduler

/-! ### Runs -/

inductive SchedulerCall
  | select (candidates excluded : List ClientSurfaceId) (activity : Activity)
      (policy : SchedulingPolicy) (now : Instant)
  | accepted (now : Instant)
  | forget (activity : Activity) (surface : ClientSurfaceId)

/-- A scheduler in use: the time, what the latest selection chose, until that is accepted, and the
groups whose selections were accepted, in order. -/
structure Scheduling where
  scheduler : Scheduler
  clock : Instant
  answer : Option Selection := none
  served : List Group := []

open Scheduling

namespace Scheduling

/-- Some time after a selection, what it chose is accepted, or another selection is made. -/
def step (r : Scheduling) : SchedulerCall → Scheduling
  | .select candidates excluded activity policy now =>
      { r with
        scheduler := (r.scheduler.select candidates excluded activity policy now).1
        clock := now
        answer := (r.scheduler.select candidates excluded activity policy now).2 }
  | .accepted now =>
      match r.answer with
      | none => { r with clock := now }
      | some selection =>
          ⟨r.scheduler.accepted selection now, now, none, r.served ++ [selection.group]⟩
  | .forget activity surface => { r with scheduler := r.scheduler.forget activity surface }

/-- A run may begin with any scheduler, between two attempts to place work. -/
def start (s : Scheduler) (now : Instant) : Scheduling := ⟨s, now, none, []⟩

variable {r : Scheduling}

theorem step_accepted_none (h : r.answer = none) (now : Instant) :
    r.step (.accepted now) = { r with clock := now } := by
  rw [step, h]

theorem step_accepted_some (h : r.answer = some selection) (now : Instant) :
    r.step (.accepted now) =
      ⟨r.scheduler.accepted selection now, now, none, r.served ++ [selection.group]⟩ := by
  rw [step, h]

/-! ### Nobody starves -/

/-- The group could be chosen, is not forgotten, and is not served. -/
def Waits (group : Group) (r : Scheduling) : SchedulerCall → Prop
  | .select candidates excluded activity _ now =>
      r.clock ≤ now ∧ Offers candidates excluded activity group
  | .accepted now => r.clock ≤ now ∧ ∀ selection, r.answer = some selection →
      selection.group ≠ group
  | .forget activity surface => ¬ (activity.group surface = some group ∧ group.root = surface)

/-- The group has waited too long, and yet another is chosen. -/
def PassedOver (group : Group) (since : Instant) (r : Scheduling) : SchedulerCall → Prop
  | .select candidates excluded activity policy now =>
      r.clock ≤ now ∧ Offers candidates excluded activity group ∧
        since < now ∧ policy.starvationAge ≤ now - since ∧
        ∀ selection, (r.scheduler.select candidates excluded activity policy now).2 =
          some selection → selection.group ≠ group
  | .accepted now => r.clock ≤ now
  | .forget activity surface => ¬ (activity.group surface = some group ∧ group.root = surface)

variable {group : Group} {since : Instant} {call : SchedulerCall}

/-- A group that waits goes on waiting since the same moment. -/
theorem Waits.step (h : Waits group r call) (hwaiting : r.scheduler.waitingOf group = some since) :
    (r.step call).scheduler.waitingOf group = some since := by
  cases call with
  | select candidates excluded activity policy now =>
      have hoffered := (available_iff policy group).mpr h.2
      rw [step, waitingOf_select, if_pos hoffered, hwaiting]
      rfl
  | accepted now =>
      cases hanswer : r.answer with
      | none =>
          rw [step_accepted_none hanswer]
          exact hwaiting
      | some selection =>
          have hne := h.2 selection hanswer
          rw [step_accepted_some hanswer, waitingOf_accepted, if_neg fun hboth => hne hboth.1.symm]
          exact hwaiting
  | forget activity surface =>
      have hnot : ¬ (activity.group surface = some group ∧ group.root = surface) := h
      rw [step, waitingOf, Scheduler.lookup_forget, if_neg hnot]
      exact hwaiting

variable {calls : List SchedulerCall}

/-- **A group waits since it was first offered**, or longer. -/
theorem waits_since (hwaiting : r.scheduler.waitingOf group = some since)
    (h : Meets step (Waits group) r calls) :
    (exec step r calls).scheduler.waitingOf group = some since :=
  h.invariant (P := fun r => r.scheduler.waitingOf group = some since)
    (fun _ _ hwaiting hcall => hcall.step hwaiting) hwaiting

/-- What is left to count while a group is passed over: those ahead of it that are not yet chosen,
and the choice that is not yet accepted. -/
def outstanding (r : Scheduling) (group : Group) (since : Instant) : ℕ :=
  match r.answer with
  | none => (r.scheduler.ahead group since).card
  | some selection => ((r.scheduler.ahead group since).erase selection.group).card + 1

theorem card_ahead_le_outstanding (r : Scheduling) (group : Group) (since : Instant) :
    (r.scheduler.ahead group since).card ≤ r.outstanding group since := by
  unfold outstanding
  cases r.answer with
  | none => exact le_rfl
  | some selection =>
      have h := Finset.pred_card_le_card_erase (s := r.scheduler.ahead group since)
        (a := selection.group)
      exact Nat.sub_le_iff_le_add.mp h

theorem answer_le_outstanding (r : Scheduling) (group : Group) (since : Instant) :
    r.answer.toList.length ≤ r.outstanding group since := by
  unfold outstanding
  cases r.answer with
  | none => exact Nat.zero_le _
  | some selection => exact Nat.le_add_left _ _

/-- While a group is passed over, every service uses up one of the groups ahead of it. -/
structure Overtaken (group : Group) (since : Instant) (most : ℕ) (r : Scheduling) : Prop where
  waiting : r.scheduler.waitingOf group = some since
  chosen : ∀ selection, r.answer = some selection → selection.group ≠ group ∧ since < r.clock
  count : r.served.length + r.outstanding group since ≤ most

theorem Overtaken.step {most : ℕ} (h : Overtaken group since most r)
    (hcall : PassedOver group since r call) : Overtaken group since most (r.step call) := by
  cases call with
  | select candidates excluded activity policy now =>
      obtain ⟨-, hoffers, hlater, haged, hother⟩ := hcall
      have havailable := (available_iff policy group).mpr hoffers
      refine ⟨?_, fun selection hselection => ⟨hother selection hselection, hlater⟩, ?_⟩
      · rw [step, waitingOf_select, if_pos havailable, h.waiting]
        rfl
      · obtain ⟨surface, hmem, hfree, hgroup⟩ := hoffers
        obtain ⟨selection, hselection⟩ := Option.isSome_iff_exists.mp
          (select_isSome r.scheduler policy now hmem hfree (Option.isSome_of_eq_some hgroup))
        have hin := chosen_ahead hselection ⟨surface, hmem, hfree, hgroup⟩ h.waiting
          haged (hother selection hselection)
        have hsubset : (r.scheduler.select candidates excluded activity policy now).1.ahead group
            since ⊆ r.scheduler.ahead group since := by
          refine ahead_subset fun other waiting hwaiting hle => ?_
          rw [waitingOf_select] at hwaiting
          split_ifs at hwaiting
          cases hbefore : r.scheduler.waitingOf other with
          | none =>
              rw [hbefore] at hwaiting
              cases hwaiting
              exact absurd hle (Nat.not_le.mpr hlater)
          | some before =>
              rw [hbefore] at hwaiting
              exact hwaiting
        have hcard := Finset.card_le_card hsubset
        have hbefore := r.card_ahead_le_outstanding group since
        have hcount := h.count
        have herase := Finset.card_erase_add_one hin
        simp only [step, outstanding, hselection]
        omega
  | accepted now =>
      cases hanswer : r.answer with
      | none =>
          rw [step_accepted_none hanswer]
          refine ⟨h.waiting, fun selection hselection => ?_, h.count⟩
          rw [hanswer] at hselection
          cases hselection
      | some selection =>
          obtain ⟨hne, hclock⟩ := h.chosen selection hanswer
          have hlater : since < now := Nat.lt_of_lt_of_le hclock hcall
          rw [step_accepted_some hanswer]
          refine ⟨?_, fun _ hnone => (Option.some_ne_none _ hnone.symm).elim, ?_⟩
          · rw [waitingOf_accepted, if_neg fun hboth => hne hboth.1.symm]
            exact h.waiting
          · have hsubset : (r.scheduler.accepted selection now).ahead group since ⊆
                (r.scheduler.ahead group since).erase selection.group := by
              intro other hother
              obtain ⟨hother, waiting, hwaiting, hle⟩ := mem_ahead.mp hother
              rw [waitingOf_accepted] at hwaiting
              split_ifs at hwaiting with hboth
              · cases hwaiting
                exact absurd hle (Nat.not_le.mpr hlater)
              · refine Finset.mem_erase.mpr ⟨fun hsame => hboth ⟨hsame, ?_⟩,
                  mem_ahead.mpr ⟨hother, waiting, hwaiting, hle⟩⟩
                obtain ⟨service, hservice, -⟩ := Option.bind_eq_some_iff.mp hwaiting
                exact mem_of_lookup hservice
            have hcard := Finset.card_le_card hsubset
            have hcount := h.count
            simp only [outstanding, hanswer] at hcount
            simp only [outstanding, List.length_append, List.length_singleton]
            omega
  | forget activity surface =>
      have hnot : ¬ (activity.group surface = some group ∧ group.root = surface) := hcall
      refine ⟨?_, h.chosen, ?_⟩
      · rw [step, waitingOf, Scheduler.lookup_forget, if_neg hnot]
        exact h.waiting
      · have hsubset : (r.scheduler.forget activity surface).ahead group since ⊆
            r.scheduler.ahead group since := by
          refine ahead_subset fun other waiting hwaiting _ => ?_
          rw [waitingOf, Scheduler.lookup_forget] at hwaiting
          split_ifs at hwaiting with hforgotten
          · cases hwaiting
          · exact hwaiting
        have hcount := h.count
        simp only [step, outstanding] at hcount ⊢
        cases hanswer : r.answer with
        | none =>
            have hcard := Finset.card_le_card hsubset
            simp only [hanswer] at hcount ⊢
            omega
        | some selection =>
            have hcard := Finset.card_le_card (Finset.erase_subset_erase selection.group hsubset)
            simp only [hanswer] at hcount ⊢
            omega

/-- **Nobody starves**: while a group that has waited too long is passed over, no more groups are
served than waited as long as it did when that began, the latest choice included. -/
theorem overtaken (hwaiting : s.waitingOf group = some since)
    (h : Meets step (PassedOver group since) (start s now) calls) :
    (exec step (start s now) calls).served.length +
      (exec step (start s now) calls).answer.toList.length ≤ (s.ahead group since).card := by
  have hstart : Overtaken group since (s.ahead group since).card (start s now) :=
    ⟨hwaiting, fun _ hnone => (Option.some_ne_none _ hnone.symm).elim,
      by simp [start, outstanding]⟩
  have hend := h.invariant (fun _ _ hovertaken hcall => hovertaken.step hcall) hstart
  have hanswer := answer_le_outstanding (exec step (start s now) calls) group since
  have hcount := hend.count
  omega

/-! ### The shares are fair -/

section Shares

variable (candidates : List ClientSurfaceId) (groupOf : ClientSurfaceId → Option Group)
  (priority : Group → Priority) (cost : Group → ℕ)

/-- The groups of the candidates. -/
def members : Set Group := {group | ∃ surface ∈ candidates, groupOf surface = some group}

/-- The candidates are always the same and none is excluded, neither groups nor priorities nor
weights change, and nobody ages. -/
def Steady (r : Scheduling) : SchedulerCall → Prop
  | .select offered excluded activity policy now =>
      offered = candidates ∧ excluded = [] ∧
        (∀ surface ∈ candidates, activity.group surface = groupOf surface) ∧
        (∀ group ∈ members candidates groupOf,
          (activity.snapshot policy).priorityOf policy now group = priority group ∧
            policy.cost (priority group) = cost group) ∧
        0 < policy.starvationAge ∧ ∀ group since, r.scheduler.waitingOf group = some since →
          now - since < policy.starvationAge
  | .accepted _ => True
  | .forget activity surface => ∀ group ∈ members candidates groupOf,
      ¬ (activity.group surface = some group ∧ group.root = surface)

/-- After a first selection the scheduler knows exactly the groups of the candidates, and what is
chosen finishes first. -/
structure Settled (r : Scheduling) : Prop where
  known : ∀ group ∈ members candidates groupOf, ∃ service,
    r.scheduler.groups.lookup group = some service ∧ service.priority = some (priority group)
  only : ∀ group, group ∈ r.scheduler.groups → group ∈ members candidates groupOf
  cheap : ∀ group ∈ members candidates groupOf, cost group ≤ 65536
  chosen : ∀ selection, r.answer = some selection →
    selection.group ∈ members candidates groupOf ∧
      selection.finish = saturatingAdd (r.scheduler.debtOf selection.group) (cost selection.group) ∧
      ∀ group ∈ members candidates groupOf,
        selection.finish ≤ saturatingAdd (r.scheduler.debtOf group) (cost group)

/-- No group owes more than this. -/
def Bounded (bound : ℕ) (s : Scheduler) : Prop :=
  ∀ group service, s.groups.lookup group = some service → service.finish ≤ bound

variable {bound : ℕ}

theorem Bounded.debtOf (h : Bounded bound s) (group : Group) : s.debtOf group ≤ bound := by
  unfold Scheduler.debtOf
  cases hlookup : s.groups.lookup group with
  | none => exact Nat.zero_le _
  | some service => exact h group service hlookup

theorem cost_le (policy : SchedulingPolicy) (priority : Priority) :
    policy.cost priority ≤ 65536 := Nat.div_le_self _ _

variable {candidates groupOf priority cost}

section Select

variable {r : Scheduling} {activity : Activity} {policy : SchedulingPolicy} {now : Instant}

/-- A steady selection leaves the scheduler settled. -/
theorem Steady.settled
    (h : Steady candidates groupOf priority cost r (.select candidates [] activity policy now)) :
    Settled candidates groupOf priority cost (r.step (.select candidates [] activity policy now)) := by
  obtain ⟨-, -, hgroup, hprice, hage, hyoung⟩ := h
  have hmember : ∀ group, (∃ surface ∈ candidates, activity.group surface = some group) ↔
      group ∈ members candidates groupOf := by
    intro group
    constructor
    · rintro ⟨surface, hmem, hsurface⟩
      exact ⟨surface, hmem, (hgroup surface hmem).symm.trans hsurface⟩
    · rintro ⟨surface, hmem, hsurface⟩
      exact ⟨surface, hmem, (hgroup surface hmem).trans hsurface⟩
  have hlookup := lookup_select r.scheduler candidates [] activity policy now
  have hprio : ∀ group ∈ members candidates groupOf, ∀ service,
      (r.scheduler.select candidates [] activity policy now).1.groups.lookup group =
        some service → service.priority = some (priority group) := by
    intro group hmem service hservice
    rw [priority_select hservice, (hprice group hmem).1]
  have hfinish : ∀ group ∈ members candidates groupOf, ∀ service,
      (r.scheduler.select candidates [] activity policy now).1.groups.lookup group =
        some service →
      saturatingAdd service.finish (policy.cost (service.priority.getD .background)) =
        saturatingAdd ((r.scheduler.select candidates [] activity policy now).1.debtOf group)
          (cost group) := by
    intro group hmem service hservice
    rw [hprio group hmem service hservice, Option.getD_some, (hprice group hmem).2,
      Scheduler.debtOf, hservice]
    rfl
  refine ⟨?_, ?_, ?_, ?_⟩
  · intro group hmem
    have hservice := hlookup group
    rw [if_pos ((hmember group).mpr hmem)] at hservice
    exact ⟨_, hservice, hprio group hmem _ hservice⟩
  · intro group hmem
    by_contra hnot
    have hnone := hlookup group
    rw [if_neg fun hcandidate => hnot ((hmember group).mp hcandidate)] at hnone
    exact lookup_eq_none.mp hnone hmem
  · intro group hmem
    rw [← (hprice group hmem).2]
    exact cost_le policy (priority group)
  · intro selection hselection
    obtain ⟨agedAt, ⟨surface, hmem, hoffer⟩, hleast⟩ := select_spec hselection
    obtain ⟨-, -, hsurface, service, hservice, hpays, hagedAt⟩ := offer_spec hoffer
    have hin := (hmember selection.group).mp ⟨surface, hmem, hsurface⟩
    have hself := hpays.trans (hfinish selection.group hin service hservice)
    have hyoungest : agedAt = none := hagedAt.trans (nobody_ages hage hyoung hservice)
    subst hyoungest
    refine ⟨hin, hself, fun group hgroupmem => ?_⟩
    obtain ⟨candidate, hcandidate, hcandidategroup⟩ := (hmember group).mpr hgroupmem
    have hother := hlookup group
    rw [if_pos ⟨candidate, hcandidate, hcandidategroup⟩] at hother
    obtain ⟨other, hothermem, offered, hoffered, hothers, hotherage⟩ :=
      offer_of_offers ⟨candidate, hcandidate, List.not_mem_nil, hcandidategroup⟩ hother
    have hrank := hleast other hothermem offered hoffered
    rw [nobody_ages hage hyoung hother] at hotherage
    rw [rank, rank, hotherage, Prod.Lex.toLex_lt_toLex] at hrank
    have hleastfinish : selection.finish ≤ offered.1.finish := by
      by_contra hlater
      exact hrank (Or.inr ⟨rfl, Nat.lt_of_not_le hlater⟩)
    exact (hothers.trans (hfinish group hgroupmem _ hother)) ▸ hleastfinish

/-- A selection of a settled scheduler changes no debt. -/
theorem Steady.debtOf
    (h : Steady candidates groupOf priority cost r (.select candidates [] activity policy now))
    (hsettled : Settled candidates groupOf priority cost r) :
    (r.scheduler.select candidates [] activity policy now).1.debtOf = r.scheduler.debtOf := by
  obtain ⟨-, -, hgroup, hprice, -⟩ := h
  funext group
  have hdebts := debts_select r.scheduler candidates [] activity policy now group
  rw [Scheduler.debtOf, hdebts, Scheduler.debtOf]
  by_cases hmem : group ∈ members candidates groupOf
  · obtain ⟨surface, hsurface, hof⟩ := hmem
    obtain ⟨service, hservice, hpriority⟩ := hsettled.known group ⟨surface, hsurface, hof⟩
    have hsame := (hprice group ⟨surface, hsurface, hof⟩).1
    rw [if_pos ⟨surface, hsurface, (hgroup surface hsurface).trans hof⟩, hservice]
    simp [hpriority, hsame]
  · have hnone : r.scheduler.groups.lookup group = none :=
      lookup_eq_none.mpr fun hin => hmem (hsettled.only group hin)
    have hnot : ¬ ∃ surface ∈ candidates, activity.group surface = some group := by
      rintro ⟨surface, hsurface, hof⟩
      exact hmem ⟨surface, hsurface, (hgroup surface hsurface).symm.trans hof⟩
    rw [if_neg hnot, hnone]
    rfl

theorem Bounded.select (h : Bounded bound s) :
    Bounded bound (s.select candidates excluded activity policy now).1 := by
  intro group service hservice
  have hdebts := debts_select s candidates excluded activity policy now group
  have hfloor : floor (s.retained candidates activity) ≤ bound := floor_retained_le h
  rw [hservice, Option.map_some] at hdebts
  split_ifs at hdebts
  cases hbefore : s.groups.lookup group with
  | none =>
      rw [hbefore] at hdebts
      exact (Option.some.inj hdebts).trans_le hfloor
  | some before =>
      rw [hbefore] at hdebts
      simp only at hdebts
      split_ifs at hdebts
      · exact (Option.some.inj hdebts).trans_le hfloor
      · exact (Option.some.inj hdebts).trans_le (h group before hbefore)

end Select

section Accepted

variable {r : Scheduling} {selection : Selection}

section

variable (h : Settled candidates groupOf priority cost r)
include h

/-- An acceptance leaves the scheduler settled, with nothing to accept. -/
theorem Settled.accepted (now : Instant) (served : List Group) :
    Settled candidates groupOf priority cost
      ⟨r.scheduler.accepted selection now, now, none, served⟩ := by
  have hkept := r.scheduler.priority_accepted selection now
  refine ⟨?_, ?_, h.cheap, fun _ hnone => (Option.some_ne_none _ hnone.symm).elim⟩
  · intro group hmem
    obtain ⟨service, hservice, hpriority⟩ := h.known group hmem
    have hgroup := hkept group
    rw [hservice, Option.map_some] at hgroup
    obtain ⟨after, hafter, hsame⟩ := Option.map_eq_some_iff.mp hgroup
    exact ⟨after, hafter, hsame.trans hpriority⟩
  · intro group hmem
    refine h.only group ?_
    rw [← lookup_isSome] at hmem ⊢
    have hgroup := congrArg Option.isSome (hkept group)
    rw [Option.isSome_map, Option.isSome_map] at hgroup
    exact hgroup.symm.trans hmem

section

variable (hanswer : r.answer = some selection)
include hanswer

/-- **An acceptance serves the group that finishes first**, once some group owes nothing: then no
debt is near the largest number. -/
theorem Settled.serves (now : Instant)
    (hzero : ∃ group ∈ members candidates groupOf, r.scheduler.debtOf group = 0) :
    FairService.Serves cost (members candidates groupOf) r.scheduler.debtOf
      (r.scheduler.accepted selection now).debtOf selection.group
      (floor (r.scheduler.charge selection now)) := by
  obtain ⟨hmem, hself, hleast⟩ := h.chosen selection hanswer
  obtain ⟨free, hfree, hdebt⟩ := hzero
  have hfirst := hleast free hfree
  have hcheap := h.cheap free hfree
  have hexact : selection.finish = r.scheduler.debtOf selection.group + cost selection.group := by
    simp only [saturatingAdd] at hself hfirst
    omega
  have hin : ∀ group ∈ members candidates groupOf, group ∈ r.scheduler.groups := by
    intro group hgroup
    obtain ⟨service, hservice, -⟩ := h.known group hgroup
    exact mem_of_lookup hservice
  refine ⟨hmem, fun group hgroup => ?_, ?_, fun group hgroup hne => ?_⟩
  · have hother := hleast group hgroup
    rw [← hexact]
    exact hother.trans (min_le_left _ _)
  · rw [debtOf_accepted _ _ _ (hin _ hmem), if_pos rfl, hexact]
  · rw [debtOf_accepted _ _ _ (hin _ hgroup), if_neg hne]

/-- After any acceptance some group owes nothing. -/
theorem Settled.exists_debtless (now : Instant) :
    ∃ group ∈ members candidates groupOf,
      (r.scheduler.accepted selection now).debtOf group = 0 := by
  obtain ⟨service, hservice, -⟩ := h.known _ (h.chosen selection hanswer).1
  obtain ⟨group, hgroup, hdebt⟩ := r.scheduler.exists_debtless selection now
    (mem_of_lookup hservice)
  exact ⟨group, h.only group hgroup, hdebt⟩

/-- The first acceptance makes no group owe more than one service above what it owed. -/
theorem Settled.debtOf_accepted_le (now : Instant) (hbound : Bounded bound r.scheduler)
    (hgroup : group ∈ members candidates groupOf) :
    (r.scheduler.accepted selection now).debtOf group ≤ bound + 65536 := by
  obtain ⟨service, hservice, -⟩ := h.known group hgroup
  obtain ⟨hmem, hself, -⟩ := h.chosen selection hanswer
  have hdebt := debtOf_accepted r.scheduler selection now (mem_of_lookup hservice)
  have hchosen := hbound.debtOf selection.group
  have hown := hbound.debtOf group
  have hcheap := h.cheap selection.group hmem
  simp only [saturatingAdd] at hself
  split_ifs at hdebt
  · omega
  · omega

end

end

end Accepted

/-- Where a run with steady candidates can be: before its first selection, before its first
acceptance, and after that. -/
inductive Sharing (candidates : List ClientSurfaceId) (groupOf : ClientSurfaceId → Option Group)
    (priority : Group → Priority) (cost : Group → ℕ) (bound : ℕ) (r : Scheduling) : Prop
  | fresh (hanswer : r.answer = none) (hserved : r.served = []) (hbound : Bounded bound r.scheduler)
  | first (h : Settled candidates groupOf priority cost r) (hserved : r.served = [])
      (hbound : Bounded bound r.scheduler)
  | running (h : Settled candidates groupOf priority cost r) {head : Group} {rest : List Group}
      (hserved : r.served = head :: rest) {debt : Group → ℕ} {forgiven : ℕ}
      (hdebt : ∀ group ∈ members candidates groupOf, debt group ≤ bound + 65536)
      (hservices : FairService.Services cost (members candidates groupOf) debt rest forgiven
        r.scheduler.debtOf)
      (hzero : ∃ group ∈ members candidates groupOf, r.scheduler.debtOf group = 0)

/-- Forgetting surfaces that are no candidates' changes nothing for a settled scheduler. -/
theorem Settled.lookup_forget (h : Settled candidates groupOf priority cost r)
    (hcall : Steady candidates groupOf priority cost r (.forget activity surface)) (group : Group) :
    (r.scheduler.forget activity surface).groups.lookup group =
      r.scheduler.groups.lookup group := by
  rw [Scheduler.lookup_forget]
  split_ifs with hforgotten
  · have hnone : r.scheduler.groups.lookup group = none :=
      lookup_eq_none.mpr fun hin => hcall group (h.only group hin) hforgotten
    exact hnone.symm
  · rfl

theorem Settled.forget (h : Settled candidates groupOf priority cost r)
    (hcall : Steady candidates groupOf priority cost r (.forget activity surface)) :
    Settled candidates groupOf priority cost (r.step (.forget activity surface)) ∧
      (r.scheduler.forget activity surface).debtOf = r.scheduler.debtOf := by
  have hlookup := h.lookup_forget hcall
  have hdebt : (r.scheduler.forget activity surface).debtOf = r.scheduler.debtOf := by
    funext group
    rw [Scheduler.debtOf, hlookup, Scheduler.debtOf]
  refine ⟨⟨?_, ?_, h.cheap, ?_⟩, hdebt⟩
  · intro group hmem
    rw [step, hlookup]
    exact h.known group hmem
  · intro group hmem
    refine h.only group ?_
    rw [← lookup_isSome] at hmem ⊢
    rwa [step, hlookup] at hmem
  · intro selection hselection
    rw [step, hdebt]
    exact h.chosen selection hselection

theorem Bounded.forget (h : Bounded bound s) (activity : Activity) (surface : ClientSurfaceId) :
    Bounded bound (s.forget activity surface) := by
  intro group service hservice
  rw [Scheduler.lookup_forget] at hservice
  split_ifs at hservice
  exact h group service hservice

theorem Sharing.step (h : Sharing candidates groupOf priority cost bound r)
    (hcall : Steady candidates groupOf priority cost r call) :
    Sharing candidates groupOf priority cost bound (r.step call) := by
  cases call with
  | select offered excluded activity policy now =>
      obtain ⟨rfl, rfl, -⟩ := id hcall
      cases h with
      | fresh hanswer hserved hbound => exact .first hcall.settled hserved hbound.select
      | first _ hserved hbound => exact .first hcall.settled hserved hbound.select
      | running hsettled hserved hdebt hservices hzero =>
          rw [← hcall.debtOf hsettled] at hservices hzero
          exact .running hcall.settled hserved hdebt hservices hzero
  | accepted now =>
      cases hanswer : r.answer with
      | none =>
          rw [step_accepted_none hanswer]
          cases h with
          | fresh _ hserved hbound => exact .fresh hanswer hserved hbound
          | first hsettled hserved hbound =>
              exact .first ⟨hsettled.known, hsettled.only, hsettled.cheap, hsettled.chosen⟩ hserved
                hbound
          | running hsettled hserved hdebt hservices hzero =>
              exact .running ⟨hsettled.known, hsettled.only, hsettled.cheap, hsettled.chosen⟩
                hserved hdebt hservices hzero
      | some selection =>
          rw [step_accepted_some hanswer]
          cases h with
          | fresh hnone _ _ =>
              rw [hnone] at hanswer
              cases hanswer
          | first hsettled hserved hbound =>
              exact .running (hsettled.accepted now _) (by rw [hserved]; rfl)
                (fun group hgroup => hsettled.debtOf_accepted_le hanswer now hbound hgroup)
                (.nil _) (hsettled.exists_debtless hanswer now)
          | running hsettled hserved hdebt hservices hzero =>
              exact .running (hsettled.accepted now _) (by rw [hserved]; rfl) hdebt
                (hservices.concat (hsettled.serves hanswer now hzero))
                (hsettled.exists_debtless hanswer now)
  | forget activity surface =>
      cases h with
      | fresh hanswer hserved hbound => exact .fresh hanswer hserved (hbound.forget _ _)
      | first hsettled hserved hbound =>
          exact .first (hsettled.forget hcall).1 hserved (hbound.forget _ _)
      | running hsettled hserved hdebt hservices hzero =>
          obtain ⟨hstill, hsame⟩ := hsettled.forget hcall
          rw [← hsame] at hservices hzero
          exact .running hstill hserved hdebt hservices hzero

/-- **The shares are fair**: what two groups have paid differs by no more than one service of each
and a constant that the start alone determines. -/
theorem shares (hbound : Bounded bound s)
    (h : Meets step (Steady candidates groupOf priority cost) (start s now) calls)
    {other : Group} (hgroup : group ∈ members candidates groupOf)
    (hother : other ∈ members candidates groupOf) :
    (exec step (start s now) calls).served.count group * cost group ≤
      (exec step (start s now) calls).served.count other * cost other +
        (cost group + cost other) + (bound + 65536) := by
  have hend := h.invariant (P := Sharing candidates groupOf priority cost bound)
    (fun _ _ hsharing hcall => hsharing.step hcall) (.fresh rfl rfl hbound)
  generalize exec step (start s now) calls = r at hend ⊢
  cases hend with
  | fresh _ hserved | first _ hserved => simp [hserved]
  | @running _ head rest hserved debt forgiven hdebt hservices _ =>
      have hshares := hservices.shares hgroup hother
      have hstart := hdebt other hother
      have hhead : (head :: rest).count group * cost group ≤
          rest.count group * cost group + cost group := by
        rw [← Nat.succ_mul]
        refine Nat.mul_le_mul_right _ ?_
        rw [List.count_cons]
        split_ifs <;> omega
      have hrest : rest.count other * cost other ≤ (head :: rest).count other * cost other :=
        Nat.mul_le_mul_right _ (List.count_le_count_cons)
      rw [hserved]
      omega

end Shares

/-! ### All together -/

/-- Two windows of one session. -/
def firstClientWindow : ClientSurfaceId := ⟨⟨0, 0⟩, 1⟩

def secondClientWindow : ClientSurfaceId := ⟨⟨0, 0⟩, 2⟩

def twoWindows : Activity :=
  (({} : Activity).register 1 firstClientWindow).register 1 secondClientWindow

/-- A selection between the two windows. -/
def selectBoth (now : Instant) : SchedulerCall :=
  .select [firstClientWindow, secondClientWindow] [] twoWindows {} now

end Scheduling

end Encoded
