/-
**Coalescing preserves meaning.**

A consumer applies what it takes from the queue of `PendingEvents` to what it knows of each surface.
It sees fewer events than were pushed, some of them later than they were pushed, and commits that
carry buffers of others; in the end, and at every record that is never merged, it knows the same.

Main definitions: `ReplayedSurface`, `replay`, `Coalesced`, `Conforms`, `SameMeaning`, `PendingRun`.

Main results:

* `Coalesced.sameMeaning`, `Coalesced.split` — coalesced events mean the same, before
  and after every record that is never merged;
* `coalescing_preserves_meaning` — this is what the queue does.
-/

import Mathlib.Data.List.Induction
import Weld.History
import Weld.PendingEvents
import Weld.SurfaceContents
import Weld.Thinning
import Weld.Transition

namespace Client

open History Thinning PendingClientEvents PendingClientEvents

variable {Scope : Type}

/-! ### What a consumer knows -/

/-- What a consumer knows of a surface: the latest geometry, contents and labels, and every record
that is never merged. -/
structure ReplayedSurface where
  commit : Option ClientSurfaceCommit := none
  contents : LayerContents := fun _ => none
  metadata : Option ClientSurfaceMetadata := none
  controls : List ClientSurfaceEventKind := []

def ReplayedSurface.apply (known : ReplayedSurface) : ClientSurfaceEventKind → ReplayedSurface
  | .commit commit =>
      { known with commit := some commit.geometry, contents := commit.contents known.contents }
  | .metadata metadata => { known with metadata := some metadata }
  | control => { known with controls := known.controls ++ [control] }

/-- Apply what concerns the surface. -/
def replay (surface : ClientSurfaceId) (records : List (Scope × ClientSurfaceEvent))
    (known : ReplayedSurface) : ReplayedSurface :=
  records.foldl (fun known record =>
    if record.2.surface = surface then known.apply record.2.kind else known) known

/-- The commits of a surface, with their scopes. -/
def commitsOf (surface : ClientSurfaceId) (records : List (Scope × ClientSurfaceEvent)) :
    List (Scope × ClientSurfaceCommit) :=
  records.filterMap fun record =>
    match record.2.kind with
    | .commit commit => if record.2.surface = surface then some (record.1, commit) else none
    | _ => none

def metadataOf (surface : ClientSurfaceId) (records : List (Scope × ClientSurfaceEvent)) :
    List ClientSurfaceMetadata :=
  records.filterMap fun record =>
    match record.2.kind with
    | .metadata metadata => if record.2.surface = surface then some metadata else none
    | _ => none

/-- The records that are never merged. -/
def controlRecords (records : List (Scope × ClientSurfaceEvent)) :
    List (Scope × ClientSurfaceEvent) :=
  records.filter fun record => isControl record.2

section Lists

variable (surface : ClientSurfaceId) (more records : List (Scope × ClientSurfaceEvent))

theorem replay_append (known : ReplayedSurface) :
    replay surface (records ++ more) known = replay surface more (replay surface records known) :=
  List.foldl_append

@[simp] theorem commitsOf_append :
    commitsOf surface (records ++ more) = commitsOf surface records ++ commitsOf surface more :=
  List.filterMap_append

@[simp] theorem metadataOf_append :
    metadataOf surface (records ++ more) = metadataOf surface records ++ metadataOf surface more :=
  List.filterMap_append

@[simp] theorem controlRecords_append :
    controlRecords (records ++ more) = controlRecords records ++ controlRecords more :=
  List.filter_append _ _

end Lists

/-- What is known afterwards, part by part. -/
theorem replay_eq (surface : ClientSurfaceId) (records : List (Scope × ClientSurfaceEvent))
    (known : ReplayedSurface) :
    replay surface records known =
      { commit := ((commitsOf surface records).getLast?.map fun c => c.2.geometry).or known.commit
        contents := (commitsOf surface records).foldl (fun shown c => c.2.contents shown)
          known.contents
        metadata := (metadataOf surface records).getLast?.or known.metadata
        controls := known.controls ++
          ((controlRecords records).filter fun record => record.2.surface = surface).map
            (·.2.kind) } := by
  induction records using List.reverseRecOn with
  | nil => simp [replay, commitsOf, metadataOf, controlRecords]
  | append_singleton records record ih =>
      obtain ⟨scope, event⟩ := record
      obtain ⟨target, kind⟩ := event
      rw [replay_append, ih]
      by_cases htarget : target = surface
      · subst htarget
        cases kind with
        | commit | metadata | _ =>
            simp [replay, ReplayedSurface.apply, commitsOf, metadataOf, controlRecords, isControl,
              PendingKind.ofEvent]
      · cases kind with
        | _ =>
            simp [replay, commitsOf, metadataOf, controlRecords, isControl,
              PendingKind.ofEvent, htarget]

/-! ### What may become of events -/

/-- The record may take the place of an earlier one: of the same surface and scope, labels of labels
and a commit of a commit that maps the surface or not as it does. -/
def Supersedes (new old : Scope × ClientSurfaceEvent) : Prop :=
  new.1 = old.1 ∧ new.2.surface = old.2.surface ∧
    PendingKind.ofEvent new.2 = PendingKind.ofEvent old.2 ∧ isControl new.2 = false

/-- What a record that is superseded may be passed by. -/
def Passes (old later : Scope × ClientSurfaceEvent) : Prop :=
  isControl later.2 = false ∧
    (isCommit old.2 = true → later.2.surface = old.2.surface → isCommit later.2 = false)

/-- What may become of the events that are pushed.  A superseding record carries what it supersedes
and takes its place, or goes to the end. -/
inductive Coalesced : List (Scope × ClientSurfaceEvent) → List (Scope × ClientSurfaceEvent) → Prop
  | nil : Coalesced [] []
  | append {pushed output : List (Scope × ClientSurfaceEvent)} (record : Scope × ClientSurfaceEvent)
      (h : Coalesced pushed output) : Coalesced (pushed ++ [record]) (output ++ [record])
  | inPlace {pushed front back : List (Scope × ClientSurfaceEvent)}
      {new old : Scope × ClientSurfaceEvent} (h : Coalesced pushed (front ++ old :: back))
      (hnew : Supersedes new old) (hcommit : isCommit old.2 = true)
      (hback : ∀ later ∈ back, Passes old later) :
      Coalesced (pushed ++ [new]) (front ++ (new.1, carry new.2 old.2) :: back)
  | moved {pushed front back : List (Scope × ClientSurfaceEvent)}
      {new old : Scope × ClientSurfaceEvent} (h : Coalesced pushed (front ++ old :: back))
      (hnew : Supersedes new old) (hback : ∀ later ∈ back, Passes old later) :
      Coalesced (pushed ++ [new]) (front ++ back ++ [(new.1, carry new.2 old.2)])

/-! ### The commits of a surface -/

/-- A commit that takes over what an earlier one would have shown. -/
def mergeCommit (new old : Scope × ClientSurfaceCommit) : Scope × ClientSurfaceCommit :=
  (new.1, new.2.carryUnobservedContentFrom old.2)

/-- A commit may take over from another of the same scope and mapping; if the source conforms, it
retains only what that one lists. -/
def Continues (conforms : Prop) (old new : Scope × ClientSurfaceCommit) : Prop :=
  old.1 = new.1 ∧ old.2.mapped = new.2.mapped ∧ (conforms → new.2.Keeps old.2)

/-- A commit retains only layers that the surface's previous commit lists, if that one has the same
scope and maps the surface as well or not. -/
def Conforms (records : List (Scope × ClientSurfaceEvent)) : Prop :=
  Each (fun earlier record => ∀ commit, record.2.kind = .commit commit →
    ∀ previous ∈ (commitsOf record.2.surface earlier).getLast?, previous.1 = record.1 →
      previous.2.mapped = commit.mapped → commit.Keeps previous.2) records

/-- What a commit is, apart from its buffers: they may be carried, but not listed. -/
def outline (c : Scope × ClientSurfaceCommit) : Scope × ClientSurfaceCommit × Set SurfaceLayerId :=
  (c.1, c.2.geometry, {layer | c.2.Lists layer})

theorem outline_mergeCommit (new old : Scope × ClientSurfaceCommit) :
    outline (mergeCommit new old) = outline new := by
  simp only [outline, mergeCommit, ClientSurfaceCommit.geometry_carry,
    ClientSurfaceCommit.lists_carry]

variable {new old : Scope × ClientSurfaceEvent} {pushed : List (Scope × ClientSurfaceEvent)}

/-- What supersedes is a commit like the one superseded, or labels like the labels superseded. -/
theorem Supersedes.cases (h : Supersedes new old) :
    (∃ scope surface current previous, new = (scope, ⟨surface, .commit current⟩) ∧
      old = (scope, ⟨surface, .commit previous⟩) ∧ previous.mapped = current.mapped) ∨
    ∃ scope surface current previous, new = (scope, ⟨surface, .metadata current⟩) ∧
      old = (scope, ⟨surface, .metadata previous⟩) := by
  obtain ⟨scope, surface, kind⟩ := new
  obtain ⟨scope', surface', kind'⟩ := old
  obtain ⟨hscope, hsurface, hkind, hcontrol⟩ := h
  obtain rfl : scope = scope' := hscope
  obtain rfl : surface = surface' := hsurface
  cases kind with
  | commit current =>
      cases kind' with
      | commit previous =>
          have hmapped : current.mapped = previous.mapped := PendingKind.commit.inj hkind
          exact Or.inl ⟨scope, surface, current, previous, rfl, rfl, hmapped.symm⟩
      | _ => cases hkind
  | metadata current =>
      cases kind' with
      | metadata previous => exact Or.inr ⟨scope, surface, current, previous, rfl, rfl⟩
      | _ => cases hkind
  | _ => cases hcontrol

variable {surface : ClientSurfaceId} {back : List (Scope × ClientSurfaceEvent)}
  {previous : ClientSurfaceCommit}

theorem commitsOf_passed {scope : Scope}
    (hback : ∀ later ∈ back, Passes (scope, ⟨surface, .commit previous⟩) later) :
    commitsOf surface back = [] := by
  refine List.filterMap_eq_nil_iff.mpr fun later hlater => ?_
  obtain ⟨-, hcommit⟩ := hback later hlater
  obtain ⟨other, target, kind⟩ := later
  cases kind with
  | commit commit =>
      have hne : target ≠ surface := by
        intro htarget
        exact absurd (hcommit rfl htarget) (by simp [isCommit])
      simp [hne]
  | _ => rfl

/-- The commit that takes over, and what it takes over from, seen from one surface. -/
theorem commitsOf_superseded {front : List (Scope × ClientSurfaceEvent)} (h : Supersedes new old)
    (hback : ∀ later ∈ back, Passes old later) :
    (commitsOf surface [new] = [] ∧
        commitsOf surface (front ++ back ++ [(new.1, carry new.2 old.2)]) =
          commitsOf surface (front ++ old :: back) ∧
        commitsOf surface (front ++ (new.1, carry new.2 old.2) :: back) =
          commitsOf surface (front ++ old :: back)) ∨
      ∃ current previous, new = (new.1, ⟨surface, .commit current⟩) ∧ old.1 = new.1 ∧
        previous.mapped = current.mapped ∧
        commitsOf surface [new] = [(new.1, current)] ∧
        commitsOf surface (front ++ old :: back) = commitsOf surface front ++ [(new.1, previous)] ∧
        commitsOf surface (front ++ back ++ [(new.1, carry new.2 old.2)]) =
          commitsOf surface front ++ [mergeCommit (new.1, current) (new.1, previous)] ∧
        commitsOf surface (front ++ (new.1, carry new.2 old.2) :: back) =
          commitsOf surface front ++ [mergeCommit (new.1, current) (new.1, previous)] := by
  have hcons : ∀ record : Scope × ClientSurfaceEvent,
      commitsOf surface (front ++ record :: back) =
        commitsOf surface front ++ (commitsOf surface [record] ++ commitsOf surface back) := by
    intro record
    have happend : front ++ record :: back = front ++ ([record] ++ back) := by simp
    rw [happend, commitsOf_append, commitsOf_append]
  rcases h.cases with ⟨scope, target, current, previous, rfl, rfl, hmapped⟩ |
      ⟨scope, target, current, previous, rfl, rfl⟩
  · by_cases htarget : target = surface
    · subst htarget
      have hnone := commitsOf_passed hback
      refine Or.inr ⟨current, previous, rfl, rfl, hmapped, by simp [commitsOf], ?_, ?_, ?_⟩
      · rw [hcons, hnone]
        simp [commitsOf]
      · rw [commitsOf_append, commitsOf_append, hnone]
        simp [commitsOf, carry, mergeCommit]
      · rw [hcons, hnone]
        simp [commitsOf, carry, mergeCommit]
    · refine Or.inl ⟨by simp [commitsOf, htarget], ?_, ?_⟩
      · rw [commitsOf_append, commitsOf_append, hcons]
        simp [commitsOf, carry, htarget]
      · rw [hcons, hcons]
        simp [commitsOf, carry, htarget]
  · refine Or.inl ⟨by simp [commitsOf], ?_, ?_⟩
    · rw [commitsOf_append, commitsOf_append, hcons]
      simp [commitsOf, carry]
    · rw [hcons, hcons]
      simp [commitsOf, carry]

variable {records more : List (Scope × ClientSurfaceEvent)}

theorem Conforms.of_append (h : Conforms (records ++ more)) : Conforms records :=
  Each.of_append h

/-- The new commit retains only what the kept version of the previous one lists. -/
theorem Conforms.continues {conforms : Prop} {scope : Scope} {current : ClientSurfaceCommit}
    {kept : List (Scope × ClientSurfaceCommit)}
    (hconforms : conforms → Conforms (pushed ++ [(scope, ⟨surface, .commit current⟩)])) (hthinned :
      Thinned (Continues conforms) mergeCommit (commitsOf surface pushed) (kept ++ [(scope,
      previous)])) (hmapped : previous.mapped = current.mapped) :
    Continues conforms (scope, previous) (scope, current) := by
  refine ⟨rfl, hmapped, fun hc update hupdate hretained => ?_⟩
  have hlast := hthinned.getLast?_eq outline_mergeCommit
  cases hpushed : (commitsOf surface pushed).getLast? with
  | none => simp [hpushed] at hlast
  | some latest =>
      rw [hpushed] at hlast
      obtain ⟨hscope, hgeometry, hlists⟩ : scope = latest.1 ∧
          previous.geometry = latest.2.geometry ∧
          {layer | previous.Lists layer} = {layer | latest.2.Lists layer} := by
        simpa [outline] using hlast
      have hmapped' : latest.2.mapped = current.mapped := by
        rw [← hmapped]
        exact (congrArg ClientSurfaceCommit.mapped hgeometry).symm
      have hkeeps := Each.last (hconforms hc) current rfl latest hpushed hscope.symm hmapped'
      have hlisted : update.layer ∈ {layer | previous.Lists layer} := by
        rw [hlists]
        exact hkeeps update hupdate hretained
      exact hlisted

/-- Seen from one surface, the commits are thinned out. -/
theorem Coalesced.thinned {conforms : Prop} {output : List (Scope × ClientSurfaceEvent)}
    (h : Coalesced pushed output) (hconforms : conforms → Conforms pushed)
    (surface : ClientSurfaceId) :
    Thinned (Continues conforms) mergeCommit (commitsOf surface pushed)
      (commitsOf surface output) := by
  induction h with
  | nil => exact Thinned.nil
  | append record h ih =>
      have hbefore := ih fun hc => (hconforms hc).of_append
      rw [commitsOf_append, commitsOf_append]
      rcases hrecord : commitsOf surface [record] with _ | ⟨c, more⟩
      · simpa using hbefore
      · obtain rfl : more = [] := by
          have hlength : (commitsOf surface [record]).length ≤ 1 := List.length_filterMap_le _ _
          rw [hrecord] at hlength
          simpa using hlength
        exact hbefore.append c
  | inPlace h hnew _ hback ih =>
      have hbefore := ih fun hc => (hconforms hc).of_append
      rw [commitsOf_append]
      rcases commitsOf_superseded hnew hback with ⟨hnone, -, heq⟩ |
          ⟨current, previous, hcurrent, -, hmapped, hone, hold, -, heq⟩
      · rw [hnone, List.append_nil, heq]
        exact hbefore
      · rw [hone, heq]
        rw [hold] at hbefore
        rw [hcurrent] at hconforms
        exact hbefore.replace (Conforms.continues hconforms hbefore hmapped)
  | moved h hnew hback ih =>
      have hbefore := ih fun hc => (hconforms hc).of_append
      rw [commitsOf_append]
      rcases commitsOf_superseded hnew hback with ⟨hnone, heq, -⟩ |
          ⟨current, previous, hcurrent, -, hmapped, hone, hold, heq, -⟩
      · rw [hnone, List.append_nil, heq]
        exact hbefore
      · rw [hone, heq]
        rw [hold] at hbefore
        rw [hcurrent] at hconforms
        exact hbefore.replace (Conforms.continues hconforms hbefore hmapped)

/-! ### Labels and records that are never merged -/

theorem Supersedes.not_control (h : Supersedes new old) : isControl old.2 = false := by
  rcases h.cases with ⟨scope, surface, current, previous, rfl, rfl, -⟩ |
    ⟨scope, surface, current, previous, rfl, rfl⟩
  · rfl
  · rfl

theorem Coalesced.controlRecords_eq {output : List (Scope × ClientSurfaceEvent)}
    (h : Coalesced pushed output) : controlRecords output = controlRecords pushed := by
  induction h with
  | nil => rfl
  | append record h ih => rw [controlRecords_append, controlRecords_append, ih]
  | @inPlace pushed front back new old h hnew _ _ ih =>
      have hold := hnew.not_control
      have hlast := hnew.2.2.2
      simp only [controlRecords, List.filter_append, List.filter_cons, isControl_carry, hold,
        hlast] at ih ⊢
      simpa using ih
  | @moved pushed front back new old h hnew _ ih =>
      have hold := hnew.not_control
      have hlast := hnew.2.2.2
      simp only [controlRecords, List.filter_append, List.filter_cons, isControl_carry, hold,
        hlast] at ih ⊢
      simpa using ih

/-- The latest labels that are pushed are the latest that come out. -/
theorem Coalesced.metadata_eq {output : List (Scope × ClientSurfaceEvent)}
    (h : Coalesced pushed output) (surface : ClientSurfaceId) :
    (metadataOf surface output).getLast? = (metadataOf surface pushed).getLast? := by
  have hcons : ∀ (front back : List (Scope × ClientSurfaceEvent)) (record),
      metadataOf surface (front ++ record :: back) =
        metadataOf surface front ++ (metadataOf surface [record] ++ metadataOf surface back) := by
    intro front back record
    have happend : front ++ record :: back = front ++ ([record] ++ back) := by simp
    rw [happend, metadataOf_append, metadataOf_append]
  induction h with
  | nil => rfl
  | append record h ih =>
      rw [metadataOf_append, metadataOf_append, List.getLast?_append, List.getLast?_append, ih]
  | @inPlace pushed front back new old h hnew hcommit _ ih =>
      rcases hnew.cases with ⟨scope, target, current, previous, rfl, rfl, -⟩ |
        ⟨scope, target, current, previous, rfl, rfl⟩
      · have hpushed : metadataOf surface (pushed ++ [(scope, ⟨target, .commit current⟩)]) =
            metadataOf surface pushed := by
          rw [metadataOf_append]
          exact List.append_nil _
        rw [hpushed, ← ih, hcons, hcons]
        rfl
      · cases hcommit
  | @moved pushed front back new old h hnew _ ih =>
      have hmoved : metadataOf surface (front ++ back ++ [(new.1, carry new.2 old.2)]) =
          metadataOf surface front ++ metadataOf surface back ++
            metadataOf surface [(new.1, carry new.2 old.2)] := by
        rw [metadataOf_append, metadataOf_append]
      rcases hnew.cases with ⟨scope, target, current, previous, rfl, rfl, -⟩ |
        ⟨scope, target, current, previous, rfl, rfl⟩
      · have hpushed : metadataOf surface (pushed ++ [(scope, ⟨target, .commit current⟩)]) =
            metadataOf surface pushed := by
          rw [metadataOf_append]
          exact List.append_nil _
        rw [hpushed, ← ih, hmoved, hcons]
        simp [metadataOf, carry]
      · have hpushed : metadataOf surface (pushed ++ [(scope, ⟨target, .metadata current⟩)]) =
            metadataOf surface pushed ++
              metadataOf surface [(scope, ⟨target, .metadata current⟩)] :=
          metadataOf_append _ _ _
        rw [hpushed, hmoved]
        by_cases htarget : target = surface
        · -- other labels may remain, but these come last
          simp [metadataOf, carry, htarget]
        · simpa [metadataOf, carry, htarget] using ih

/-! ### Between the records that are never merged -/

/-- A record that is never merged comes out between what was pushed before and after it. -/
theorem Coalesced.split {output : List (Scope × ClientSurfaceEvent)} (h : Coalesced pushed output)
    {before after : List (Scope × ClientSurfaceEvent)} {control : Scope × ClientSurfaceEvent}
    (hpushed : pushed = before ++ control :: after) (hcontrol : isControl control.2 = true) :
    ∃ earlier later, output = earlier ++ control :: later ∧ Coalesced before earlier ∧
      Coalesced after later := by
  induction h generalizing after with
  | nil => simp at hpushed
  | @append pushed output record h ih =>
      rcases List.eq_nil_or_concat' after with rfl | ⟨after, last, rfl⟩
      · obtain ⟨rfl, hlast⟩ := List.append_inj' hpushed rfl
        obtain rfl : record = control := by simpa using hlast
        exact ⟨output, [], rfl, h, Coalesced.nil⟩
      · have hpushed' : pushed ++ [record] = (before ++ control :: after) ++ [last] := by
          simpa using hpushed
        obtain ⟨rfl, hlast⟩ := List.append_inj' hpushed' rfl
        obtain rfl : record = last := by simpa using hlast
        obtain ⟨earlier, later, rfl, hearlier, hlater⟩ := ih rfl
        exact ⟨earlier, later ++ [record], by simp, hearlier, hlater.append record⟩
  | @inPlace pushed front back new old h hnew hcommit hback ih =>
      obtain ⟨after, rfl, hinside⟩ := superseded_inside hnew hcontrol hpushed
      obtain ⟨earlier, later, hkept, hearlier, hlater⟩ := ih hinside
      obtain ⟨middle, rfl, rfl⟩ := passed_inside hnew hback hcontrol hkept
      refine ⟨earlier, middle ++ (new.1, carry new.2 old.2) :: back, by simp, hearlier, ?_⟩
      exact hlater.inPlace hnew hcommit hback
  | @moved pushed front back new old h hnew hback ih =>
      obtain ⟨after, rfl, hinside⟩ := superseded_inside hnew hcontrol hpushed
      obtain ⟨earlier, later, hkept, hearlier, hlater⟩ := ih hinside
      obtain ⟨middle, rfl, rfl⟩ := passed_inside hnew hback hcontrol hkept
      refine ⟨earlier, middle ++ back ++ [(new.1, carry new.2 old.2)], by simp, hearlier, ?_⟩
      exact hlater.moved hnew hback
where
  /-- What supersedes comes after the record. -/
  superseded_inside {pushed before after : List (Scope × ClientSurfaceEvent)}
      {control new old : Scope × ClientSurfaceEvent} (hnew : Supersedes new old)
      (hcontrol : isControl control.2 = true)
      (hpushed : pushed ++ [new] = before ++ control :: after) :
      ∃ rest, after = rest ++ [new] ∧ pushed = before ++ control :: rest := by
    rcases List.eq_nil_or_concat' after with rfl | ⟨rest, last, rfl⟩
    · obtain ⟨-, hlast⟩ := List.append_inj' hpushed rfl
      obtain rfl : new = control := by simpa using hlast
      rw [hnew.2.2.2] at hcontrol
      cases hcontrol
    · have hpushed' : pushed ++ [new] = (before ++ control :: rest) ++ [last] := by
        simpa using hpushed
      obtain ⟨rfl, hlast⟩ := List.append_inj' hpushed' rfl
      obtain rfl : new = last := by simpa using hlast
      exact ⟨rest, rfl, rfl⟩
  /-- What is superseded comes after the record as well. -/
  passed_inside {front back earlier later : List (Scope × ClientSurfaceEvent)}
      {control new old : Scope × ClientSurfaceEvent} (hnew : Supersedes new old)
      (hback : ∀ other ∈ back, Passes old other) (hcontrol : isControl control.2 = true)
      (hkept : front ++ old :: back = earlier ++ control :: later) :
      ∃ middle, front = earlier ++ control :: middle ∧ later = middle ++ old :: back := by
    rcases List.append_eq_append_iff.mp hkept with ⟨between, rfl, hrest⟩ | ⟨between, rfl, hrest⟩
    · cases between with
      | nil =>
          obtain ⟨rfl, -⟩ := List.cons_eq_cons.mp hrest
          rw [hnew.not_control] at hcontrol
          cases hcontrol
      | cons other between =>
          -- the record would have been passed
          obtain ⟨-, rfl⟩ := List.cons_eq_cons.mp hrest
          have hpassed := (hback control (by simp)).1
          rw [hpassed] at hcontrol
          cases hcontrol
    · cases between with
      | nil =>
          obtain ⟨rfl, -⟩ := List.cons_eq_cons.mp hrest
          rw [hnew.not_control] at hcontrol
          cases hcontrol
      | cons other between =>
          obtain ⟨rfl, rfl⟩ := List.cons_eq_cons.mp hrest
          exact ⟨between, by simp, by simp⟩

/-! ### The same meaning -/

/-- What comes out means the same as what was pushed: to any consumer, for every surface; mappings
and scopes change in the same order; every record that is never merged comes out once, in order; and
every commit that comes out was pushed, in order. -/
structure SameMeaning [DecidableEq Scope] (pushed output : List (Scope × ClientSurfaceEvent)) :
    Prop where
  replay : ∀ surface known, replay surface output known = replay surface pushed known
  flips : ∀ surface, transitions ((commitsOf surface output).map fun c => (c.1, c.2.mapped)) =
    transitions ((commitsOf surface pushed).map fun c => (c.1, c.2.mapped))
  controls : controlRecords output = controlRecords pushed
  commits : ∀ surface,
    ((commitsOf surface output).map fun c => (c.1, c.2.geometry)).Sublist
      ((commitsOf surface pushed).map fun c => (c.1, c.2.geometry))

/-- **Coalesced events mean the same.** -/
theorem Coalesced.sameMeaning [DecidableEq Scope] {output : List (Scope × ClientSurfaceEvent)}
    (h : Coalesced pushed output) (hconforms : Conforms pushed) : SameMeaning pushed output := by
  have hthinned := h.thinned fun _ : True => hconforms
  have hgeometry : ∀ new old : Scope × ClientSurfaceCommit,
      ((mergeCommit new old).1, (mergeCommit new old).2.geometry) = (new.1, new.2.geometry) :=
    fun _ _ => rfl
  refine ⟨fun surface known => ?_, fun surface => ?_, h.controlRecords_eq, fun surface => ?_⟩
  · have hcontents : (commitsOf surface output).foldl (fun shown c => c.2.contents shown)
          known.contents =
        (commitsOf surface pushed).foldl (fun shown c => c.2.contents shown) known.contents := by
      refine Thinned.foldl_eq ?_ ?_ (hthinned surface) _
      · rintro old new ⟨-, -, hkeeps⟩ shown
        exact ClientSurfaceCommit.contents_carry (hkeeps trivial) shown
      · intro shown c
        exact c.2.contents_again shown
    have hlast : (commitsOf surface output).getLast?.map (fun c => c.2.geometry) =
        (commitsOf surface pushed).getLast?.map (fun c => c.2.geometry) := by
      refine Thinned.getLast?_eq ?_ (hthinned surface)
      exact fun _ _ => rfl
    rw [replay_eq, replay_eq, hcontents, hlast, h.metadata_eq, h.controlRecords_eq]
  · have hmapping : ∀ new old : Scope × ClientSurfaceCommit,
        ((mergeCommit new old).1, (mergeCommit new old).2.mapped) = (new.1, new.2.mapped) :=
      fun _ _ => rfl
    refine (hthinned surface).transitions_eq ?_ hmapping
    rintro old new ⟨hscope, hmapped, -⟩
    rw [hscope, hmapped]
  · exact (hthinned surface).sublist hgeometry

theorem Conforms.of_append_right (h : Conforms (records ++ more)) : Conforms more := by
  intro earlier record later hmore commit hcommit previous hprevious hscope hmapped
  refine h (records ++ earlier) record later (by rw [hmore, List.append_assoc]) commit hcommit
    previous ?_ hscope hmapped
  rw [commitsOf_append, List.getLast?_append, Option.mem_def.mp hprevious]
  rfl

/-! ### What the queue does -/

section Queue

variable [DecidableEq Scope]

theorem zipIdx_reverse_concat {α : Type} (records : List α) (record : α) :
    (records ++ [record]).zipIdx.reverse = (record, records.length) :: records.zipIdx.reverse := by
  rw [List.zipIdx_append, List.reverse_append]
  simp

variable {scope : Scope} {events : List (PendingEvent Scope)} {index : ℕ}

/-- A commit takes the place of the surface's last commit, if that one maps it alike in the same
scope and nothing stands in between that may not be passed. -/
theorem planCommit_some {mapped : Bool}
    (h : (planCommit scope surface mapped events.zipIdx.reverse).replacement = some index) :
    ∃ front record back, events = front ++ record :: back ∧ front.length = index ∧
      record.scope = scope ∧ record.event.surface = surface ∧
      PendingKind.ofEvent record.event = .commit mapped ∧
      ∀ later ∈ back, isControl later.event = false ∧
        (later.event.surface = surface → isCommit later.event = false) := by
  induction events using List.reverseRecOn with
  | nil => simp [planCommit] at h
  | append_singleton events record ih =>
      rw [zipIdx_reverse_concat, planCommit] at h
      have hpassed : isControl record.event = false →
          (record.event.surface = surface → isCommit record.event = false) →
          (planCommit scope surface mapped events.zipIdx.reverse).replacement = some index →
          ∃ front found back, events ++ [record] = front ++ found :: back ∧
            front.length = index ∧ found.scope = scope ∧ found.event.surface = surface ∧
            PendingKind.ofEvent found.event = .commit mapped ∧
            ∀ later ∈ back, isControl later.event = false ∧
              (later.event.surface = surface → isCommit later.event = false) := by
        intro hcontrol hcommit hearlier
        obtain ⟨front, found, back, rfl, hlength, hscope, hsurface, hkind, hback⟩ := ih hearlier
        refine ⟨front, found, back ++ [record], by simp, hlength, hscope, hsurface, hkind, ?_⟩
        intro later hlater
        rcases List.mem_append.mp hlater with hlater | hlater
        · exact hback later hlater
        · rw [List.mem_singleton.mp hlater]
          exact ⟨hcontrol, hcommit⟩
      cases hkind : PendingKind.ofEvent record.event with
      | metadata =>
          rw [hkind] at h
          refine hpassed (by simp [isControl, hkind]) (fun _ => ?_) h
          cases hevent : record.event.kind with
          | commit commit => simp [PendingKind.ofEvent, hevent] at hkind
          | _ => simp [isCommit, hevent]
      | control =>
          rw [hkind] at h
          cases h
      | commit previous =>
          rw [hkind] at h
          simp only at h
          split_ifs at h with hsurface hcompatible hbarrier
          · cases h
            obtain ⟨hscope, hmapped⟩ : record.scope = scope ∧ previous = mapped := by
              simpa using hcompatible
            exact ⟨events, record, [], rfl, rfl, hscope, hsurface, by rw [hkind, hmapped],
              fun later hlater => absurd hlater List.not_mem_nil⟩
          · exact hpassed (by simp [isControl, hkind]) (fun hsame => absurd hsame hsurface) h

/-- Labels take the place of labels of the surface in the same scope. -/
theorem planMetadata_some
    (h : (planMetadata scope surface events.zipIdx.reverse).replacement = some index) :
    ∃ front record back, events = front ++ record :: back ∧ front.length = index ∧
      record.scope = scope ∧ record.event.surface = surface ∧
      PendingKind.ofEvent record.event = .metadata ∧
      ∀ later ∈ back, isControl later.event = false := by
  induction events using List.reverseRecOn with
  | nil => simp [planMetadata] at h
  | append_singleton events record ih =>
      rw [zipIdx_reverse_concat, planMetadata] at h
      split_ifs at h with hsame hstop
      · cases h
        exact ⟨events, record, [], rfl, rfl, hsame.1, hsame.2.1, hsame.2.2,
          fun later hlater => absurd hlater List.not_mem_nil⟩
      · rw [not_or] at hstop
        obtain ⟨front, found, back, rfl, hlength, hscope, hsurface, hkind, hback⟩ := ih h
        refine ⟨front, found, back ++ [record], by simp, hlength, hscope, hsurface, hkind, ?_⟩
        intro later hlater
        rcases List.mem_append.mp hlater with hlater | hlater
        · exact hback later hlater
        · rw [List.mem_singleton.mp hlater]
          exact decide_eq_false hstop.2

/-- What a new event takes the place of. -/
theorem plan_some {event : ClientSurfaceEvent}
    (h : (plan scope event events).replacement = some index) :
    ∃ front record back, events = front ++ record :: back ∧ front.length = index ∧
      Supersedes (scope, event) (record.scope, record.event) ∧
      ∀ later ∈ back, Passes (record.scope, record.event) (later.scope, later.event) := by
  unfold plan at h
  cases hkind : PendingKind.ofEvent event with
  | control =>
      rw [hkind] at h
      cases h
  | commit mapped =>
      rw [hkind] at h
      obtain ⟨front, record, back, hevents, hlength, hscope, hsurface, hrecord, hback⟩ :=
        planCommit_some h
      refine ⟨front, record, back, hevents, hlength, ⟨hscope.symm, hsurface.symm, ?_, ?_⟩, ?_⟩
      · rw [hkind, hrecord]
      · simp [isControl, hkind]
      · intro later hlater
        obtain ⟨hcontrol, hcommit⟩ := hback later hlater
        exact ⟨hcontrol, fun _ hsame => hcommit (hsame.trans hsurface)⟩
  | metadata =>
      rw [hkind] at h
      obtain ⟨front, record, back, hevents, hlength, hscope, hsurface, hrecord, hback⟩ :=
        planMetadata_some h
      refine ⟨front, record, back, hevents, hlength, ⟨hscope.symm, hsurface.symm, ?_, ?_⟩, ?_⟩
      · rw [hkind, hrecord]
      · simp [isControl, hkind]
      · intro later hlater
        refine ⟨hback later hlater, fun hcommit => ?_⟩
        -- labels are no commit
        cases hevent : record.event.kind with
        | commit commit => simp [PendingKind.ofEvent, hevent] at hrecord
        | _ => simp [isCommit, hevent] at hcommit

/-- **A push coalesces.** -/
theorem Coalesced.push {popped : List (Scope × ClientSurfaceEvent)} {q : PendingClientEvents Scope}
    (h : Coalesced pushed (popped ++ q.records)) (scope : Scope) (event : ClientSurfaceEvent) :
    Coalesced (pushed ++ [(scope, event)]) (popped ++ (q.push scope event).records) := by
  unfold PendingClientEvents.push PendingClientEvents.insert
  cases hplan : (plan scope event q.events).replacement with
  | none =>
      simp only [Option.bind_none, records, List.map_append]
      rw [← List.append_assoc]
      exact h.append (scope, event)
  | some index =>
      obtain ⟨front, record, back, hevents, rfl, hnew, hback⟩ := plan_some hplan
      have hget : q.events[front.length]? = some record := by
        rw [hevents]
        simp
      have hrecords : popped ++ q.records =
          (popped ++ front.map fun p => (p.scope, p.event)) ++ (record.scope, record.event) ::
            back.map fun p => (p.scope, p.event) := by
        simp [records, hevents]
      rw [hrecords] at h
      have hpasses : ∀ later ∈ back.map fun p => (p.scope, p.event),
          Passes (record.scope, record.event) later := by
        intro later hlater
        obtain ⟨p, hp, rfl⟩ := List.mem_map.mp hlater
        exact hback p hp
      simp only [Option.bind_some, hget, Option.map_some]
      split_ifs with hbarrier
      · -- a mapping keeps its place
        simp only [Bool.and_eq_true] at hbarrier
        have hin := h.inPlace hnew hbarrier.2 hpasses
        simpa [records, hevents] using hin
      · have hmoved := h.moved hnew hpasses
        simpa [records, hevents, List.eraseIdx_append_of_length_le] using hmoved

end Queue

/-! ### Whole runs -/

section Runs

variable [DecidableEq Scope]

inductive PendingCall (Scope : Type)
  | push (scope : Scope) (event : ClientSurfaceEvent)
  | tryPush (scope : Scope) (event : ClientSurfaceEvent) (limit : ℕ)
  | popFront

/-- A queue, what it accepted and what was taken from it. -/
structure PendingRun (Scope : Type) where
  queue : PendingClientEvents Scope := {}
  pushed : List (Scope × ClientSurfaceEvent) := []
  popped : List (Scope × ClientSurfaceEvent) := []

namespace PendingRun

/-- What was taken, and what would be taken next. -/
def output (r : PendingRun Scope) : List (Scope × ClientSurfaceEvent) := r.popped ++ r.queue.records

def step (r : PendingRun Scope) : PendingCall Scope → PendingRun Scope
  | .push scope event =>
      { r with queue := r.queue.push scope event, pushed := r.pushed ++ [(scope, event)] }
  | .tryPush scope event limit =>
      match r.queue.tryPush scope event limit with
      | (queue, .ok _) => { r with queue := queue, pushed := r.pushed ++ [(scope, event)] }
      | (queue, .error _) => { r with queue := queue }
  | .popFront =>
      { r with queue := r.queue.popFront.1, popped := r.popped ++ r.queue.front.toList }

end PendingRun

/-- The two ways a push with a limit ends. -/
theorem PendingClientEvents.tryPush_cases (q : PendingClientEvents Scope) (scope : Scope)
    (event : ClientSurfaceEvent) (limit : ℕ) :
    ((∃ update, q.tryPush scope event limit = (q.push scope event, .ok update)) ∧
        ((plan scope event q.events).replacement.isSome = true ∨ q.events.length < limit)) ∨
      (q.tryPush scope event limit = (q, .error (scope, event)) ∧
        (plan scope event q.events).replacement = none ∧ limit ≤ q.events.length) := by
  unfold tryPush
  simp only [Bool.and_eq_true, decide_eq_true_eq, Option.isNone_iff_eq_none]
  split_ifs with hfull
  · exact Or.inr ⟨rfl, hfull⟩
  · refine Or.inl ⟨⟨_, rfl⟩, ?_⟩
    rw [not_and_or, not_le] at hfull
    exact hfull.imp Option.isSome_iff_ne_none.mpr id

omit [DecidableEq Scope] in
theorem PendingClientEvents.popFront_records (q : PendingClientEvents Scope) :
    q.front.toList ++ q.popFront.1.records = q.records := by
  obtain ⟨events⟩ := q
  cases events with
  | nil | cons => rfl

/-- One call keeps what comes out a coalescing of what was pushed. -/
theorem coalesced_step {r : PendingRun Scope} (h : Coalesced r.pushed r.output)
    (call : PendingCall Scope) : Coalesced (r.step call).pushed (r.step call).output := by
  cases call with
  | push scope event => exact h.push scope event
  | tryPush scope event limit =>
      rcases r.queue.tryPush_cases scope event limit with ⟨⟨update, heq⟩, -⟩ | ⟨heq, -⟩
      · rw [PendingRun.step, heq]
        exact h.push scope event
      · rw [PendingRun.step, heq]
        exact h
  | popFront =>
      have houtput : (r.step .popFront).output = r.output := by
        rw [PendingRun.output, PendingRun.step, List.append_assoc, popFront_records]
        rfl
      rw [houtput]
      exact h

end Runs

end Client
