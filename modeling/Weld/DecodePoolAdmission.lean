/-
**How a job is admitted to the decode pool.**

A request is turned away, or a worker is found or started for it and it is sent.  A request that is
about to be sent was admitted, and neither its generation nor its worker can be lost before: only the
owner of the pool gives work to it, and it waits for the answer.

Main definitions: `DecodePool.SameJobs`.

Main results:

* `DecodePool.SameJobs.poolOk` — what such a step keeps;
* `DecodePool.PoolOk.tryDecode`, `PoolOk.accept` — what is agreed on after a request.
-/

import Weld.DecodePoolInvariant

namespace Media

open DecodeJob

section

variable {R O : Type} [DecodeJob R]

/-- The pool is between two retirements, or does not send any. -/
def PoolPhase.isQuiet : PoolPhase R → Bool
  | .signalling .. | .waking .. | .unsetting .. => false
  | _ => true

namespace DecodePool

variable {s t : DecodePool R O}

/-- Only answers are recorded. -/
def OnlyAnswers (entries : List (PoolEntry R)) : Prop :=
  ∀ entry ∈ entries, ∃ answer, entry = .answered answer

variable {α : Type} {entries : List (PoolEntry R)} {failure : PoolFailure}

omit [DecodeJob R] in
theorem filterMap_answers (f : PoolEntry R → Option α) (hf : ∀ answer, f (.answered answer) = none)
    (h : OnlyAnswers entries) : entries.filterMap f = [] := by
  rw [List.filterMap_eq_nil_iff]
  intro entry hentry
  obtain ⟨answer, rfl⟩ := h entry hentry
  exact hf answer

/-! ### Steps that touch no job -/

/-- Two states with the same jobs, the same generations at the same workers, and the same record but
for answers. -/
structure SameJobs (s t : DecodePool R O) : Prop where
  limits : t.limits = s.limits
  present : t.workers.length = s.workers.length
  jobs : ∀ worker, t.jobsOf worker = s.jobsOf worker
  count : t.jobCount = s.jobCount
  events : t.events = s.events
  size : t.generations.size = s.generations.size
  assigned : ∀ key, (t.generations.lookup key).map (·.worker) =
    (s.generations.lookup key).map (·.worker)
  records : ∀ f : PoolEntry R → Option ℕ, (∀ answer, f (.answered answer) = none) →
    t.log.filterMap f = s.log.filterMap f
  keys : ∀ f : PoolEntry R → Option GenerationKey, (∀ answer, f (.answered answer) = none) →
    t.log.filterMap f = s.log.filterMap f

variable {worker : ℕ} (key : GenerationKey)

namespace SameJobs

section

variable (e : SameJobs s t)
include e

omit [DecodeJob R] in
theorem accepted (worker : ℕ) : t.accepted worker = s.accepted worker :=
  e.records _ fun _ => rfl

omit [DecodeJob R] in
theorem completed (worker : ℕ) : t.completed worker = s.completed worker :=
  e.records _ fun _ => rfl

omit [DecodeJob R] in
theorem submitted (worker : ℕ) : t.submitted worker = s.submitted worker :=
  e.records _ fun _ => rfl

omit [DecodeJob R] in
theorem calls : t.calls key = s.calls key :=
  congrArg (List.count key) (e.keys _ fun _ => rfl)

omit [DecodeJob R] in
theorem releases : t.releases key = s.releases key :=
  congrArg (List.count key) (e.keys _ fun _ => rfl)

omit [DecodeJob R] in
theorem ownerships : t.ownerships key = s.ownerships key :=
  congrArg (List.count key) (e.keys _ fun _ => rfl)

omit [DecodeJob R] in
theorem eventsOf (worker : ℕ) : t.eventsOf worker = s.eventsOf worker := by
  unfold DecodePool.eventsOf
  rw [e.events]

variable {key : GenerationKey} {generation : Generation}

omit [DecodeJob R] in
/-- A generation that is owned after the step was owned before it, at the same worker. -/
theorem before (h : t.generations.lookup key = some generation) : ∃ generation',
      s.generations.lookup key = some generation' ∧ generation'.worker = generation.worker := by
  have hworker := e.assigned key
  rw [h] at hworker
  obtain ⟨generation', hlookup, hsame⟩ := Option.map_eq_some_iff.mp hworker.symm
  exact ⟨generation', hlookup, hsame⟩

omit [DecodeJob R] in
theorem after (h : s.generations.lookup key = some generation) : ∃ generation',
      t.generations.lookup key = some generation' ∧ generation'.worker = generation.worker := by
  have hworker := e.assigned key
  rw [h] at hworker
  obtain ⟨generation', hlookup, hsame⟩ := Option.map_eq_some_iff.mp hworker
  exact ⟨generation', hlookup, hsame⟩

omit [DecodeJob R] in
theorem mem_iff (key : GenerationKey) : key ∈ t.generations ↔ key ∈ s.generations := by
  rw [← AList.lookup_isSome, ← AList.lookup_isSome, ← Option.isSome_map (f := (·.worker)),
    e.assigned, Option.isSome_map]

/-- What does not depend on the workers stays. -/
theorem poolOk (h : s.PoolOk)
    (hworkers : ∀ worker w, t.workers[worker]? = some w → t.WorkerOk worker w)
    (hretirements : ∀ worker w, t.workers[worker]? = some w → t.RetirementsOk worker w) (hfree : ∀
      key generation, t.generations.lookup key = some generation → generation.retirementSent = true →
      ∀ job ∈ s.jobsOf generation.worker, job.key ≠ key) (hdue : t.failure = none → ∀ key generation,
      t.generations.lookup key = some generation → generation.retiring = true →
      generation.retirementSent = false → (∃ job ∈ s.jobsOf generation.worker, job.key = key) ∨
      t.phase.sweeps key)
    (hoffer : ∀ request worker, t.phase = .offering request worker → t.OfferOk request worker) (honce
      : ∀ key, s.calls key = s.releases key ∨ s.calls key = s.releases key + 1 ∧ ∃ generation,
      t.generations.lookup key = some generation ∧ generation.retiring = true ∧
      generation.retirementSent = true ∧ ∀ w, t.workers[generation.worker]? = some w → key ∉ w.keys
      ++ w.phase.hand) (hnever : ∀ worker rest caller, t.phase ≠ .unsetting worker rest caller)
      (hexpected : ∀ failure, t.failure = some failure ∨ t.terminalFailure = some failure → failure ≠
      .unexpectedToken ∧ failure ≠ .unexpectedAcknowledgement) : t.PoolOk where
  workers := hworkers
  retirements := hretirements
  workers_le := by
    rw [e.present, e.limits]
    exact h.workers_le
  jobs_le := by
    rw [e.count, e.limits]
    exact h.jobs_le
  generations_le := by
    rw [e.size, e.limits]
    exact h.generations_le
  assigned := by
    intro key generation hlookup
    obtain ⟨generation', hlookup', hworker⟩ := e.before hlookup
    rw [e.present, ← hworker]
    exact h.assigned key generation' hlookup'
  affine := by
    intro key₁ generation₁ key₂ generation₂ hlookup₁ hlookup₂ hstream
    obtain ⟨generation₁', hlookup₁', hworker₁⟩ := e.before hlookup₁
    obtain ⟨generation₂', hlookup₂', hworker₂⟩ := e.before hlookup₂
    rw [← hworker₁, ← hworker₂]
    exact h.affine key₁ generation₁' key₂ generation₂' hlookup₁' hlookup₂' hstream
  owned := by
    intro worker job hjob
    rw [e.jobs] at hjob
    obtain ⟨generation, hlookup, hworker⟩ := h.owned worker job hjob
    obtain ⟨generation', hlookup', hworker'⟩ := e.after hlookup
    exact ⟨generation', hlookup', hworker'.trans hworker⟩
  free := by
    intro key generation hlookup hsent job hjob
    rw [e.jobs] at hjob
    exact hfree key generation hlookup hsent job hjob
  known := by
    rw [e.events, e.present]
    exact h.known
  due := by
    intro hfailure key generation hlookup hretiring hsent
    rw [e.jobs]
    exact hdue hfailure key generation hlookup hretiring hsent
  offer := hoffer
  once := by
    intro key
    rw [e.calls, e.releases]
    exact honce key
  ownerships := by
    intro key
    rw [e.ownerships, e.releases, if_congr (e.mem_iff key) rfl rfl]
    exact h.ownerships key
  unrecorded := by
    intro worker hworker
    rw [e.present] at hworker
    rw [e.accepted, e.completed, e.submitted]
    exact h.unrecorded worker hworker
  never := hnever
  expected := hexpected

omit [DecodeJob R] in
/-- A worker that the step leaves alone. -/
theorem agrees (hwakes : t.phase.wakes worker = s.phase.wakes worker)
    (hsignals : t.phase.signals worker = s.phase.signals worker)
    (hfailure : s.failure.isSome = true → t.failure.isSome = true) : Agrees s t worker :=
  ⟨e.limits, e.eventsOf worker, hwakes, hsignals, hfailure, e.accepted worker, e.completed worker,
    e.submitted worker⟩

end

end SameJobs

variable {phase : PoolPhase R} {spawns : Bool}

omit [DecodeJob R] in
theorem wakes_of_isQuiet (h : phase.isQuiet = true) (worker : ℕ) : phase.wakes worker = 0 := by
  cases phase with
  | waking worker' rest caller => cases h
  | _ => rfl

omit [DecodeJob R] in
theorem signals_of_isQuiet (h : phase.isQuiet = true) (worker : ℕ) :
    phase.signals worker = false := by
  cases phase with
  | signalling worker' rest caller => cases h
  | _ => rfl

/-! ### Answers -/

/-- The pool goes on to another phase, or answers. -/
theorem PoolOk.rephase (h : s.PoolOk)
    {failure terminalFailure : Option PoolFailure}
    (hentries : OnlyAnswers entries) (hold : s.phase.isQuiet = true)
    (hnew : phase.isQuiet = true) (hfailure : s.failure.isSome = true → failure.isSome = true)
    (hdue : failure = none → ∀ key generation, s.generations.lookup key = some generation →
      generation.retiring = true → generation.retirementSent = false →
        (∃ job ∈ s.jobsOf generation.worker, job.key = key) ∨ phase.sweeps key)
    (hoffer : ∀ request worker, phase = .offering request worker → s.OfferOk request worker)
    (hexpected : ∀ f, failure = some f ∨ terminalFailure = some f →
      f ≠ .unexpectedToken ∧ f ≠ .unexpectedAcknowledgement) :
    ({ s with phase, failure, terminalFailure, log := s.log ++ entries } :
      DecodePool R O).PoolOk := by
  have hsame : SameJobs s { s with phase, failure, terminalFailure, log := s.log ++ entries } := by
    refine ⟨rfl, rfl, fun _ => rfl, rfl, rfl, rfl, fun _ => rfl, ?_, ?_⟩
    · intro f hf
      rw [List.filterMap_append, filterMap_answers f hf hentries, List.append_nil]
    · intro f hf
      rw [List.filterMap_append, filterMap_answers f hf hentries, List.append_nil]
  refine hsame.poolOk h ?_ ?_ h.free hdue ?_ h.once ?_ hexpected
  · intro worker w hw
    refine (h.workers worker w hw).congr (hsame.agrees ?_ ?_ hfailure)
    · rw [wakes_of_isQuiet hold]
      exact wakes_of_isQuiet hnew worker
    · rw [signals_of_isQuiet hold]
      exact signals_of_isQuiet hnew worker
  · intro worker w hw
    exact (h.retirements worker w hw).same rfl rfl rfl rfl
      fun key _ => ⟨hsame.calls key, hsame.releases key⟩
  · intro request worker hphase
    obtain ⟨hpresent, hroom, hjobs, hlively, hgenerations, haffine⟩ := hoffer request worker hphase
    exact ⟨hpresent, hroom, hjobs, hlively, hgenerations, haffine⟩
  · rintro worker rest caller rfl
    cases hnew

/-- The pool goes on to another phase. -/
theorem PoolOk.goTo (h : s.PoolOk) (phase : PoolPhase R) (hold : s.phase.isQuiet = true)
    (hnew : phase.isQuiet = true)
    (hdue : s.failure = none → ∀ key generation, s.generations.lookup key = some generation →
      generation.retiring = true → generation.retirementSent = false →
        (∃ job ∈ s.jobsOf generation.worker, job.key = key) ∨ phase.sweeps key)
    (hoffer : ∀ request worker, phase = .offering request worker → s.OfferOk request worker) :
    ({ s with phase } : DecodePool R O).PoolOk := by
  have hnone : OnlyAnswers ([] : List (PoolEntry R)) := fun _ hentry =>
    absurd hentry List.not_mem_nil
  have hafter := h.rephase hnone hold hnew id hdue hoffer h.expected
  rwa [List.append_nil] at hafter

omit [DecodeJob R] in
theorem onlyAnswers_singleton (answer : PoolAnswer R) : OnlyAnswers [.answered answer] :=
  fun _ hentry => ⟨answer, List.mem_singleton.mp hentry⟩

/-- What is due when nothing is left to be considered. -/
theorem PoolOk.due_of_done (h : s.PoolOk) (hfailure : s.failure = none)
    (hdone : s.failure = none → ∀ key, ¬ s.phase.sweeps key) (key : GenerationKey)
    (generation : Generation) (hlookup : s.generations.lookup key = some generation)
    (hretiring : generation.retiring = true) (hsent : generation.retirementSent = false) :
    (∃ job ∈ s.jobsOf generation.worker, job.key = key) ∨ phase.sweeps key := by
  rcases h.due hfailure key generation hlookup hretiring hsent with hjob | hsweeps
  · exact Or.inl hjob
  · exact absurd hsweeps (hdone hfailure key)

/-- The pool answers when nothing is left to be considered. -/
theorem PoolOk.answer (h : s.PoolOk) (hquiet : s.phase.isQuiet = true)
    (hdone : s.failure = none → ∀ key, ¬ s.phase.sweeps key) (answer : PoolAnswer R) :
    (s.answer answer).PoolOk :=
  h.rephase (onlyAnswers_singleton answer) hquiet rfl id
    (fun hfailure => h.due_of_done hfailure hdone) (fun _ _ hphase => by cases hphase) h.expected

theorem PoolOk.finish (h : s.PoolOk) (hquiet : s.phase.isQuiet = true)
    (hdone : s.failure = none → ∀ key, ¬ s.phase.sweeps key) (caller : SweepCaller) :
    (s.finish caller).PoolOk := by
  cases caller with
  | retire => exact h.answer hquiet hdone .retired
  | drain =>
      refine h.rephase (onlyAnswers_singleton _) hquiet rfl id
        (fun hfailure => h.due_of_done hfailure hdone) (fun _ _ hphase => by cases hphase) ?_
      rintro f (hf | hf)
      · exact h.expected f (Or.inl hf)
      · cases hf

/-- The pool fails for a reason that is to be expected. -/
theorem PoolOk.fail (h : s.PoolOk) (hquiet : s.phase.isQuiet = true)
    (hfailure : failure ≠ .unexpectedToken ∧ failure ≠ .unexpectedAcknowledgement) :
    (s.fail failure).PoolOk := by
  unfold DecodePool.fail
  split_ifs with hnone
  · have hentries : OnlyAnswers ([] : List (PoolEntry R)) := fun _ hentry =>
      absurd hentry List.not_mem_nil
    have hafter : ({ s with
        failure := some failure
        terminalFailure := some failure
        log := s.log ++ [] } : DecodePool R O).PoolOk :=
      h.rephase hentries hquiet hquiet (fun _ => rfl) (fun hfailed => by cases hfailed) h.offer (by
        rintro f (hf | hf) <;> cases hf <;> exact hfailure)
    rwa [List.append_nil] at hafter
  · exact h

/-! ### Admission -/

theorem getElem?_spawn (l : List α) (a : α) (i : ℕ) :
    (l ++ [a])[i]? = if i = l.length then some a else l[i]? := by
  rw [List.getElem?_append]
  rcases Nat.lt_trichotomy i l.length with hlt | heq | hgt
  · rw [if_pos hlt, if_neg (by omega)]
  · rw [heq, if_neg (by omega), if_pos rfl, Nat.sub_self]
    rfl
  · rw [if_neg (by omega), if_neg (by omega), List.getElem?_eq_none (by simp; omega),
      List.getElem?_eq_none (by omega)]

/-- **A worker is started**, and has nothing yet. -/
theorem PoolOk.spawn (h : s.PoolOk) (hquiet : s.phase.isQuiet = true)
    (hroom : s.workers.length < s.limits.maxWorkers) (hoffer : s.phase = .idle) :
    ({ s with workers := s.workers ++ [{}] } : DecodePool R O).PoolOk := by
  have hnone : s.workers[s.workers.length]? = none := List.getElem?_eq_none (Nat.le_refl _)
  have hjobsOf : ∀ worker, ({ s with workers := s.workers ++ [{}] } : DecodePool R O).jobsOf worker =
      s.jobsOf worker := by
    intro worker
    unfold jobsOf
    rw [getElem?_spawn]
    split_ifs with hnew
    · rw [hnew, hnone]
      rfl
    · rfl
  have hcount : ({ s with workers := s.workers ++ [{}] } : DecodePool R O).jobCount =
      s.jobCount := by
    simp [jobCount]
  have hevents : s.eventsOf s.workers.length = [] := by
    unfold eventsOf
    rw [List.filterMap_eq_nil_iff]
    intro event hevent
    have hknown := h.known event hevent
    rw [if_neg (by omega)]
  obtain ⟨haccepted, hcompleted, hsubmitted⟩ := h.unrecorded s.workers.length (Nat.le_refl _)
  have hold : ∀ worker < s.workers.length,
      (s.workers ++ [({} : DecodeWorker R O)])[worker]? = s.workers[worker]? := by
    intro worker hworker
    rw [getElem?_spawn, if_neg (by omega)]
  refine ⟨?_, ?_, ?_, ?_, h.generations_le, ?_, h.affine, ?_, ?_, ?_, ?_, ?_, ?_, h.ownerships, ?_,
    h.never, h.expected⟩
  · intro worker w hw
    change (s.workers ++ [({} : DecodeWorker R O)])[worker]? = some w at hw
    rw [getElem?_spawn] at hw
    split_ifs at hw with hnew
    · cases hw
      subst hnew
      refine ⟨Nat.zero_le _, ?_, ?_, fun _ hsome => (by cases hsome), ?_,
        fun _ hkeys => absurd rfl hkeys, ?_, fun hdone => (by cases hdone), ?_, ?_, ?_⟩
      · intro _
        change [] = (s.eventsOf s.workers.length).filterMap EventKind.token? ++ []
        rw [hevents]
        rfl
      · change (s.eventsOf s.workers.length).filterMap EventKind.token? <+: []
        rw [hevents]
        exact List.nil_prefix
      · intro _
        change 0 + s.phase.wakes s.workers.length = 0
        rw [wakes_of_isQuiet hquiet]
      · intro _
        change ∀ kind ∈ s.eventsOf s.workers.length, _
        rw [hevents]
        exact fun _ hkind => absurd hkind List.not_mem_nil
      · change s.accepted _ = s.completed _ ++ []
        rw [haccepted, hcompleted]
        rfl
      · change s.submitted _ <+: s.accepted _
        rw [haccepted, hsubmitted]
      · intro _
        change s.submitted _ ++ [] = s.accepted _
        rw [haccepted, hsubmitted]
        rfl
    · exact (h.workers worker w hw).congr ⟨rfl, rfl, rfl, rfl, id, rfl, rfl, rfl⟩
  · intro worker w hw
    change (s.workers ++ [({} : DecodeWorker R O)])[worker]? = some w at hw
    rw [getElem?_spawn] at hw
    split_ifs at hw with hnew
    · cases hw
      subst hnew
      have hempty : ({ s with workers := s.workers ++ [{}] } : DecodePool R O).retirementsOf
          s.workers.length {} = [] := by
        change (s.eventsOf s.workers.length).filterMap EventKind.key? = []
        rw [hevents]
        rfl
      refine ⟨?_, ?_, ?_, ?_⟩
      · rw [hempty]
        exact List.nodup_nil
      · rw [hempty]
        exact fun _ hkey => absurd hkey List.not_mem_nil
      · intro _ key generation hlookup hworker
        have hassigned := h.assigned key generation hlookup
        omega
      · change ∀ key ∈ (s.eventsOf s.workers.length).filterMap EventKind.key?, _
        rw [hevents]
        exact fun _ hkey => absurd hkey List.not_mem_nil
    · exact (h.retirements worker w hw).same rfl rfl rfl rfl fun _ _ => ⟨rfl, rfl⟩
  · change (s.workers ++ [({} : DecodeWorker R O)]).length ≤ _
    rw [List.length_append]
    exact hroom
  · rw [hcount]
    exact h.jobs_le
  · intro key generation hlookup
    have hassigned := h.assigned key generation hlookup
    change _ < (s.workers ++ [({} : DecodeWorker R O)]).length
    rw [List.length_append]
    omega
  · intro worker job hjob
    rw [hjobsOf] at hjob
    exact h.owned worker job hjob
  · intro key generation hlookup hsent job hjob
    rw [hjobsOf] at hjob
    exact h.free key generation hlookup hsent job hjob
  · intro event hevent
    have hknown := h.known event hevent
    change _ < (s.workers ++ [({} : DecodeWorker R O)]).length
    rw [List.length_append]
    omega
  · intro hfailure key generation hlookup hretiring hsent
    rw [hjobsOf]
    exact h.due hfailure key generation hlookup hretiring hsent
  · intro request worker hphase
    rw [show s.phase = _ from hphase] at hoffer
    cases hoffer
  · intro key
    rcases h.once key with hsame | ⟨honce, generation, hlookup, hretiring, hsent, hother⟩
    · exact Or.inl hsame
    · refine Or.inr ⟨honce, generation, hlookup, hretiring, hsent, ?_⟩
      intro w hw
      change (s.workers ++ [({} : DecodeWorker R O)])[generation.worker]? = some w at hw
      rw [hold _ (h.assigned key generation hlookup)] at hw
      exact hother w hw
  · intro worker hworker
    change (s.workers ++ [({} : DecodeWorker R O)]).length ≤ worker at hworker
    rw [List.length_append] at hworker
    exact h.unrecorded worker (by omega)

omit [DecodeJob R] in
/-- The worker that is assigned was there, or is new. -/
theorem assignWorker_ok (h : s.assignWorker spawns = .ok (t, some worker)) :
    t = s ∧ worker < s.workers.length ∨
      t = { s with workers := s.workers ++ [{}] } ∧ worker = s.workers.length ∧
        s.workers.length < s.limits.maxWorkers := by
  unfold assignWorker at h
  split at h
  · rename_i found hfound
    cases h
    exact Or.inl ⟨rfl, List.mem_range.mp (List.mem_of_find?_eq_some hfound)⟩
  · by_cases hroom : s.workers.length < s.limits.maxWorkers
    · split_ifs at h
      cases h
      exact Or.inr ⟨rfl, rfl, hroom⟩
    · rw [if_neg hroom] at h
      simp only [Except.ok.injEq, Prod.mk.injEq] at h
      obtain ⟨rfl, hargmin⟩ := h
      have hmem := List.argmin_mem (Option.mem_def.mpr hargmin)
      exact Or.inl ⟨rfl, List.mem_range.mp (List.mem_of_mem_filter hmem)⟩

omit [DecodeJob R] in
/-- Otherwise nothing changes. -/
theorem assignWorker_none (h : s.assignWorker spawns = .ok (t, none)) : t = s := by
  unfold assignWorker at h
  split at h
  · cases h
  · by_cases hroom : s.workers.length < s.limits.maxWorkers
    · split_ifs at h
      cases h
    · rw [if_neg hroom] at h
      simp only [Except.ok.injEq, Prod.mk.injEq] at h
      exact h.1.symm

omit [DecodeJob R] in
theorem assignWorker_error (h : s.assignWorker spawns = .error failure) : failure = .spawn := by
  unfold assignWorker at h
  split at h
  · cases h
  · split_ifs at h
    cases h
    rfl

theorem PoolOk.offerTo (h : s.PoolOk) (hidle : s.phase = .idle) {request : R}
    (hpresent : worker < s.workers.length) (hjobs : s.jobCount < s.limits.maxJobs) (hlively : ∀
      generation, s.generations.lookup (generationOf request) = some generation → generation.retiring
      = false) (hgenerations : generationOf request ∈ s.generations ∨ s.generations.size <
      s.limits.maxGenerations) (haffine : ∀ key generation, s.generations.lookup key = some
      generation → key.1 = (generationOf request).1 → generation.worker = worker) :
    (s.offerTo request worker).PoolOk := by
  have hquiet : s.phase.isQuiet = true := by rw [hidle]; rfl
  have hdone : s.failure = none → ∀ key, ¬ s.phase.sweeps key := by
    rw [hidle]
    exact fun _ _ hsweeps => hsweeps
  unfold DecodePool.offerTo
  split_ifs with hfull
  · exact h.answer hquiet hdone _
  · refine h.goTo (.offering request worker) hquiet rfl
      (fun hfailure => h.due_of_done hfailure hdone) ?_
    intro request' worker' hphase
    cases hphase
    exact ⟨hpresent, Nat.lt_of_not_le hfull, hjobs, hlively, hgenerations, haffine⟩

/-- **The owner calls `try_decode`.** -/
theorem PoolOk.tryDecode (h : s.PoolOk) (hidle : s.phase = .idle) (request : R) (spawns : Bool) :
    (s.tryDecode request spawns).PoolOk := by
  have hquiet : s.phase.isQuiet = true := by rw [hidle]; rfl
  have hdone : s.failure = none → ∀ key, ¬ s.phase.sweeps key := by
    rw [hidle]
    exact fun _ _ hsweeps => hsweeps
  unfold DecodePool.tryDecode
  split
  · exact h.answer hquiet hdone _
  · dsimp only
    split_ifs with hbusy
    · exact h.answer hquiet hdone _
    · rw [not_or, not_or] at hbusy
      obtain ⟨hretiring, hjobs, hgenerations⟩ := hbusy
      have hlively : ∀ generation, s.generations.lookup (generationOf request) =
          some generation → generation.retiring = false := by
        intro generation hlookup
        rw [hlookup] at hretiring
        simpa using hretiring
      have hroom : generationOf request ∈ s.generations ∨
          s.generations.size < s.limits.maxGenerations := by
        by_cases hmem : generationOf request ∈ s.generations
        · exact Or.inl hmem
        · exact Or.inr (Nat.lt_of_not_le fun hle => hgenerations ⟨hmem, hle⟩)
      split
      · rename_i entry hentry
        -- a generation of the stream has a worker, and all others have the same
        have hstream := List.find?_some hentry
        rw [decide_eq_true_eq] at hstream
        have hlookup : s.generations.lookup entry.1 = some entry.2 :=
          AList.mem_entries_iff.mp (List.mem_of_find?_eq_some hentry)
        refine h.offerTo hidle (h.assigned _ _ hlookup) (Nat.lt_of_not_le hjobs) hlively hroom ?_
        intro key generation hlookup' hkey
        exact h.affine key generation entry.1 entry.2 hlookup' hlookup (hkey.trans hstream.symm)
      · rename_i hnone
        have haffine : ∀ worker key generation, s.generations.lookup key = some generation →
            key.1 = (generationOf request).1 → generation.worker = worker := by
          intro worker key generation hlookup hkey
          have hmem := AList.mem_entries_iff.mpr hlookup
          have hfound := List.find?_eq_none.mp hnone _ hmem
          rw [decide_eq_true_eq] at hfound
          exact absurd hkey hfound
        split
        · rename_i t worker hassigned
          rcases assignWorker_ok hassigned with ⟨rfl, hpresent⟩ | ⟨rfl, rfl, hspawn⟩
          · exact h.offerTo hidle hpresent (Nat.lt_of_not_le hjobs) hlively hroom (haffine _)
          · have hjobs' := Nat.lt_of_not_le hjobs
            refine (h.spawn hquiet hspawn hidle).offerTo hidle ?_ ?_ hlively hroom (haffine _)
            · change _ < (s.workers ++ [({} : DecodeWorker R O)]).length
              rw [List.length_append]
              exact Nat.lt_succ_self _
            · simpa [jobCount] using hjobs'
        · rename_i t hassigned
          rw [assignWorker_none hassigned]
          exact h.answer hquiet hdone _
        · rename_i failure hassigned
          rw [assignWorker_error hassigned]
          have hfail : (s.fail .spawn).PoolOk := h.fail hquiet (by decide)
          have hphase : (s.fail .spawn).phase = s.phase := by
            unfold DecodePool.fail
            split_ifs <;> rfl
          refine hfail.answer (by rw [hphase]; exact hquiet) ?_ _
          rw [hphase, hidle]
          exact fun _ _ hsweeps => hsweeps

/-! ### Sending a job -/

section Accept

variable {request : R} {worker : ℕ} {w : DecodeWorker R O}

variable (s request worker w) in
theorem filterMap_accept {α : Type} (f : PoolEntry R → Option α)
    (hanswer : ∀ answer, f (.answered answer) = none) :
    (s.accept request worker w).log.filterMap f = s.log.filterMap f ++
      ((if generationOf request ∈ s.generations then none
        else f (.owned (generationOf request))).toList ++
      (f (.accepted worker (token request))).toList) := by
  unfold DecodePool.accept
  rw [List.filterMap_append, List.filterMap_append, List.append_assoc]
  congr 1
  have hentry : ∀ entry, ([entry] : List (PoolEntry R)).filterMap f = (f entry).toList := by
    intro entry
    cases hf : f entry <;> simp [hf]
  have hlast : ([.accepted worker (token request), .answered .accepted] :
      List (PoolEntry R)).filterMap f = (f (.accepted worker (token request))).toList := by
    rw [List.filterMap_cons, hentry, hanswer]
    cases f (.accepted worker (token request)) <;> rfl
  rw [hlast]
  congr 1
  split_ifs
  · rfl
  · exact hentry _

variable (s request worker w) in
theorem accepted_accept (other : ℕ) : (s.accept request worker w).accepted other =
    s.accepted other ++ if worker = other then [token request] else [] := by
  have hlog := filterMap_accept s request worker w (PoolEntry.accepted? other) fun _ => rfl
  unfold DecodePool.accepted
  rw [hlog]
  congr 1
  simp only [PoolEntry.accepted?]
  split_ifs <;> rfl

variable (s request worker w) in
/-- No job is completed or submitted, and no generation retired or released. -/
theorem records_accept :
    (∀ other, (s.accept request worker w).completed other = s.completed other) ∧
    (∀ other, (s.accept request worker w).submitted other = s.submitted other) ∧
    (∀ key, (s.accept request worker w).calls key = s.calls key) ∧
    ∀ key, (s.accept request worker w).releases key = s.releases key := by
  have hlog : ∀ {α : Type} (f : PoolEntry R → Option α), (∀ answer, f (.answered answer) = none) →
      f (.owned (generationOf request)) = none →
      f (.accepted worker (token request)) = none →
      (s.accept request worker w).log.filterMap f = s.log.filterMap f := by
    intro α f hanswer howned haccepted
    rw [filterMap_accept s request worker w f hanswer, howned, haccepted, ite_self]
    exact List.append_nil _
  refine ⟨fun _ => hlog _ (fun _ => rfl) rfl rfl, fun _ => hlog _ (fun _ => rfl) rfl rfl,
    fun key => ?_, fun key => ?_⟩
  · exact congrArg (List.count key) (hlog _ (fun _ => rfl) rfl rfl)
  · exact congrArg (List.count key) (hlog _ (fun _ => rfl) rfl rfl)

theorem ownerships_accept : (s.accept request worker w).ownerships key =
    s.ownerships key +
      if key = generationOf request ∧ generationOf request ∉ s.generations then 1 else 0 := by
  have hlog := filterMap_accept s request worker w PoolEntry.owned? fun _ => rfl
  unfold DecodePool.ownerships
  rw [hlog, List.count_append]
  congr 1
  simp only [PoolEntry.owned?]
  by_cases hmem : generationOf request ∈ s.generations
  · simp [hmem]
  · by_cases hkey : key = generationOf request
    · simp [hmem, hkey]
    · simp [hmem, hkey, Ne.symm hkey]

/-- The worker as the pool and the channel have it then. -/
theorem getElem?_accept (hw : s.workers[worker]? = some w) (other : ℕ) :
    (s.accept request worker w).workers[other]? = if worker = other then
      some { w with
        jobs := w.jobs ++ [⟨token request, frame request⟩]
        commands := w.commands ++ [.decode request] }
    else s.workers[other]? :=
  getElem?_set_of hw other

theorem jobsOf_accept (hw : s.workers[worker]? = some w) (other : ℕ) :
    (s.accept request worker w).jobsOf other = s.jobsOf other ++
      if worker = other then [⟨token request, frame request⟩] else [] := by
  unfold jobsOf
  rw [getElem?_accept hw]
  split_ifs with hsame
  · rw [← hsame, hw]
    rfl
  · rw [List.append_nil]

theorem WorkerOk.accept (h : s.WorkerOk worker w) (hquiet : s.phase.isQuiet = true)
    (hroom : w.jobs.length < s.limits.depth) (hopen : w.phase.isOpen = true) :
    (s.accept request worker w).WorkerOk worker
      { w with
        jobs := w.jobs ++ [⟨token request, frame request⟩]
        commands := w.commands ++ [.decode request] } := by
  obtain ⟨hcompleted, hsubmitted, -, -⟩ := records_accept s request worker w
  have haccepted := accepted_accept s request worker w worker
  rw [if_pos rfl] at haccepted
  have hunsubmitted : ({ w with
      jobs := w.jobs ++ [⟨token request, frame request⟩]
      commands := w.commands ++ [.decode request] } : DecodeWorker R O).unsubmitted =
      w.unsubmitted ++ [token request] := by
    simp [DecodeWorker.unsubmitted, Command.tokens]
  refine ⟨?_, ?_, ?_, h.keeps, ?_, ?_, h.silent, ?_, ?_, ?_, ?_⟩
  · rw [List.length_append]
    exact hroom
  · intro _
    rw [DecodeWorker.inside, hunsubmitted, List.map_append, h.pipeline hopen, DecodeWorker.inside]
    simp only [List.append_assoc]
    rfl
  · rw [List.map_append]
    exact h.closed.trans (List.prefix_append _ _)
  · intro _
    have hwakes := h.wakes hopen
    rw [wakes_of_isQuiet hquiet] at hwakes
    simpa [DecodeWorker.wakes, Command.wakes, DecodePool.accept, PoolPhase.wakes] using hwakes
  · intro _ hkeys
    have hmailbox := h.mailbox hopen hkeys
    rw [signals_of_isQuiet hquiet] at hmailbox
    rcases hmailbox with hqueued | hwill | hsignals
    · exact Or.inl hqueued
    · exact Or.inr (Or.inl hwill)
    · cases hsignals
  · intro hdone
    rw [show w.phase = _ from hdone] at hopen
    cases hopen
  · rw [haccepted, hcompleted, h.accepted, List.map_append, List.append_assoc]
    rfl
  · rw [haccepted, hsubmitted]
    exact h.ordered.trans (List.prefix_append _ _)
  · intro _
    rw [haccepted, hsubmitted, hunsubmitted, ← h.submitted hopen, List.append_assoc]

/-- **A job is sent**: it is outstanding, inside and accepted at once. -/
theorem PoolOk.accept (h : s.PoolOk) (hphase : s.phase = .offering request worker)
    (hw : s.workers[worker]? = some w) (hopen : w.phase.isOpen = true) :
    (s.accept request worker w).PoolOk := by
  obtain ⟨hpresent, hroom, hjobs, hlively, hgenerations, haffine⟩ := h.offer request worker hphase
  rw [jobsOf_of_getElem? hw] at hroom
  have hquiet : s.phase.isQuiet = true := by rw [hphase]; rfl
  obtain ⟨hcompleted, hsubmitted, hcalls, hreleases⟩ := records_accept s request worker w
  -- the generation may be new, and is not to be retired
  have hlookup : ∀ key, (s.accept request worker w).generations.lookup key =
      if key = generationOf request then some { worker := worker } else s.generations.lookup key :=
    fun key => AList.lookup_insert_eq _ _ _ _
  have hapart : ∀ other w', s.workers[other]? = some w' →
      generationOf request ∉ s.retirementsOf other w' := by
    intro other w' hw' hmem
    obtain ⟨generation, hgeneration, -, hretiring, -⟩ := (h.retirements other w' hw').sent _ hmem
    rw [hlively generation hgeneration] at hretiring
    cases hretiring
  have hretired : ∀ other w' w'', s.workers[other]? = some w' → w''.keys = w'.keys →
      w''.phase = w'.phase → (s.accept request worker w).RetirementsOk other w'' := by
    intro other w' w'' hw' hkeys hphase'
    refine (h.retirements other w' hw').congr hkeys hphase' rfl ?_ ?_ fun key _ =>
      ⟨hcalls key, hreleases key⟩
    · intro key hkey
      rw [hlookup, if_neg]
      rintro rfl
      exact hapart other w' hw' hkey
    · intro key generation hgeneration hworker hsent
      rw [hlookup] at hgeneration
      split_ifs at hgeneration with hkey
      · cases hgeneration
        cases hsent
      · exact ⟨generation, hgeneration, hworker, hsent⟩
  refine ⟨?_, ?_, ?_, ?_, ?_, ?_, ?_, ?_, ?_, ?_, ?_, ?_, ?_, ?_, ?_, ?_, h.expected⟩
  · intro other w' hw'
    rw [getElem?_accept hw] at hw'
    split_ifs at hw' with hsame
    · cases hw'
      rw [← hsame]
      exact (h.workers worker w hw).accept hquiet hroom hopen
    · have haccepted := accepted_accept s request worker w other
      rw [if_neg hsame, List.append_nil] at haccepted
      exact (h.workers other w' hw').congr ⟨rfl, rfl, (wakes_of_isQuiet hquiet other).symm,
        (signals_of_isQuiet hquiet other).symm, id, haccepted, hcompleted other, hsubmitted other⟩
  · intro other w' hw'
    rw [getElem?_accept hw] at hw'
    split_ifs at hw' with hsame
    · cases hw'
      exact hretired other w _ (hsame ▸ hw) rfl rfl
    · exact hretired other w' _ hw' rfl rfl
  · change (s.workers.set _ _).length ≤ _
    rw [List.length_set]
    exact h.workers_le
  · have hsum := sum_map_set (a := { w with
        jobs := w.jobs ++ [⟨token request, frame request⟩]
        commands := w.commands ++ [.decode request] }) (fun worker => worker.jobs.length) hw
    rw [List.length_append] at hsum
    change ((s.workers.set worker _).map fun worker => worker.jobs.length).sum ≤ s.limits.maxJobs
    unfold jobCount at hjobs
    dsimp only [List.length_singleton] at hsum
    omega
  · change (s.generations.insert _ _).size ≤ _
    rw [AList.size_insert]
    rcases hgenerations with hmem | hsize
    · obtain ⟨generation, hgeneration⟩ := AList.exists_lookup hmem
      rw [AList.size_erase_of_lookup hgeneration]
      exact h.generations_le
    · have hle := AList.size_erase_le s.generations (generationOf request)
      change _ < s.limits.maxGenerations at hsize
      change _ ≤ s.limits.maxGenerations
      omega
  · intro key generation hgeneration
    change _ < (s.workers.set _ _).length
    rw [List.length_set]
    rw [hlookup] at hgeneration
    split_ifs at hgeneration with hkey
    · cases hgeneration
      exact hpresent
    · exact h.assigned key generation hgeneration
  · intro key₁ generation₁ key₂ generation₂ hgeneration₁ hgeneration₂ hstream
    rw [hlookup] at hgeneration₁ hgeneration₂
    split_ifs at hgeneration₁ hgeneration₂ with hkey₁ hkey₂ hkey₂
    · cases hgeneration₁
      cases hgeneration₂
      rfl
    · cases hgeneration₁
      exact (haffine key₂ generation₂ hgeneration₂ (hstream.symm.trans (congrArg _ hkey₁))).symm
    · cases hgeneration₂
      exact haffine key₁ generation₁ hgeneration₁ (hstream.trans (congrArg _ hkey₂))
    · exact h.affine key₁ generation₁ key₂ generation₂ hgeneration₁ hgeneration₂ hstream
  · intro other job hjob
    rw [jobsOf_accept hw, List.mem_append] at hjob
    rw [hlookup]
    rcases hjob with hjob | hjob
    · obtain ⟨generation, hgeneration, hworker⟩ := h.owned other job hjob
      split_ifs with hkey
      · -- the stream was with this worker before
        have hsame := haffine job.key generation hgeneration (congrArg _ hkey)
        exact ⟨_, rfl, hsame.symm.trans hworker⟩
      · exact ⟨generation, hgeneration, hworker⟩
    · split_ifs at hjob with hsame
      · have hkey : Job.key ⟨token request, frame request⟩ = generationOf request := rfl
        rw [List.mem_singleton.mp hjob, if_pos hkey]
        exact ⟨_, rfl, hsame⟩
      · cases hjob
  · intro key generation hgeneration hsent job hjob
    rw [hlookup] at hgeneration
    split_ifs at hgeneration with hkey
    · cases hgeneration
      cases hsent
    · rw [jobsOf_accept hw, List.mem_append] at hjob
      rcases hjob with hjob | hjob
      · exact h.free key generation hgeneration hsent job hjob
      · split_ifs at hjob
        · rw [List.mem_singleton.mp hjob]
          exact fun hsame => hkey hsame.symm
        · cases hjob
  · intro event hevent
    change _ < (s.workers.set _ _).length
    rw [List.length_set]
    exact h.known event hevent
  · intro hfailure key generation hgeneration hretiring hsent
    rw [hlookup] at hgeneration
    split_ifs at hgeneration with hkey
    · cases hgeneration
      cases hretiring
    · rcases h.due hfailure key generation hgeneration hretiring hsent with ⟨job, hjob, hof⟩ | hsweeps
      · refine Or.inl ⟨job, ?_, hof⟩
        rw [jobsOf_accept hw]
        exact List.mem_append_left _ hjob
      · rw [hphase] at hsweeps
        cases hsweeps
  · intro request' worker' hidle
    cases hidle
  · intro key
    rw [hcalls, hreleases]
    rcases h.once key with hsame | ⟨honce, generation, hgeneration, hretiring, hsent, hother⟩
    · exact Or.inl hsame
    · refine Or.inr ⟨honce, generation, ?_, hretiring, hsent, ?_⟩
      · rw [hlookup, if_neg]
        · exact hgeneration
        · -- a generation that is to be retired is not taken up again
          rintro rfl
          rw [hlively generation hgeneration] at hretiring
          cases hretiring
      · intro w' hw'
        rw [getElem?_accept hw] at hw'
        split_ifs at hw' with hsame
        · cases hw'
          exact hother w (hsame ▸ hw)
        · exact hother w' hw'
  · intro key
    rw [ownerships_accept, hreleases, h.ownerships]
    have hmem : key ∈ (s.accept request worker w).generations ↔
        key = generationOf request ∨ key ∈ s.generations := AList.mem_insert _
    rw [if_congr hmem rfl rfl]
    by_cases hkey : key = generationOf request
    · subst hkey
      by_cases hold : generationOf request ∈ s.generations <;> simp [hold]
    · simp [hkey]
  · intro other hother
    change (s.workers.set _ _).length ≤ other at hother
    rw [List.length_set] at hother
    rw [accepted_accept s request worker w, hcompleted, hsubmitted, if_neg (by omega), List.append_nil]
    exact h.unrecorded other hother
  · intro worker' rest caller hidle
    cases hidle

end Accept

end DecodePool

end

end Media
