/-
**The protocol of the decode pool.**

Whatever the order in which the pool, its owner and its workers take their steps, and whichever
worker fails: jobs, generations and workers stay within their limits, the generations of a stream are
with one worker, its jobs are submitted in order, and every job that is accepted is completed once.  A
generation is retired once, after all its jobs have been collected.  A job that is outstanding and a
generation that is to be retired always leave somebody a step to take.

A request that is returned leaves nothing behind but, in one case, a worker: one that was started for
the request and failed before the request could be sent to it.

Main definitions: `DecodePool.Proper`, `DecodePool.Lively`, `DecodePool.AnswersBusy`.

Main results:

* `decode_pool_protocol` — what holds in every run;
* `busy_leaves_a_worker` — a request that is returned can leave a worker.
-/

import Weld.DecodePoolDraining
import Weld.Transition

namespace Media

open Transition

section

variable {R O : Type} [DecodeJob R]

namespace DecodePool

variable {s : DecodePool R O}

/-! ### What holds in every state -/

/-- The limits of a pool, the order of its jobs, and its accounts. -/
structure Proper (s : DecodePool R O) : Prop where
  jobs_le : s.jobCount ≤ s.limits.maxJobs
  depth : ∀ worker, (s.jobsOf worker).length ≤ s.limits.depth
  generations_le : s.generations.size ≤ s.limits.maxGenerations
  workers_le : s.workers.length ≤ s.limits.maxWorkers
  affine : ∀ key generation key' generation', s.generations.lookup key = some generation →
    s.generations.lookup key' = some generation' → key.1 = key'.1 →
      generation.worker = generation'.worker
  owned : ∀ worker, ∀ job ∈ s.jobsOf worker, ∃ generation,
    s.generations.lookup job.key = some generation ∧ generation.worker = worker
  ordered : ∀ worker, s.submitted worker <+: s.accepted worker
  completed : ∀ worker, s.accepted worker = s.completed worker ++ (s.jobsOf worker).map (·.token)
  ownerships : ∀ key, s.ownerships key = s.releases key + if key ∈ s.generations then 1 else 0
  called : ∀ key, s.releases key ≤ s.calls key ∧ s.calls key ≤ s.ownerships key
  collected : ∀ key, s.releases key < s.calls key → ∀ worker, ∀ job ∈ s.jobsOf worker, job.key ≠ key
  expected : ∀ failure, s.failure = some failure ∨ s.terminalFailure = some failure →
    failure ≠ .unexpectedToken ∧ failure ≠ .unexpectedAcknowledgement

/-- Somebody moves what is outstanding, and what is to be retired. -/
structure Lively (s : DecodePool R O) : Prop where
  jobs : ∀ worker w, s.workers[worker]? = some w → w.jobs ≠ [] → s.eventsOf worker ≠ [] ∨ ¬ w.Rests
  retirements : s.failure = none → ∀ key generation, s.generations.lookup key = some generation →
    generation.retiring = true → (∀ job ∈ s.jobsOf generation.worker, job.key ≠ key) →
      s.isIdle = false ∨ s.eventsOf generation.worker ≠ [] ∨
        ∃ w, s.workers[generation.worker]? = some w ∧ ¬ w.Rests

/-- A request is returned by the call that brings it, which then changes nothing, or by the channel of
a worker that has failed.  Until then at most one worker is new. -/
structure AnswersBusy (s : DecodePool R O) : Prop where
  unchanged : ∀ label request,
    (s.step label).log = s.log ++ [.answered (.busy request)] →
      (∃ spawns, label = .tryDecode request spawns ∧
        s.step label = { s with log := s.log ++ [.answered (.busy request)] }) ∨
      ∃ choice worker, label = .pool choice ∧ s.phase = .offering request worker ∧
        s.step label = { s with phase := .idle, log := s.log ++ [.answered (.busy request)] } ∧
        ∃ w, s.workers[worker]? = some w ∧ w.phase.isOpen = false
  offered : ∀ request spawns request' worker, s.isIdle = true →
    (s.step (.tryDecode request spawns)).phase = .offering request' worker → request' = request ∧
      (s.step (.tryDecode request spawns) = { s with phase := .offering request worker } ∨
        worker = s.workers.length ∧ s.step (.tryDecode request spawns) =
          { s with workers := s.workers ++ [{}], phase := .offering request worker })

theorem length_jobsOf_le {worker : ℕ} (h : s.PoolOk) :
    (s.jobsOf worker).length ≤ s.limits.depth := by
  cases hw : s.workers[worker]? with
  | none =>
      rw [jobsOf, hw]
      exact Nat.zero_le _
  | some w =>
      rw [jobsOf_of_getElem? hw]
      exact (h.workers worker w hw).depth

/-- **The limits and the accounts.** -/
theorem PoolOk.proper (h : s.PoolOk) : s.Proper where
  jobs_le := h.jobs_le
  depth := fun _ => length_jobsOf_le h
  generations_le := h.generations_le
  workers_le := h.workers_le
  affine := h.affine
  owned := h.owned
  ordered := by
    intro worker
    cases hw : s.workers[worker]? with
    | none =>
        obtain ⟨haccepted, -, hsubmitted⟩ := h.unrecorded worker (List.getElem?_eq_none_iff.mp hw)
        rw [haccepted, hsubmitted]
    | some w => exact (h.workers worker w hw).ordered
  completed := by
    intro worker
    cases hw : s.workers[worker]? with
    | none =>
        obtain ⟨haccepted, hcompleted, -⟩ := h.unrecorded worker (List.getElem?_eq_none_iff.mp hw)
        rw [haccepted, hcompleted, jobsOf, hw]
        rfl
    | some w =>
        rw [jobsOf_of_getElem? hw]
        exact (h.workers worker w hw).accepted
  ownerships := h.ownerships
  called := by
    intro key
    rw [h.ownerships]
    rcases h.once key with hnot | ⟨honce, generation, hgeneration, -⟩
    · omega
    · have hmem : key ∈ s.generations := by
        rw [← AList.lookup_isSome, hgeneration]
        rfl
      rw [if_pos hmem]
      omega
  collected := by
    intro key hcalled worker job hjob hof
    rcases h.once key with hnot | ⟨-, generation, hgeneration, -, hsent, -⟩
    · omega
    · obtain ⟨generation', hgeneration', hworker⟩ := h.owned worker job hjob
      rw [hof, hgeneration] at hgeneration'
      cases hgeneration'
      rw [← hworker] at hjob
      exact h.free key generation hgeneration hsent job hjob hof
  expected := h.expected

/-- **Nothing is left where nobody moves it.** -/
theorem PoolOk.lively (h : s.PoolOk) : s.Lively where
  jobs := by
    intro worker w hw hjobs
    by_contra hstuck
    rw [not_or, not_not, not_not] at hstuck
    obtain ⟨hevents, hrests⟩ := hstuck
    have hok := h.workers worker w hw
    cases hopen : w.phase.isOpen with
    | true =>
        have hpipeline := hok.pipeline hopen
        rw [hevents, (hrests.empty hopen).1] at hpipeline
        exact hjobs (List.map_eq_nil_iff.mp hpipeline)
    | false =>
        -- a worker that is gone has left its last event
        have hdone : w.phase = .done := by
          rcases hrests with hdone | ⟨hphase, -⟩
          · exact hdone
          · rw [hphase] at hopen
            cases hopen
        rcases hok.gone hdone with ⟨before, reason, hlast, -⟩ | ⟨-, hnone, -⟩
        · rw [hevents] at hlast
          exact absurd hlast (by simp)
        · exact hjobs hnone
  retirements := by
    intro hfailure key generation hgeneration hretiring hjobs
    by_contra hstuck
    rw [not_or, not_or, Bool.not_eq_false, not_not] at hstuck
    obtain ⟨hidle, hevents, hresting⟩ := hstuck
    have hphase := isIdle_iff.mp hidle
    -- the retirement was sent
    have hsent : generation.retirementSent = true := by
      by_contra hunsent
      rcases h.due hfailure key generation hgeneration hretiring (Bool.eq_false_iff.mpr hunsent)
        with ⟨job, hjob, hof⟩ | hsweeps
      · exact hjobs job hjob hof
      · rw [hphase] at hsweeps
        exact hsweeps
    obtain ⟨w, hw⟩ : ∃ w, s.workers[generation.worker]? = some w :=
      ⟨_, List.getElem?_eq_getElem (h.assigned key generation hgeneration)⟩
    have hrests : w.Rests := by
      by_contra hmoves
      exact hresting ⟨w, hw, hmoves⟩
    have hok := h.workers generation.worker w hw
    cases hopen : w.phase.isOpen with
    | true =>
        obtain ⟨-, hwakes, hhand, hcalled, hcheck⟩ := hrests.empty hopen
        have hplaced := (h.retirements generation.worker w hw).placed hopen key generation
          hgeneration rfl hsent
        unfold retirementsOf DecodeWorker.places at hplaced
        rw [hevents, hhand, hcalled, List.append_nil, List.append_nil, List.filterMap_nil,
          List.append_nil] at hplaced
        -- it is in the mailbox of a worker that waits, although no `Wake` is on its way
        have hflag := hok.wakes hopen
        rw [hwakes, hphase] at hflag
        rcases hok.mailbox hopen (List.ne_nil_of_mem hplaced) with hqueued | hwill | hsignals
        · rw [hqueued] at hflag
          cases hflag
        · rw [hcheck] at hwill
          cases hwill
        · rw [hphase] at hsignals
          cases hsignals
    | false =>
        have hdone : w.phase = .done := by
          rcases hrests with hdone | ⟨hreceiving, -⟩
          · exact hdone
          · rw [hreceiving] at hopen
            cases hopen
        rcases hok.gone hdone with ⟨before, reason, hlast, -⟩ | ⟨-, -, hfailed⟩
        · rw [hevents] at hlast
          exact absurd hlast (by simp)
        · rw [hfailure] at hfailed
          cases hfailed

/-! ### Returning a request -/

/-- What a request leads to at once. -/
theorem tryDecode_cases (hdepth : 0 < s.limits.depth) (request : R) (spawns : Bool) :
    (∃ failure, (s.tryDecode request spawns).limits = s.limits ∧
      (s.tryDecode request spawns).phase = .idle ∧
      (s.tryDecode request spawns).log = s.log ++ [.answered (.rejected failure)]) ∨
    s.tryDecode request spawns = s.answer (.busy request) ∨
    (∃ worker, s.tryDecode request spawns = { s with phase := .offering request worker }) ∨
    s.tryDecode request spawns =
      { s with workers := s.workers ++ [{}], phase := .offering request s.workers.length } := by
  have hoffer : ∀ worker, s.offerTo request worker = s.answer (.busy request) ∨
      s.offerTo request worker = { s with phase := .offering request worker } := by
    intro worker
    unfold offerTo
    split_ifs
    · exact Or.inl rfl
    · exact Or.inr rfl
  unfold tryDecode
  split
  · rename_i failure hfailure
    exact Or.inl ⟨failure, rfl, rfl, rfl⟩
  · dsimp only
    split_ifs
    · exact Or.inr (Or.inl rfl)
    · split
      · rename_i entry hentry
        rcases hoffer entry.2.worker with hbusy | hoffered
        · exact Or.inr (Or.inl hbusy)
        · exact Or.inr (Or.inr (Or.inl ⟨_, hoffered⟩))
      · split
        · rename_i t worker hassigned
          rcases assignWorker_ok hassigned with ⟨rfl, -⟩ | ⟨rfl, rfl, -⟩
          · rcases hoffer worker with hbusy | hoffered
            · exact Or.inr (Or.inl hbusy)
            · exact Or.inr (Or.inr (Or.inl ⟨_, hoffered⟩))
          · -- a worker that was just started has no job
            refine Or.inr (Or.inr (Or.inr ?_))
            unfold offerTo jobsOf
            rw [List.getElem?_concat_length, if_neg]
            simpa using Nat.pos_iff_ne_zero.mp hdepth
        · rename_i t hassigned
          rw [assignWorker_none hassigned]
          exact Or.inr (Or.inl rfl)
        · rename_i failure hassigned
          refine Or.inl ⟨failure, ?_, rfl, ?_⟩
          · unfold DecodePool.fail
            split_ifs <;> rfl
          · unfold DecodePool.fail
            split_ifs <;> rfl

omit [DecodeJob R] in
theorem answer_of_idle (hidle : s.phase = .idle) (answer : PoolAnswer R) :
    s.answer answer = { s with log := s.log ++ [.answered answer] } := by
  unfold DecodePool.answer
  rw [← hidle]

/-- No request is returned in the step to a state. -/
def ReturnsNone (s t : DecodePool R O) : Prop :=
  ∃ entries, t.log = s.log ++ entries ∧ ∀ request, .answered (.busy request) ∉ entries

omit [DecodeJob R] in
theorem ReturnsNone.ne {t : DecodePool R O} (h : ReturnsNone s t) (request : R) :
    t.log ≠ s.log ++ [.answered (.busy request)] := by
  obtain ⟨entries, hlog, hnone⟩ := h
  intro hsame
  rw [hlog] at hsame
  rw [List.append_cancel_left hsame] at hnone
  exact hnone request List.mem_cons_self

omit [DecodeJob R] in
theorem returnsNone_of_log {t : DecodePool R O} (h : t.log = s.log) : ReturnsNone s t :=
  ⟨[], by rw [h, List.append_nil], fun _ => List.not_mem_nil⟩

omit [DecodeJob R] in
theorem returnsNone_finish (caller : SweepCaller) : ReturnsNone s (s.finish caller) := by
  cases caller with
  | retire => exact ⟨[.answered .retired], rfl, fun _ hmem => by simp at hmem⟩
  | drain =>
      exact ⟨[.answered (.drained s.terminalFailure)], rfl, fun _ hmem => by simp at hmem⟩

omit [DecodeJob R] in
theorem returnsNone_fail (failure : PoolFailure) : ReturnsNone s (s.fail failure) := by
  refine returnsNone_of_log ?_
  unfold DecodePool.fail
  split_ifs <;> rfl

omit [DecodeJob R] in
theorem returnsNone_handle (event : Event O) : ReturnsNone s (s.handle event) := by
  unfold handle
  split
  · split
    · split
      · split_ifs
        · exact ⟨_, rfl, fun _ hmem => by simp at hmem⟩
        · exact returnsNone_fail _
      · exact returnsNone_fail _
    · exact returnsNone_fail _
  · split_ifs
    · exact ⟨_, rfl, fun _ hmem => by simp at hmem⟩
    · exact returnsNone_fail _
  · split
    · rename_i w hw
      obtain ⟨entries, hlog, hnone⟩ := returnsNone_fail (s := { s with
        workers := s.workers.set event.worker { w with jobs := [] }
        log := s.log ++ w.jobs.map fun job => .completed event.worker job.token })
        (.worker _)
      refine ⟨(w.jobs.map fun job => .completed event.worker job.token) ++ entries, ?_, ?_⟩
      · rw [hlog, List.append_assoc]
      · intro request hmem
        rcases List.mem_append.mp hmem with hmem | hmem
        · obtain ⟨job, -, hjob⟩ := List.mem_map.mp hmem
          cases hjob
        · exact hnone request hmem
    · exact returnsNone_fail _

/-- Only a request that is offered is returned by the pool's own steps. -/
theorem advance_busy {choice : GenerationKey} {request : R}
    (h : (s.advance choice).log = s.log ++ [.answered (.busy request)]) :
    ∃ worker, s.phase = .offering request worker ∧
      s.advance choice = s.answer (.busy request) ∧
      ¬ ∃ w, s.workers[worker]? = some w ∧ w.phase.isOpen = true ∧
        w.commands.length < s.limits.depth + 1 := by
  have hnot : ∀ {t : DecodePool R O}, t.log = s.log ++ [.answered (.busy request)] →
      ¬ ReturnsNone s t := fun hlog hnone => hnone.ne request hlog
  cases hphase : s.phase with
  | offering request' worker =>
      have hsame : (s.answer (.busy request')).log = s.log ++ [.answered (.busy request)] →
          request' = request := by
        intro hlog
        have hentry := List.append_cancel_left (show s.log ++ [_] = _ from hlog)
        simpa using hentry
      unfold advance at h ⊢
      rw [hphase] at h ⊢
      dsimp only at h ⊢
      split at h
      · rename_i w hw
        split_ifs at h with hopen
        · refine absurd ⟨_, (List.append_assoc _ _ _), ?_⟩ (hnot h)
          intro request'' hmem
          split_ifs at hmem <;> simp at hmem
        · obtain rfl := hsame h
          refine ⟨worker, rfl, ?_, ?_⟩
          · exact if_neg hopen
          · rintro ⟨w', hw', hopen'⟩
            rw [hw] at hw'
            cases hw'
            exact hopen hopen'
      · rename_i hnone
        obtain rfl := hsame h
        refine ⟨worker, rfl, ?_, ?_⟩
        · rfl
        · rintro ⟨w', hw', -⟩
          rw [hnone] at hw'
          cases hw'
  | idle =>
      unfold advance at h
      rw [hphase] at h
      exact absurd (returnsNone_of_log rfl) (hnot h)
  | draining =>
      unfold advance at h
      rw [hphase] at h
      dsimp only at h
      rw [← hphase] at h
      split at h
      · rename_i event events hevents
        exact absurd (returnsNone_handle (s := { s with events }) event) (hnot h)
      · split_ifs at h
        · exact absurd (returnsNone_of_log rfl) (hnot h)
        · exact absurd (returnsNone_finish .drain) (hnot h)
  | sweeping before caller =>
      unfold advance at h
      rw [hphase] at h
      cases before with
      | nil => exact absurd (returnsNone_finish caller) (hnot h)
      | cons first others =>
          dsimp only at h
          generalize (if choice ∈ first :: others then choice else first) = key at h
          split at h
          · split_ifs at h <;> exact absurd (returnsNone_of_log rfl) (hnot h)
          · exact absurd (returnsNone_of_log rfl) (hnot h)
  | signalling worker rest caller =>
      unfold advance at h
      rw [hphase] at h
      dsimp only at h
      split at h
      · split_ifs at h <;> exact absurd (returnsNone_of_log rfl) (hnot h)
      · exact absurd (returnsNone_of_log rfl) (hnot h)
  | waking worker rest caller =>
      unfold advance at h
      rw [hphase] at h
      dsimp only at h
      split at h
      · split_ifs at h <;> exact absurd (returnsNone_of_log rfl) (hnot h)
      · exact absurd (returnsNone_of_log rfl) (hnot h)
  | unsetting worker rest caller =>
      unfold advance at h
      rw [hphase] at h
      exact absurd (returnsNone_of_log rfl) (hnot h)

/-- A channel has room for a job that was admitted. -/
theorem PoolOk.room_of_offering (h : s.PoolOk) {request : R} {worker : ℕ} {w : DecodeWorker R O}
    (hphase : s.phase = .offering request worker) (hw : s.workers[worker]? = some w)
    (hopen : w.phase.isOpen = true) : w.commands.length < s.limits.depth + 1 := by
  have hok := h.workers worker w hw
  have hwakes := (hok.sane hopen).flagged
  have hflag := Bool.toNat_le w.wakeQueued
  rw [DecodeWorker.wakes] at hwakes
  have hjobs := (h.offer request worker hphase).room
  rw [jobsOf_of_getElem? hw] at hjobs
  have hlength := congrArg List.length (hok.pipeline hopen)
  rw [List.length_map, List.length_append] at hlength
  simp only [DecodeWorker.inside, DecodeWorker.unsubmitted, List.length_append] at hlength
  rw [length_commands w.commands]
  omega

/-- **How a request is returned.** -/
theorem PoolOk.answersBusy (h : s.PoolOk) (hdepth : 0 < s.limits.depth) : s.AnswersBusy where
  unchanged := by
    intro label request hlog
    have hnot : ∀ {t : DecodePool R O}, t.log = s.log ++ [.answered (.busy request)] →
        ¬ ReturnsNone s t := fun hlog hnone => hnone.ne request hlog
    have hanswer : ∀ answer, (s.answer answer).log = s.log ++ [.answered (.busy request)] →
        answer = .busy request := by
      intro answer hlog
      have hentry := List.append_cancel_left (show s.log ++ [_] = _ from hlog)
      simpa using hentry
    cases label with
    | tryDecode request' spawns =>
        by_cases hidle : s.isIdle = true
        · have hstep : s.step (.tryDecode request' spawns) = s.tryDecode request' spawns :=
            if_pos hidle
          rw [hstep] at hlog ⊢
          rcases tryDecode_cases hdepth request' spawns with
            ⟨failure, -, -, hrejected⟩ | hbusy | ⟨worker, hoffered⟩ | hoffered
          · rw [hrejected] at hlog
            have hentry := List.append_cancel_left hlog
            simp at hentry
          · rw [hbusy] at hlog ⊢
            have hsame := hanswer _ hlog
            cases hsame
            exact Or.inl ⟨spawns, rfl, answer_of_idle (isIdle_iff.mp hidle) _⟩
          · rw [hoffered] at hlog
            exact absurd (returnsNone_of_log rfl) (hnot hlog)
          · rw [hoffered] at hlog
            exact absurd (returnsNone_of_log rfl) (hnot hlog)
        · have hstep : s.step (.tryDecode request' spawns) = s := if_neg hidle
          rw [hstep] at hlog
          exact absurd (returnsNone_of_log rfl) (hnot hlog)
    | retire key =>
        refine absurd ?_ (hnot hlog)
        change ReturnsNone s (if s.isIdle = true then s.retire key else s)
        split_ifs
        · unfold DecodePool.retire
          split
          · exact ⟨_, rfl, fun _ hmem => by simp at hmem⟩
          · split_ifs
            · exact returnsNone_of_log rfl
            · exact ⟨_, rfl, fun _ hmem => by simp at hmem⟩
        · exact returnsNone_of_log rfl
    | drain =>
        refine absurd ?_ (hnot hlog)
        change ReturnsNone s (if s.isIdle = true then s.drain else s)
        split_ifs <;> exact returnsNone_of_log rfl
    | pool choice =>
        obtain ⟨worker, hphase, hstep, hclosed⟩ := advance_busy hlog
        refine Or.inr ⟨choice, worker, rfl, hphase, hstep, ?_⟩
        obtain ⟨w, hw⟩ : ∃ w, s.workers[worker]? = some w :=
          ⟨_, List.getElem?_eq_getElem (h.offer request worker hphase).present⟩
        refine ⟨w, hw, ?_⟩
        by_contra hopen
        rw [Bool.not_eq_false] at hopen
        exact hclosed ⟨w, hw, hopen, h.room_of_offering hphase hw hopen⟩
    | worker index choice outcome =>
        refine absurd ?_ (hnot hlog)
        unfold DecodePool.step
        dsimp only
        split
        · rename_i w hw
          have hran : w.Ran index (w.run s.limits.depth index choice outcome).1
              (w.run s.limits.depth index choice outcome).2.1
              (w.run s.limits.depth index choice outcome).2.2 :=
            DecodeWorker.ran_run (h.workers index w hw).sane
          refine ⟨(w.run s.limits.depth index choice outcome).2.2, rfl, fun _ hmem => ?_⟩
          rcases hran.own _ hmem with ⟨token, hentry⟩ | ⟨key, hentry⟩ <;> cases hentry
        · exact returnsNone_of_log rfl
    | fail index reason =>
        refine absurd ?_ (hnot hlog)
        unfold DecodePool.step
        dsimp only
        split
        · split_ifs <;> exact returnsNone_of_log rfl
        · exact returnsNone_of_log rfl
  offered := by
    intro request spawns request' worker hidle hphase
    have hstep : s.step (.tryDecode request spawns) = s.tryDecode request spawns := if_pos hidle
    rw [hstep] at hphase ⊢
    rcases tryDecode_cases hdepth request spawns with
      ⟨failure, -, hanswered, -⟩ | hbusy | ⟨worker', hoffered⟩ | hoffered
    · rw [hanswered] at hphase
      cases hphase
    · rw [hbusy] at hphase
      cases hphase
    · rw [hoffered] at hphase
      cases hphase
      exact ⟨rfl, Or.inl hoffered⟩
    · rw [hoffered] at hphase
      cases hphase
      exact ⟨rfl, Or.inr ⟨rfl, hoffered⟩⟩

/-! ### Whole runs -/

omit [DecodeJob R] in
theorem limits_fail (failure : PoolFailure) : (s.fail failure).limits = s.limits := by
  unfold DecodePool.fail
  split_ifs <;> rfl

omit [DecodeJob R] in
theorem limits_handle (event : Event O) : (s.handle event).limits = s.limits := by
  unfold handle
  split
  · split
    · split
      · split_ifs
        · rfl
        · exact limits_fail _
      · exact limits_fail _
    · exact limits_fail _
  · split_ifs
    · rfl
    · exact limits_fail _
  · split <;> exact limits_fail _

omit [DecodeJob R] in
theorem limits_finish (caller : SweepCaller) : (s.finish caller).limits = s.limits := by
  cases caller <;> rfl

theorem limits_advance (choice : GenerationKey) : (s.advance choice).limits = s.limits := by
  unfold advance
  split
  · rfl
  · split
    · split_ifs <;> rfl
    · rfl
  · split
    · exact limits_handle _
    · split_ifs
      · rfl
      · exact limits_finish _
  · exact limits_finish _
  · rename_i first others caller hphase
    dsimp only
    generalize (if choice ∈ first :: others then choice else first) = key
    split
    · split_ifs <;> rfl
    · rfl
  · split
    · split_ifs <;> rfl
    · rfl
  · split
    · split_ifs <;> rfl
    · rfl
  · rfl

/-- The limits of a pool stay. -/
theorem limits_step (hdepth : 0 < s.limits.depth) (label : PoolLabel R O) :
    (s.step label).limits = s.limits := by
  cases label with
  | tryDecode request spawns =>
      unfold DecodePool.step
      dsimp only
      split_ifs
      · rcases tryDecode_cases hdepth request spawns with
          ⟨failure, hlimits, -, -⟩ | hbusy | ⟨worker, hoffered⟩ | hoffered
        · exact hlimits
        · rw [hbusy]
          rfl
        · rw [hoffered]
        · rw [hoffered]
      · rfl
  | retire key =>
      unfold DecodePool.step
      dsimp only
      by_cases hidle : s.isIdle = true
      · rw [if_pos hidle]
        unfold DecodePool.retire
        split
        · rfl
        · split_ifs <;> rfl
      · rw [if_neg hidle]
  | drain =>
      unfold DecodePool.step
      split_ifs <;> rfl
  | pool choice => exact limits_advance choice
  | worker index choice outcome =>
      unfold DecodePool.step
      dsimp only
      split <;> rfl
  | fail index reason =>
      unfold DecodePool.step
      dsimp only
      split
      · split_ifs <;> rfl
      · rfl

theorem poolOk_new (limits : DecodePoolLimits) : ({ limits } : DecodePool R O).PoolOk where
  workers := fun _ _ hw => by cases hw
  retirements := fun _ _ hw => by cases hw
  workers_le := Nat.zero_le _
  jobs_le := Nat.zero_le _
  generations_le := Nat.zero_le _
  assigned := fun _ _ hgeneration => by cases hgeneration
  affine := fun _ _ _ _ hgeneration => by cases hgeneration
  owned := fun _ _ hjob => absurd hjob List.not_mem_nil
  free := fun _ _ hgeneration => by cases hgeneration
  known := fun _ hevent => absurd hevent List.not_mem_nil
  due := fun _ _ _ hgeneration => by cases hgeneration
  offer := fun _ _ hphase => by cases hphase
  once := fun _ => Or.inl rfl
  ownerships := fun _ => rfl
  unrecorded := fun _ _ => ⟨rfl, rfl, rfl⟩
  never := fun _ _ _ hphase => by cases hphase
  expected := fun _ hfailure => by rcases hfailure with hfailure | hfailure <;> cases hfailure

end DecodePool

theorem depth_pos_of_tryNew {maxWorkers maxJobs maxGenerations depth : ℕ}
    {limits : DecodePoolLimits}
    (h : DecodePoolLimits.tryNew maxWorkers maxJobs maxGenerations depth = .ok limits) :
    0 < limits.depth := by
  unfold DecodePoolLimits.tryNew at h
  split_ifs at h with hpositive hdepth
  cases h
  exact hdepth.1

/-- **The protocol of the decode pool**, for all limits it accepts and in every run: its limits, the
order of its jobs and its accounts, that nothing is left where nobody moves it, and how a request is
returned. -/
theorem decode_pool_protocol {maxWorkers maxJobs maxGenerations depth : ℕ}
    {limits : DecodePoolLimits}
    (h : DecodePoolLimits.tryNew maxWorkers maxJobs maxGenerations depth = .ok limits)
    (labels : List (PoolLabel R O)) :
    (exec DecodePool.step { limits } labels).limits = limits ∧
    (exec DecodePool.step { limits } labels).Proper ∧
    (exec DecodePool.step { limits } labels).Lively ∧
    (exec DecodePool.step { limits } labels).AnswersBusy := by
  have hdepth := depth_pos_of_tryNew h
  have hrun : (exec DecodePool.step ({ limits } : DecodePool R O) labels).PoolOk ∧
      (exec DecodePool.step ({ limits } : DecodePool R O) labels).limits = limits := by
    refine exec_invariant (P := fun s : DecodePool R O => s.PoolOk ∧ s.limits = limits) ?_
      ⟨DecodePool.poolOk_new limits, rfl⟩ labels
    rintro s label ⟨hok, rfl⟩
    exact ⟨hok.step label, DecodePool.limits_step hdepth label⟩
  obtain ⟨hok, hlimits⟩ := hrun
  exact ⟨hlimits, hok.proper, hok.lively, hok.answersBusy (hlimits.symm ▸ hdepth)⟩

end

/-! ### Two runs -/

/-- A job is a request for itself. -/
instance : DecodeJob Job where
  token := Job.token
  frame := Job.frame

def firstJob : Job := { token := 1, frame := { stream := 1, generation := 1, sequence := 1 } }

/-- A job is accepted and its worker starts. -/
theorem decode_pool_protocol_of_one_job :
    (exec DecodePool.step ({ limits := ⟨1, 1, 1, 1⟩ } : DecodePool Job Unit)
      [.tryDecode firstJob true, .pool (0, 0), .worker 0 (0, 0) none]).limits = ⟨1, 1, 1, 1⟩ ∧
    (exec DecodePool.step ({ limits := ⟨1, 1, 1, 1⟩ } : DecodePool Job Unit)
      [.tryDecode firstJob true, .pool (0, 0), .worker 0 (0, 0) none]).Proper ∧
    (exec DecodePool.step ({ limits := ⟨1, 1, 1, 1⟩ } : DecodePool Job Unit)
      [.tryDecode firstJob true, .pool (0, 0), .worker 0 (0, 0) none]).Lively ∧
    (exec DecodePool.step ({ limits := ⟨1, 1, 1, 1⟩ } : DecodePool Job Unit)
      [.tryDecode firstJob true, .pool (0, 0), .worker 0 (0, 0) none]).AnswersBusy :=
  decode_pool_protocol (show DecodePoolLimits.tryNew 1 1 1 1 = .ok ⟨1, 1, 1, 1⟩ from rfl) _

/-- **A request that is returned can leave a worker**: it was started for the request, and failed
before the request could be sent to it. -/
theorem busy_leaves_a_worker :
    DecodePoolLimits.tryNew 1 1 1 1 = .ok ⟨1, 1, 1, 1⟩ ∧
    (exec DecodePool.step ({ limits := ⟨1, 1, 1, 1⟩ } : DecodePool Job Unit)
      [.tryDecode firstJob true, .fail 0 "no codec", .pool (0, 0)]).log =
        [.answered (.busy firstJob)] ∧
    ({ limits := ⟨1, 1, 1, 1⟩ } : DecodePool Job Unit).workers.length = 0 ∧
    (exec DecodePool.step ({ limits := ⟨1, 1, 1, 1⟩ } : DecodePool Job Unit)
      [.tryDecode firstJob true, .fail 0 "no codec", .pool (0, 0)]).workers.length = 1 :=
  ⟨rfl, rfl, rfl, rfl⟩

end Media
