/-
**What the decode pool drains.**

The events of a worker come in the order in which it sent them, so a completion is for its oldest
outstanding job, an acknowledgement is for a generation whose retirement was sent to it, and when it
fails nothing comes after that.

Main results:

* `DecodePool.PoolOk.decoded`, `PoolOk.acknowledged`, `PoolOk.failed` — what is agreed on after
  each kind of event;
* `DecodePool.PoolOk.step` — one step of any party keeps what they agree on.
-/

import Weld.DecodePoolRetirement

namespace Media

section

variable {R O : Type} [DecodeJob R]

namespace DecodePool

variable {s t : DecodePool R O}

/-! ### Draining -/

/-- The events of a worker that are left when the first is taken. -/
def eventsAfter (events : List (Event O)) (worker : ℕ) : List (EventKind O) :=
  events.filterMap fun event => if event.worker = worker then some event.kind else none

omit [DecodeJob R] in
theorem eventsOf_cons {event : Event O} {events : List (Event O)} (h : s.events = event :: events)
    (worker : ℕ) : s.eventsOf worker =
      if event.worker = worker then event.kind :: eventsAfter events worker
      else eventsAfter events worker := by
  unfold eventsOf eventsAfter
  rw [h, List.filterMap_cons]
  split_ifs <;> rfl

/-- What a worker has sent, without the first of it. -/
theorem WorkerOk.tail {worker : ℕ} {w : DecodeWorker R O} (h : s.WorkerOk worker w)
    {kind : EventKind O} {rest : List (EventKind O)} (hkinds : s.eventsOf worker = kind :: rest)
    (hkind : kind.isFailed = false) :
    (w.phase ≠ .done → ∀ kind ∈ rest, kind.isFailed = false) ∧
      (w.phase = .done → ∃ before reason, rest = before ++ [.failed reason] ∧
        ∀ kind ∈ before, kind.isFailed = false) := by
  constructor
  · exact fun hphase kind hkind => h.silent hphase kind (hkinds ▸ List.mem_cons_of_mem _ hkind)
  · intro hdone
    rcases h.gone hdone with ⟨before, reason, hlast, hbefore⟩ | ⟨hnone, -⟩
    · rw [hkinds] at hlast
      cases before with
      | nil =>
          cases hlast
          cases hkind
      | cons first before =>
          rw [List.cons_append, List.cons.injEq] at hlast
          exact ⟨before, reason, hlast.2, fun kind hkind => hbefore kind (List.mem_cons_of_mem _ hkind)⟩
    · rw [hkinds] at hnone
      cases hnone

/-- What is recorded when jobs are collected. -/
def collected (worker : ℕ) (jobs : List Job) : List (PoolEntry R) :=
  jobs.map fun job => .completed worker job.token

omit [DecodeJob R] in
theorem filterMap_collected {α : Type} (f : PoolEntry R → Option α) (worker : ℕ) (jobs : List Job)
    (hf : ∀ token, f (.completed worker token) = none) :
    (collected worker jobs : List (PoolEntry R)).filterMap f = [] := by
  rw [List.filterMap_eq_nil_iff]
  intro entry hentry
  obtain ⟨job, -, rfl⟩ := List.mem_map.mp hentry
  exact hf job.token

omit [DecodeJob R] in
theorem completed_collected (worker other : ℕ) (jobs : List Job) :
    (collected worker jobs : List (PoolEntry R)).filterMap (PoolEntry.completed? other) =
      if worker = other then jobs.map (·.token) else [] := by
  unfold collected
  rw [List.filterMap_map]
  induction jobs with
  | nil => simp
  | cons job jobs ih =>
      rw [List.filterMap_cons, ih]
      simp only [Function.comp, PoolEntry.completed?]
      split_ifs <;> rfl

/-- Some jobs of a worker are collected with an event. -/
def afterCollect (s : DecodePool R O) (event : Event O) (events : List (Event O))
    (w : DecodeWorker R O) (taken rest : List Job) (failure terminalFailure : Option PoolFailure) :
    DecodePool R O :=
  { s with
    events, failure, terminalFailure
    workers := s.workers.set event.worker { w with jobs := rest }
    log := s.log ++ collected event.worker taken }

section Collect

variable {event : Event O} {events : List (Event O)} {w : DecodeWorker R O} {taken rest : List Job}
  {failure terminalFailure : Option PoolFailure}

omit [DecodeJob R] in
theorem filterMap_afterCollect {α : Type} (f : PoolEntry R → Option α)
    (hf : ∀ token, f (.completed event.worker token) = none) :
    (s.afterCollect event events w taken rest failure terminalFailure).log.filterMap f =
      s.log.filterMap f := by
  unfold afterCollect
  rw [List.filterMap_append, filterMap_collected f _ _ hf, List.append_nil]

variable (s event events w taken rest failure terminalFailure) in
omit [DecodeJob R] in
theorem completed_afterCollect (other : ℕ) :
    (s.afterCollect event events w taken rest failure terminalFailure).completed other =
      s.completed other ++ if event.worker = other then taken.map (·.token) else [] := by
  unfold afterCollect DecodePool.completed
  rw [List.filterMap_append, completed_collected]

omit [DecodeJob R] in
theorem mem_jobsOf_afterCollect (hw : s.workers[event.worker]? = some w)
    (hjobs : w.jobs = taken ++ rest) {other : ℕ} {job : Job}
    (h : job ∈ (s.afterCollect event events w taken rest failure terminalFailure).jobsOf other) :
    job ∈ s.jobsOf other := by
  unfold afterCollect jobsOf at h
  rw [getElem?_set_of hw] at h
  split_ifs at h with hsame
  · rw [← hsame, jobsOf_of_getElem? hw, hjobs]
    exact List.mem_append_right _ h
  · exact h

/-- **Jobs are collected**, and nothing else is. -/
theorem PoolOk.collect (h : s.PoolOk) (hdraining : s.phase = .draining)
    (hevents : s.events = event :: events) (hw : s.workers[event.worker]? = some w)
    (hjobs : w.jobs = taken ++ rest) (hkey : event.kind.key? = none)
    (hfailure : s.failure.isSome = true → failure.isSome = true)
    (hok : (s.afterCollect event events w taken rest failure terminalFailure).WorkerOk
      event.worker { w with jobs := rest })
    (hexpected : ∀ f, failure = some f ∨ terminalFailure = some f →
      f ≠ .unexpectedToken ∧ f ≠ .unexpectedAcknowledgement) :
    (s.afterCollect event events w taken rest failure terminalFailure).PoolOk := by
  have hlength : (s.workers.set event.worker { w with jobs := rest }).length =
      s.workers.length := List.length_set
  have hpresent : event.worker < s.workers.length := (List.getElem?_eq_some_iff.mp hw).1
  have hcalls : ∀ key, (s.afterCollect event events w taken rest failure
      terminalFailure).calls key = s.calls key := fun key =>
    congrArg (List.count key) (filterMap_afterCollect _ fun _ => rfl)
  have hreleases : ∀ key, (s.afterCollect event events w taken rest failure
      terminalFailure).releases key = s.releases key := fun key =>
    congrArg (List.count key) (filterMap_afterCollect _ fun _ => rfl)
  have hownerships : ∀ key, (s.afterCollect event events w taken rest failure
      terminalFailure).ownerships key = s.ownerships key := fun key =>
    congrArg (List.count key) (filterMap_afterCollect _ fun _ => rfl)
  refine ⟨?_, ?_, ?_, ?_, h.generations_le, ?_, h.affine, ?_, ?_, ?_, ?_, ?_, ?_, ?_, ?_, ?_,
    hexpected⟩
  · intro other w₀ hw₀
    rcases getElem?_set_cases hw hw₀ with ⟨rfl, rfl⟩ | ⟨hsame, hw₀⟩
    · exact hok
    · have hcompleted := completed_afterCollect s event events w taken rest failure terminalFailure
        other
      rw [if_neg hsame, List.append_nil] at hcompleted
      refine (h.workers other w₀ hw₀).congr ⟨rfl, ?_, rfl, rfl, hfailure, ?_, hcompleted, ?_⟩
      · rw [eventsOf_cons hevents, if_neg hsame]
        rfl
      · exact filterMap_afterCollect _ fun _ => rfl
      · exact filterMap_afterCollect _ fun _ => rfl
  · intro other w₀ hw₀
    have hkinds : (eventsAfter events other).filterMap EventKind.key? =
        (s.eventsOf other).filterMap EventKind.key? := by
      rw [eventsOf_cons hevents]
      split_ifs
      · rw [List.filterMap_cons, hkey]
      · rfl
    rcases getElem?_set_cases hw hw₀ with ⟨hsame, rfl⟩ | ⟨-, hw₀⟩
    · exact (h.retirements other w (hsame ▸ hw)).same rfl rfl hkinds rfl
        fun key _ => ⟨hcalls key, hreleases key⟩
    · exact (h.retirements other w₀ hw₀).same rfl rfl hkinds rfl
        fun key _ => ⟨hcalls key, hreleases key⟩
  · change (s.workers.set _ _).length ≤ _
    rw [hlength]
    exact h.workers_le
  · have hsum := sum_map_set (a := { w with jobs := rest }) (fun worker => worker.jobs.length) hw
    have hle := h.jobs_le
    rw [hjobs, List.length_append] at hsum
    dsimp only at hsum
    unfold jobCount at hle ⊢
    change ((s.workers.set _ _).map fun worker => worker.jobs.length).sum ≤ s.limits.maxJobs
    omega
  · intro key generation hgeneration
    change _ < (s.workers.set _ _).length
    rw [hlength]
    exact h.assigned key generation hgeneration
  · exact fun other job hjob => h.owned other job (mem_jobsOf_afterCollect hw hjobs hjob)
  · exact fun key generation hgeneration hsent job hjob =>
      h.free key generation hgeneration hsent job (mem_jobsOf_afterCollect hw hjobs hjob)
  · intro other hother
    change _ < (s.workers.set _ _).length
    rw [hlength]
    exact h.known other (hevents ▸ List.mem_cons_of_mem _ hother)
  · intro _ key _ _ _ _
    change _ ∨ s.phase.sweeps key
    rw [hdraining]
    exact Or.inr trivial
  · intro request worker hoffering
    change s.phase = _ at hoffering
    rw [hdraining] at hoffering
    cases hoffering
  · intro key
    rw [hcalls, hreleases]
    rcases h.once key with hnot | ⟨honce, generation, hgeneration, hretiring, hsent, hother⟩
    · exact Or.inl hnot
    · refine Or.inr ⟨honce, generation, hgeneration, hretiring, hsent, ?_⟩
      intro w₀ hw₀
      rcases getElem?_set_cases hw hw₀ with ⟨hsame, rfl⟩ | ⟨-, hw₀⟩
      · exact hother w (hsame ▸ hw)
      · exact hother w₀ hw₀
  · intro key
    rw [hownerships, hreleases]
    exact h.ownerships key
  · intro other hother
    change (s.workers.set _ _).length ≤ other at hother
    rw [hlength] at hother
    obtain ⟨haccepted, hcompleted, hsubmitted⟩ := h.unrecorded other hother
    refine ⟨?_, ?_, ?_⟩
    · exact (filterMap_afterCollect _ fun _ => rfl).trans haccepted
    · rw [completed_afterCollect s event events w taken rest, if_neg (by omega), List.append_nil]
      exact hcompleted
    · exact (filterMap_afterCollect _ fun _ => rfl).trans hsubmitted
  · intro worker rest' caller hunsetting
    change s.phase = _ at hunsetting
    rw [hdraining] at hunsetting
    cases hunsetting

/-- A completion is for the oldest outstanding job. -/
theorem PoolOk.decoded (h : s.PoolOk) (hdraining : s.phase = .draining)
    (hevents : s.events = event :: events) {completion : DecodeCompletion O}
    (hkind : event.kind = .decoded completion) :
    (({ s with events } : DecodePool R O).handle event).PoolOk := by
  have hpresent := h.known event (hevents ▸ List.mem_cons_self)
  obtain ⟨w, hw⟩ : ∃ w, s.workers[event.worker]? = some w := ⟨_, List.getElem?_eq_getElem hpresent⟩
  have hok := h.workers event.worker w hw
  have hkinds := eventsOf_cons hevents event.worker
  rw [if_pos rfl, hkind] at hkinds
  have htokens : (s.eventsOf event.worker).filterMap EventKind.token? =
      completion.token :: (eventsAfter events event.worker).filterMap EventKind.token? := by
    rw [hkinds, List.filterMap_cons]
    rfl
  have hclosed := hok.closed
  rw [htokens] at hclosed
  unfold handle
  rw [hkind]
  rw [hw]
  dsimp only
  cases hjobs : w.jobs with
  | nil =>
      rw [hjobs] at hclosed
      exact absurd (List.prefix_nil.mp hclosed) (List.cons_ne_nil _ _)
  | cons job rest =>
      rw [hjobs, List.map_cons, List.cons_prefix_cons] at hclosed
      obtain ⟨htoken, hclosed⟩ := hclosed
      dsimp only
      rw [if_pos htoken.symm, htoken]
      suffices hcollected :
          (s.afterCollect event events w [job] rest s.failure s.terminalFailure).PoolOk from
        hcollected
      refine h.collect hdraining hevents hw hjobs ?_ id ?_ h.expected
      · rw [hkind]
        rfl
      · have haccepted : (s.afterCollect event events w [job] rest s.failure
            s.terminalFailure).accepted event.worker = s.accepted event.worker :=
          filterMap_afterCollect _ fun _ => rfl
        have hsubmitted : (s.afterCollect event events w [job] rest s.failure
            s.terminalFailure).submitted event.worker = s.submitted event.worker :=
          filterMap_afterCollect _ fun _ => rfl
        have hcompleted := completed_afterCollect s event events w [job] rest s.failure
          s.terminalFailure event.worker
        rw [if_pos rfl] at hcompleted
        refine ⟨?_, ?_, hclosed, hok.keeps, hok.wakes, hok.mailbox, ?_, ?_, ?_, ?_, ?_⟩
        · have hdepth := hok.depth
          rw [hjobs, List.length_cons] at hdepth
          exact (Nat.le_succ _).trans hdepth
        · intro hopen
          have hpipeline := hok.pipeline hopen
          rw [htokens, hjobs, List.map_cons, List.cons_append, List.cons.injEq] at hpipeline
          exact hpipeline.2
        · exact (hok.tail hkinds rfl).1
        · exact fun hdone => Or.inl ((hok.tail hkinds rfl).2 hdone)
        · rw [haccepted, hcompleted, hok.accepted, hjobs, List.append_assoc]
          rfl
        · rw [haccepted, hsubmitted]
          exact hok.ordered
        · intro hopen
          rw [haccepted, hsubmitted]
          exact hok.submitted hopen

/-- What a worker leaves behind when it fails is completed with its last event. -/
theorem PoolOk.failed (h : s.PoolOk) (hdraining : s.phase = .draining)
    (hevents : s.events = event :: events) {reason : String}
    (hkind : event.kind = .failed reason) :
    (({ s with events } : DecodePool R O).handle event).PoolOk := by
  have hpresent := h.known event (hevents ▸ List.mem_cons_self)
  obtain ⟨w, hw⟩ : ∃ w, s.workers[event.worker]? = some w := ⟨_, List.getElem?_eq_getElem hpresent⟩
  have hok := h.workers event.worker w hw
  have hkinds := eventsOf_cons hevents event.worker
  rw [if_pos rfl, hkind] at hkinds
  -- the event is the last one, and its worker is gone
  have hdone : w.phase = .done := by
    by_contra hphase
    have hsilent := hok.silent hphase (.failed reason) (hkinds ▸ List.mem_cons_self)
    cases hsilent
  have hlast : eventsAfter events event.worker = [] := by
    rcases hok.gone hdone with ⟨before, reason', hlast, hbefore⟩ | ⟨hnone, -⟩
    · rw [hkinds] at hlast
      cases before with
      | nil => exact (List.cons.injEq _ _ _ _ ▸ hlast).2
      | cons first before =>
          rw [List.cons_append, List.cons.injEq] at hlast
          have hfirst := hbefore first List.mem_cons_self
          rw [← hlast.1] at hfirst
          cases hfirst
    · rw [hkinds] at hnone
      cases hnone
  have hcollect : ∀ {failure terminalFailure : Option PoolFailure}, failure.isSome = true →
      (∀ f, failure = some f ∨ terminalFailure = some f →
        f ≠ .unexpectedToken ∧ f ≠ .unexpectedAcknowledgement) →
      (s.afterCollect event events w w.jobs [] failure terminalFailure).PoolOk := by
    intro failure terminalFailure hfailure hexpected
    refine h.collect hdraining hevents hw (List.append_nil _).symm (by rw [hkind]; rfl)
      (fun _ => hfailure) ?_ hexpected
    have haccepted : (s.afterCollect event events w w.jobs [] failure
        terminalFailure).accepted event.worker = s.accepted event.worker :=
      filterMap_afterCollect _ fun _ => rfl
    have hsubmitted : (s.afterCollect event events w w.jobs [] failure
        terminalFailure).submitted event.worker = s.submitted event.worker :=
      filterMap_afterCollect _ fun _ => rfl
    have hcompleted := completed_afterCollect s event events w w.jobs [] failure terminalFailure
      event.worker
    rw [if_pos rfl] at hcompleted
    have hopen : ∀ {P : Prop}, w.phase.isOpen = true → P := by
      intro P hopen
      rw [hdone] at hopen
      cases hopen
    refine ⟨Nat.zero_le _, hopen, ?_, hopen, hopen, hopen, ?_, ?_, ?_, ?_, hopen⟩
    · change (eventsAfter events event.worker).filterMap EventKind.token? <+: []
      rw [hlast]
      exact List.nil_prefix
    · intro hphase
      exact absurd hdone hphase
    · exact fun _ => Or.inr ⟨hlast, rfl, hfailure⟩
    · rw [haccepted, hcompleted, hok.accepted]
      exact (List.append_nil _).symm
    · rw [haccepted, hsubmitted]
      exact hok.ordered
  unfold handle
  rw [hkind]
  rw [hw]
  unfold DecodePool.fail
  split_ifs with hnone
  · have hworker : (PoolFailure.worker reason) ≠ .unexpectedToken ∧
        (PoolFailure.worker reason) ≠ .unexpectedAcknowledgement := by
      constructor <;>
        · intro hne
          cases hne
    refine hcollect rfl ?_
    rintro f (hf | hf) <;> cases hf <;> exact hworker
  · exact hcollect (Option.isNone_eq_false_iff.mp (Bool.eq_false_iff.mpr hnone)) h.expected

/-- **An acknowledgement is expected**, and ends what the generation takes. -/
theorem PoolOk.acknowledged (h : s.PoolOk) (hdraining : s.phase = .draining)
    (hevents : s.events = event :: events) {key : GenerationKey}
    (hkind : event.kind = .retired key) :
    (({ s with events } : DecodePool R O).handle event).PoolOk := by
  have hpresent := h.known event (hevents ▸ List.mem_cons_self)
  obtain ⟨w, hw⟩ : ∃ w, s.workers[event.worker]? = some w := ⟨_, List.getElem?_eq_getElem hpresent⟩
  have hret := h.retirements event.worker w hw
  have hkinds := eventsOf_cons hevents event.worker
  rw [if_pos rfl, hkind] at hkinds
  have hplaces : s.retirementsOf event.worker w = w.places ++
      key :: (eventsAfter events event.worker).filterMap EventKind.key? := by
    rw [retirementsOf, hkinds, List.filterMap_cons]
    rfl
  obtain ⟨generation, hgeneration, hworker, hretiring, hsent⟩ := hret.sent key (by
    rw [hplaces]
    exact List.mem_append_right _ List.mem_cons_self)
  have hnodup := hret.nodup
  rw [hplaces, List.nodup_middle, List.nodup_cons] at hnodup
  have hcalled : s.calls key = s.releases key + 1 := hret.called key (by
    rw [hkinds, List.filterMap_cons]
    exact List.mem_append_right _ List.mem_cons_self)
  have hcheck : (s.generations.lookup key).any (fun generation =>
      generation.worker == event.worker && generation.retiring && generation.retirementSent) =
      true := by
    rw [hgeneration, Option.any_some, hretiring, hsent, Bool.and_true, Bool.and_true]
    exact beq_iff_eq.mpr hworker
  unfold handle
  rw [hkind]
  dsimp only
  rw [if_pos hcheck]
  -- what the record and the table say afterwards
  have hlog : ∀ {α : Type} (f : PoolEntry R → Option α), f (.released key) = none →
      (s.log ++ [PoolEntry.released key]).filterMap f = s.log.filterMap f := by
    intro α f hf
    rw [List.filterMap_append, List.filterMap_cons, hf, List.filterMap_nil, List.append_nil]
  have hreleases : ∀ other,
      ((s.log ++ [PoolEntry.released key]).filterMap PoolEntry.released?).count other =
      s.releases other + if other = key then 1 else 0 := by
    intro other
    rw [List.filterMap_append, List.count_append]
    congr 1
    change [key].count other = _
    rw [List.count_singleton]
    by_cases hof : other = key
    · rw [if_pos hof, if_pos (beq_iff_eq.mpr hof.symm)]
    · rw [if_neg hof, if_neg (fun heq => hof (beq_iff_eq.mp heq).symm)]
  have hlookup : ∀ other, (s.generations.erase key).lookup other =
      if other = key then none else s.generations.lookup other :=
    fun other => AList.lookup_erase_eq _ _ _
  have hbefore : ∀ {other generation'}, (s.generations.erase key).lookup other = some generation' →
      other ≠ key ∧ s.generations.lookup other = some generation' := by
    intro other generation' hother
    rw [hlookup] at hother
    split_ifs at hother with hof
    exact ⟨hof, hother⟩
  -- no other worker has the generation
  have hapart : ∀ other w₀, s.workers[other]? = some w₀ → other ≠ event.worker →
      key ∉ s.retirementsOf other w₀ := by
    intro other w₀ hw₀ hother hmem
    obtain ⟨generation', hgeneration', hworker', -⟩ := (h.retirements other w₀ hw₀).sent key hmem
    rw [hgeneration] at hgeneration'
    cases hgeneration'
    exact hother (hworker'.symm.trans hworker)
  refine ⟨?_, ?_, h.workers_le, h.jobs_le, ?_, ?_, ?_, ?_, ?_, ?_, ?_, ?_, ?_, ?_, ?_, ?_,
    h.expected⟩
  · intro other w₀ hw₀
    have hok := h.workers other w₀ hw₀
    by_cases hsame : event.worker = other
    · subst hsame
      have htokens : (s.eventsOf event.worker).filterMap EventKind.token? =
          (eventsAfter events event.worker).filterMap EventKind.token? := by
        rw [hkinds, List.filterMap_cons]
        rfl
      refine ⟨hok.depth, ?_, ?_, hok.keeps, hok.wakes, hok.mailbox, ?_, ?_, ?_, ?_, ?_⟩
      · intro hopen
        exact (hok.pipeline hopen).trans (congrArg (· ++ w₀.inside) htokens)
      · exact htokens ▸ hok.closed
      · exact (hok.tail hkinds rfl).1
      · exact fun hdone => Or.inl ((hok.tail hkinds rfl).2 hdone)
      · unfold DecodePool.accepted DecodePool.completed
        rw [hlog _ rfl, hlog _ rfl]
        exact hok.accepted
      · unfold DecodePool.submitted DecodePool.accepted
        rw [hlog _ rfl, hlog _ rfl]
        exact hok.ordered
      · intro hopen
        unfold DecodePool.submitted DecodePool.accepted
        rw [hlog _ rfl, hlog _ rfl]
        exact hok.submitted hopen
    · refine hok.congr ⟨rfl, ?_, rfl, rfl, id, hlog _ rfl, hlog _ rfl, hlog _ rfl⟩
      rw [eventsOf_cons hevents, if_neg hsame]
      rfl
  · intro other w₀ hw₀
    by_cases hsame : event.worker = other
    · subst hsame
      rw [hw] at hw₀
      cases hw₀
      have hsub : ∀ other ∈ w.places ++
          (eventsAfter events event.worker).filterMap EventKind.key?, other ≠ key ∧
            other ∈ s.retirementsOf event.worker w := by
        intro other hother
        refine ⟨fun hof => hnodup.1 (hof ▸ hother), ?_⟩
        rw [hplaces, List.mem_append, List.mem_cons]
        rcases List.mem_append.mp hother with hother | hother
        · exact Or.inl hother
        · exact Or.inr (Or.inr hother)
      refine ⟨hnodup.2, ?_, ?_, ?_⟩
      · intro other hother
        obtain ⟨hof, hmem⟩ := hsub other hother
        rw [hlookup, if_neg hof]
        exact hret.sent other hmem
      · intro hopen other generation' hother hworker' hsent'
        obtain ⟨hof, hother⟩ := hbefore hother
        have hmem := hret.placed hopen other generation' hother hworker' hsent'
        rw [hplaces, List.mem_append, List.mem_cons] at hmem
        rcases hmem with hmem | hmem | hmem
        · exact List.mem_append_left _ hmem
        · exact absurd hmem hof
        · exact List.mem_append_right _ hmem
      · intro other hother
        have hmem : other ∈ w.phase.called ++ (s.eventsOf event.worker).filterMap EventKind.key? := by
          rw [hkinds, List.filterMap_cons, List.mem_append]
          rcases List.mem_append.mp hother with hother | hother
          · exact Or.inl hother
          · exact Or.inr (List.mem_cons_of_mem _ hother)
        have hof : other ≠ key := by
          refine (hsub other ?_).1
          rcases List.mem_append.mp hother with hother | hother
          · exact List.mem_append_left _ (List.mem_append_right _ hother)
          · exact List.mem_append_right _ hother
        unfold calls releases
        rw [hreleases, if_neg hof, hlog _ rfl]
        exact hret.called other hmem
    · refine (h.retirements other w₀ hw₀).congr rfl rfl ?_ ?_ ?_ ?_
      · rw [eventsOf_cons hevents, if_neg hsame]
        rfl
      · intro other' hother'
        rw [hlookup, if_neg]
        rintro rfl
        exact hapart other w₀ hw₀ (Ne.symm hsame) hother'
      · intro other' generation' hother' hworker' hsent'
        exact ⟨generation', (hbefore hother').2, hworker', hsent'⟩
      · intro other' hother'
        have hof : other' ≠ key := by
          rintro rfl
          exact hapart other w₀ hw₀ (Ne.symm hsame) hother'
        unfold calls releases
        rw [hreleases, if_neg hof, hlog _ rfl]
        exact ⟨rfl, rfl⟩
  · exact (AList.size_erase_le _ _).trans h.generations_le
  · intro other generation' hother
    exact h.assigned other generation' (hbefore hother).2
  · intro key₁ generation₁ key₂ generation₂ h₁ h₂
    exact h.affine key₁ generation₁ key₂ generation₂ (hbefore h₁).2 (hbefore h₂).2
  · intro other job hjob
    obtain ⟨generation', hgeneration', hworker'⟩ := h.owned other job hjob
    refine ⟨generation', ?_, hworker'⟩
    rw [hlookup, if_neg]
    · exact hgeneration'
    · -- a generation whose retirement is sent has no job left
      intro hof
      rw [hof, hgeneration] at hgeneration'
      cases hgeneration'
      rw [← hworker'] at hjob
      exact h.free key generation hgeneration hsent job hjob hof
  · intro other generation' hother hsent' job hjob
    exact h.free other generation' (hbefore hother).2 hsent' job hjob
  · intro other hother
    exact h.known other (hevents ▸ List.mem_cons_of_mem _ hother)
  · intro _ other _ _ _ _
    change _ ∨ s.phase.sweeps other
    rw [hdraining]
    exact Or.inr trivial
  · intro request worker hoffering
    change s.phase = _ at hoffering
    rw [hdraining] at hoffering
    cases hoffering
  · intro other
    unfold calls releases
    rw [hreleases, hlog _ rfl]
    by_cases hof : other = key
    · rw [if_pos hof, hof]
      exact Or.inl hcalled
    · rw [if_neg hof, Nat.add_zero]
      rcases h.once other with hnot | ⟨honce, generation', hgeneration', hrest⟩
      · exact Or.inl hnot
      · refine Or.inr ⟨honce, generation', ?_, hrest⟩
        rw [hlookup, if_neg hof]
        exact hgeneration'
  · intro other
    have hold := h.ownerships other
    unfold DecodePool.ownerships releases
    rw [hreleases, hlog _ rfl]
    have hmem : other ∈ s.generations.erase key ↔ other ≠ key ∧ other ∈ s.generations :=
      AList.mem_erase
    rw [if_congr hmem rfl rfl]
    by_cases hof : other = key
    · have howned : other ∈ s.generations := by
        rw [hof, ← AList.lookup_isSome, hgeneration]
        rfl
      rw [if_pos howned] at hold
      rw [if_pos hof, if_neg (fun hne => hne.1 hof)]
      exact hold
    · simp only [hof, ne_eq, not_false_eq_true, true_and, if_false, Nat.add_zero]
      exact hold
  · intro other hother
    obtain ⟨haccepted, hcompleted, hsubmitted⟩ := h.unrecorded other hother
    exact ⟨(hlog _ rfl).trans haccepted, (hlog _ rfl).trans hcompleted,
      (hlog _ rfl).trans hsubmitted⟩
  · intro worker rest' caller hunsetting
    change s.phase = _ at hunsetting
    rw [hdraining] at hunsetting
    cases hunsetting

end Collect

/-- **The pool takes an event**, or finds none. -/
theorem PoolOk.drained (h : s.PoolOk) (hdraining : s.phase = .draining) (choice : GenerationKey) :
    (s.advance choice).PoolOk := by
  have hquiet : s.phase.isQuiet = true := by rw [hdraining]; rfl
  unfold advance
  rw [hdraining]
  dsimp only
  rw [← hdraining]
  split
  · rename_i event events hevents
    cases hkind : event.kind with
    | decoded completion => exact h.decoded hdraining hevents hkind
    | retired key => exact h.acknowledged hdraining hevents hkind
    | failed reason => exact h.failed hdraining hevents hkind
  · split_ifs with hfailure
    · exact h.goTo (.sweeping s.generations.keys .drain) hquiet rfl
        (fun _ key generation hgeneration _ _ => Or.inr (AList.mem_keys_of_lookup hgeneration))
        fun _ _ hoffering => by cases hoffering
    · refine h.finish hquiet (fun hnone => ?_) .drain
      rw [hnone] at hfailure
      exact absurd rfl hfailure

/-! ### All steps -/

/-- **The pool takes its next step.** -/
theorem PoolOk.advance (h : s.PoolOk) (choice : GenerationKey) : (s.advance choice).PoolOk := by
  cases hphase : s.phase with
  | idle =>
      unfold DecodePool.advance
      rw [hphase]
      exact h
  | offering request worker =>
      have hquiet : s.phase.isQuiet = true := by rw [hphase]; rfl
      have hdone : s.failure = none → ∀ key, ¬ s.phase.sweeps key := by
        rw [hphase]
        exact fun _ _ hsweeps => hsweeps
      unfold DecodePool.advance
      rw [hphase]
      dsimp only
      split
      · rename_i w hw
        split_ifs with hopen
        · exact h.accept hphase hw hopen.1
        · exact h.answer hquiet hdone _
      · exact h.answer hquiet hdone _
  | draining => exact h.drained hphase choice
  | sweeping before caller => exact h.swept hphase choice
  | signalling worker rest caller => exact h.signalled hphase choice
  | waking worker rest caller => exact h.woken hphase choice
  | unsetting worker rest caller => exact absurd hphase (h.never worker rest caller)

omit [DecodeJob R] in
theorem isIdle_iff : s.isIdle = true ↔ s.phase = .idle := by
  unfold isIdle
  split
  · rename_i hphase
    simp [hphase]
  · rename_i hphase
    exact ⟨fun hidle => (by cases hidle), fun hidle => absurd hidle hphase⟩

/-- **One step keeps what the parties agree on.** -/
theorem PoolOk.step (h : s.PoolOk) (label : PoolLabel R O) : (s.step label).PoolOk := by
  cases label with
  | tryDecode request spawns =>
      unfold DecodePool.step
      split_ifs with hidle
      · exact h.tryDecode (isIdle_iff.mp hidle) request spawns
      · exact h
  | retire key =>
      unfold DecodePool.step
      split_ifs with hidle
      · exact h.retire (isIdle_iff.mp hidle) key
      · exact h
  | drain =>
      unfold DecodePool.step
      split_ifs with hidle
      · have hphase := isIdle_iff.mp hidle
        exact h.goTo .draining (by rw [hphase]; rfl) rfl (fun _ _ _ _ _ _ => Or.inr trivial)
          fun _ _ hoffering => by cases hoffering
      · exact h
  | pool choice => exact h.advance choice
  | worker index choice outcome => exact h.worker_step index choice outcome
  | fail index reason => exact h.fail_step index reason

end DecodePool

end

end Media
