/-
**What the decode pool and its workers agree on.**

What the pool believes about a worker and what the worker does fit together in every state: the jobs
it holds outstanding are the completions on their way and the jobs inside, in that order; a generation
whose retirement it has sent is in exactly one place until it is acknowledged; and the flag is set
exactly while a `Wake` is on its way, so that a worker never waits with anything in its mailbox.

Main definitions: `DecodePool.WorkerOk`, `DecodePool.RetirementsOk`, `DecodePool.PoolOk`.

Main results:

* `DecodePool.PoolOk.worker_step`, `PoolOk.fail_step` — no step of a worker, and no failure of
  one, changes this.
-/

import Weld.DecodeWorkers

namespace Media

open PoolEntry EventKind

section

variable {R O : Type} [DecodeJob R]

/-! ### What the record says -/

def PoolEntry.accepted? (worker : ℕ) : PoolEntry R → Option ℕ
  | .accepted worker' token => if worker' = worker then some token else none
  | _ => none

def PoolEntry.completed? (worker : ℕ) : PoolEntry R → Option ℕ
  | .completed worker' token => if worker' = worker then some token else none
  | _ => none

def PoolEntry.owned? : PoolEntry R → Option GenerationKey
  | .owned key => some key
  | _ => none

def PoolEntry.released? : PoolEntry R → Option GenerationKey
  | .released key => some key
  | _ => none

namespace DecodePool

/-- The jobs accepted for a worker, in their order. -/
def accepted (s : DecodePool R O) (worker : ℕ) : List ℕ :=
  s.log.filterMap (accepted? worker)

/-- The completions handed out for a worker. -/
def completed (s : DecodePool R O) (worker : ℕ) : List ℕ :=
  s.log.filterMap (completed? worker)

/-- The jobs submitted to the codec of a worker. -/
def submitted (s : DecodePool R O) (worker : ℕ) : List ℕ :=
  s.log.filterMap (submission? worker)

/-- How often a generation became owned, was retired by a codec, and was released. -/
def ownerships (s : DecodePool R O) (key : GenerationKey) : ℕ :=
  (s.log.filterMap owned?).count key

def calls (s : DecodePool R O) (key : GenerationKey) : ℕ :=
  (s.log.filterMap call?).count key

def releases (s : DecodePool R O) (key : GenerationKey) : ℕ :=
  (s.log.filterMap released?).count key

/-! ### One worker -/

/-- The events of a worker that are on their way. -/
def eventsOf (s : DecodePool R O) (worker : ℕ) : List (EventKind O) :=
  s.events.filterMap fun event => if event.worker = worker then some event.kind else none

end DecodePool

/-- The pool has put something into a mailbox and has not looked at the flag yet. -/
def PoolPhase.signals (phase : PoolPhase R) (worker : ℕ) : Bool :=
  match phase with
  | .signalling worker' _ _ => worker' == worker
  | _ => false

/-- The pool has set a flag and has not sent the `Wake` yet. -/
def PoolPhase.wakes (phase : PoolPhase R) (worker : ℕ) : ℕ :=
  match phase with
  | .waking worker' _ _ => if worker' = worker then 1 else 0
  | _ => 0

/-- A generation will be considered before the pool returns. -/
def PoolPhase.sweeps (phase : PoolPhase R) (key : GenerationKey) : Prop :=
  match phase with
  | .draining => True
  | .sweeping rest _ | .signalling _ rest _ | .waking _ rest _ | .unsetting _ rest _ => key ∈ rest
  | _ => False

namespace DecodePool

/-- The jobs of a worker, and its flag. -/
structure WorkerOk (s : DecodePool R O) (worker : ℕ) (w : DecodeWorker R O) : Prop where
  depth : w.jobs.length ≤ s.limits.depth
  pipeline : w.phase.isOpen = true →
    w.jobs.map (·.token) = (s.eventsOf worker).filterMap token? ++ w.inside
  closed : (s.eventsOf worker).filterMap token? <+: w.jobs.map (·.token)
  keeps : w.phase.isOpen = true → w.received.isSome = true → w.phase.mayKeep = true
  wakes : w.phase.isOpen = true → w.wakes + s.phase.wakes worker = w.wakeQueued.toNat
  mailbox : w.phase.isOpen = true → w.keys ≠ [] → w.wakeQueued = true ∨
    w.phase.willCheck = true ∨ s.phase.signals worker = true
  silent : w.phase ≠ .done → ∀ kind ∈ s.eventsOf worker, kind.isFailed = false
  gone : w.phase = .done →
    (∃ before reason, s.eventsOf worker = before ++ [.failed reason] ∧
      ∀ kind ∈ before, kind.isFailed = false) ∨
    s.eventsOf worker = [] ∧ w.jobs = [] ∧ s.failure.isSome = true
  accepted : s.accepted worker = s.completed worker ++ w.jobs.map (·.token)
  ordered : s.submitted worker <+: s.accepted worker
  submitted : w.phase.isOpen = true → s.submitted worker ++ w.unsubmitted = s.accepted worker

/-- The generations that are with a worker to be retired, or acknowledged by it. -/
def retirementsOf (s : DecodePool R O) (worker : ℕ) (w : DecodeWorker R O) : List GenerationKey :=
  w.places ++ (s.eventsOf worker).filterMap key?

/-- A generation whose retirement is sent is in one place. -/
structure RetirementsOk (s : DecodePool R O) (worker : ℕ) (w : DecodeWorker R O) : Prop where
  nodup : (s.retirementsOf worker w).Nodup
  sent : ∀ key ∈ s.retirementsOf worker w, ∃ generation, s.generations.lookup key =
    some generation ∧ generation.worker = worker ∧ generation.retiring = true ∧
      generation.retirementSent = true
  placed : w.phase.isOpen = true → ∀ key generation, s.generations.lookup key = some generation →
    generation.worker = worker → generation.retirementSent = true → key ∈ s.retirementsOf worker w
  called : ∀ key ∈ w.phase.called ++ (s.eventsOf worker).filterMap key?,
    s.calls key = s.releases key + 1

/-! ### The pool -/

/-- A request that is about to be sent was admitted. -/
structure OfferOk (s : DecodePool R O) (request : R) (worker : ℕ) : Prop where
  present : worker < s.workers.length
  room : (s.jobsOf worker).length < s.limits.depth
  jobs : s.jobCount < s.limits.maxJobs
  lively : ∀ generation, s.generations.lookup (generationOf request) = some generation →
    generation.retiring = false
  generations : generationOf request ∈ s.generations ∨ s.generations.size < s.limits.maxGenerations
  affine : ∀ key generation, s.generations.lookup key = some generation →
    key.1 = (generationOf request).1 → generation.worker = worker

structure PoolOk (s : DecodePool R O) : Prop where
  workers : ∀ worker w, s.workers[worker]? = some w → s.WorkerOk worker w
  retirements : ∀ worker w, s.workers[worker]? = some w → s.RetirementsOk worker w
  workers_le : s.workers.length ≤ s.limits.maxWorkers
  jobs_le : s.jobCount ≤ s.limits.maxJobs
  generations_le : s.generations.size ≤ s.limits.maxGenerations
  assigned : ∀ key generation, s.generations.lookup key = some generation →
    generation.worker < s.workers.length
  affine : ∀ key generation key' generation', s.generations.lookup key = some generation →
    s.generations.lookup key' = some generation' → key.1 = key'.1 →
      generation.worker = generation'.worker
  owned : ∀ worker, ∀ job ∈ s.jobsOf worker, ∃ generation,
    s.generations.lookup job.key = some generation ∧ generation.worker = worker
  free : ∀ key generation, s.generations.lookup key = some generation →
    generation.retirementSent = true → ∀ job ∈ s.jobsOf generation.worker, job.key ≠ key
  known : ∀ event ∈ s.events, event.worker < s.workers.length
  due : s.failure = none → ∀ key generation, s.generations.lookup key = some generation →
    generation.retiring = true → generation.retirementSent = false →
      (∃ job ∈ s.jobsOf generation.worker, job.key = key) ∨ s.phase.sweeps key
  offer : ∀ request worker, s.phase = .offering request worker → s.OfferOk request worker
  once : ∀ key, s.calls key = s.releases key ∨ s.calls key = s.releases key + 1 ∧
    ∃ generation, s.generations.lookup key = some generation ∧ generation.retiring = true ∧
      generation.retirementSent = true ∧ ∀ w, s.workers[generation.worker]? = some w →
        key ∉ w.keys ++ w.phase.hand
  ownerships : ∀ key, s.ownerships key = s.releases key + if key ∈ s.generations then 1 else 0
  unrecorded : ∀ worker, s.workers.length ≤ worker →
    s.accepted worker = [] ∧ s.completed worker = [] ∧ s.submitted worker = []
  never : ∀ worker rest caller, s.phase ≠ .unsetting worker rest caller
  expected : ∀ failure, s.failure = some failure ∨ s.terminalFailure = some failure →
    failure ≠ .unexpectedToken ∧ failure ≠ .unexpectedAcknowledgement

/-! ### Looking things up -/

theorem getElem?_set_of {α : Type} {l : List α} {i : ℕ} {a b : α} (h : l[i]? = some b) (j : ℕ) :
    (l.set i a)[j]? = if i = j then some a else l[j]? := by
  obtain ⟨hlength, -⟩ := List.getElem?_eq_some_iff.mp h
  rw [List.getElem?_set]
  simp [hlength]

theorem getElem?_set_cases {α : Type} {l : List α} {i j : ℕ} {a b c : α} (h : l[i]? = some b)
    (hj : (l.set i a)[j]? = some c) : i = j ∧ a = c ∨ i ≠ j ∧ l[j]? = some c := by
  rw [getElem?_set_of h] at hj
  split_ifs at hj with hsame
  · exact Or.inl ⟨hsame, Option.some.inj hj⟩
  · exact Or.inr ⟨hsame, hj⟩

theorem sum_map_set {α : Type} (f : α → ℕ) {l : List α} {i : ℕ} {a b : α} (h : l[i]? = some b) :
    ((l.set i a).map f).sum + f b = (l.map f).sum + f a := by
  induction l generalizing i with
  | nil => cases h
  | cons c l ih =>
      cases i with
      | zero =>
          cases h
          simp only [List.set_cons_zero, List.map_cons, List.sum_cons]
          omega
      | succ i =>
          have hrest := ih h
          simp only [List.set_cons_succ, List.map_cons, List.sum_cons]
          omega

variable {s t : DecodePool R O} {worker : ℕ} {w : DecodeWorker R O}

omit [DecodeJob R] in
theorem jobsOf_of_getElem? (h : s.workers[worker]? = some w) : s.jobsOf worker = w.jobs := by
  rw [jobsOf, h]
  rfl

/-! ### What does not matter to a worker -/

/-- Two states between which a worker sees no difference. -/
structure Agrees (s t : DecodePool R O) (worker : ℕ) : Prop where
  limits : t.limits = s.limits
  events : t.eventsOf worker = s.eventsOf worker
  wakes : t.phase.wakes worker = s.phase.wakes worker
  signals : t.phase.signals worker = s.phase.signals worker
  failure : s.failure.isSome = true → t.failure.isSome = true
  accepted : t.accepted worker = s.accepted worker
  completed : t.completed worker = s.completed worker
  submitted : t.submitted worker = s.submitted worker

theorem WorkerOk.congr (h : s.WorkerOk worker w) (e : Agrees s t worker) : t.WorkerOk worker w where
  depth := e.limits ▸ h.depth
  pipeline := e.events ▸ h.pipeline
  closed := e.events ▸ h.closed
  keeps := h.keeps
  wakes := e.wakes ▸ h.wakes
  mailbox := e.signals ▸ h.mailbox
  silent := e.events ▸ h.silent
  gone := by
    intro hdone
    rw [e.events]
    rcases h.gone hdone with hlast | ⟨hevents, hjobs, hfailure⟩
    · exact Or.inl hlast
    · exact Or.inr ⟨hevents, hjobs, e.failure hfailure⟩
  accepted := by
    rw [e.accepted, e.completed]
    exact h.accepted
  ordered := by
    rw [e.accepted, e.submitted]
    exact h.ordered
  submitted := by
    rw [e.accepted, e.submitted]
    exact h.submitted

omit [DecodeJob R] in
theorem RetirementsOk.congr {w' : DecodeWorker R O} (h : s.RetirementsOk worker w)
    (hkeys : w'.keys = w.keys) (hphase : w'.phase = w.phase) (hevents : (t.eventsOf
      worker).filterMap key? = (s.eventsOf worker).filterMap key?)
    (hsent : ∀ key ∈ s.retirementsOf worker w, t.generations.lookup key = s.generations.lookup key)
      (hplaced : ∀ key generation, t.generations.lookup key = some generation → generation.worker =
      worker → generation.retirementSent = true → ∃ generation', s.generations.lookup key = some
      generation' ∧ generation'.worker = worker ∧ generation'.retirementSent = true) (hcalls : ∀ key
      ∈ s.retirementsOf worker w, t.calls key = s.calls key ∧ t.releases key = s.releases key) :
    t.RetirementsOk worker w' := by
  have hplaces : t.retirementsOf worker w' = s.retirementsOf worker w := by
    rw [retirementsOf, retirementsOf, hevents, DecodeWorker.places, DecodeWorker.places, hkeys,
      hphase]
  refine ⟨?_, ?_, ?_, ?_⟩
  · rw [hplaces]
    exact h.nodup
  · intro key hkey
    rw [hplaces] at hkey
    rw [hsent key hkey]
    exact h.sent key hkey
  · intro hopen key generation hlookup hworker hsent'
    obtain ⟨generation', hlookup', hworker', hsent''⟩ :=
      hplaced key generation hlookup hworker hsent'
    rw [hplaces]
    exact h.placed (hphase ▸ hopen) key generation' hlookup' hworker' hsent''
  · intro key hkey
    rw [hevents, hphase] at hkey
    obtain ⟨hcall, hrelease⟩ := hcalls key (by
      unfold retirementsOf DecodeWorker.places
      rcases List.mem_append.mp hkey with hkey | hkey <;> simp [hkey])
    rw [hcall, hrelease]
    exact h.called key hkey

omit [DecodeJob R] in
/-- A worker whose generations to retire stay where they are. -/
theorem RetirementsOk.same {w' : DecodeWorker R O} (h : s.RetirementsOk worker w)
    (hkeys : w'.keys = w.keys) (hphase : w'.phase = w.phase) (hevents : (t.eventsOf
      worker).filterMap key? = (s.eventsOf worker).filterMap key?)
    (hgenerations : t.generations = s.generations) (hcalls : ∀ key ∈ s.retirementsOf worker w,
      t.calls key = s.calls key ∧ t.releases key = s.releases key) : t.RetirementsOk worker w' :=
  h.congr hkeys hphase hevents (fun _ _ => by rw [hgenerations])
    (fun _ generation hlookup hworker hsent => ⟨generation, hgenerations ▸ hlookup, hworker, hsent⟩)
    hcalls

theorem WorkerOk.sane (h : s.WorkerOk worker w) (hopen : w.phase.isOpen = true) :
    w.Sane s.limits.depth where
  room := by
    have hlength := congrArg List.length (h.pipeline hopen)
    rw [List.length_map, List.length_append] at hlength
    have hdepth := h.depth
    omega
  keeps := h.keeps hopen
  flagged := by
    have hwakes := h.wakes hopen
    omega

/-! ### A worker takes a step -/

/-- The state after a worker took a step. -/
def afterRun (s : DecodePool R O) (index : ℕ) (w' : DecodeWorker R O)
    (sent : List (EventKind O)) (entries : List (PoolEntry R)) : DecodePool R O :=
  { s with
    workers := s.workers.set index w'
    events := s.events ++ sent.map fun kind => { worker := index, kind }
    log := s.log ++ entries }

section Run

variable {index : ℕ} {w w' : DecodeWorker R O} {sent : List (EventKind O)}
  {entries : List (PoolEntry R)}

omit [DecodeJob R] in
theorem eventsOf_afterRun (s : DecodePool R O) (index : ℕ) (w' : DecodeWorker R O)
    (sent : List (EventKind O)) (entries : List (PoolEntry R)) (other : ℕ) :
    (s.afterRun index w' sent entries).eventsOf other =
      s.eventsOf other ++ if index = other then sent else [] := by
  unfold eventsOf afterRun
  rw [List.filterMap_append, List.filterMap_map]
  congr 1
  split_ifs with hsame
  · simp [hsame]
  · simp [hsame]

/-- What a worker records is about its own submissions and retirements. -/
def OwnEntries (index : ℕ) (entries : List (PoolEntry R)) : Prop :=
  ∀ entry ∈ entries, (∃ token, entry = .submitted index token) ∨ ∃ key, entry = .retired index key

omit [DecodeJob R] in
theorem filterMap_own {α : Type} (f : PoolEntry R → Option α)
    (hsubmitted : ∀ token, f (.submitted index token) = none)
    (hretired : ∀ key, f (.retired index key) = none) (h : OwnEntries index entries) :
    entries.filterMap f = [] := by
  rw [List.filterMap_eq_nil_iff]
  intro entry hentry
  rcases h entry hentry with ⟨token, rfl⟩ | ⟨key, rfl⟩
  · exact hsubmitted token
  · exact hretired key

omit [DecodeJob R] in
/-- No job is accepted or completed, and no generation owned or released. -/
theorem log_afterRun (h : OwnEntries index entries) (w' : DecodeWorker R O)
    (sent : List (EventKind O)) (other : ℕ) (key : GenerationKey) :
    (s.afterRun index w' sent entries).accepted other = s.accepted other ∧
    (s.afterRun index w' sent entries).completed other = s.completed other ∧
    (s.afterRun index w' sent entries).ownerships key = s.ownerships key ∧
    (s.afterRun index w' sent entries).releases key = s.releases key := by
  unfold afterRun DecodePool.accepted DecodePool.completed DecodePool.ownerships releases
  simp only [List.filterMap_append]
  rw [filterMap_own (accepted? other) (fun _ => rfl) (fun _ => rfl) h,
    filterMap_own (completed? other) (fun _ => rfl) (fun _ => rfl) h,
    filterMap_own owned? (fun _ => rfl) (fun _ => rfl) h,
    filterMap_own released? (fun _ => rfl) (fun _ => rfl) h]
  simp

omit [DecodeJob R] in
theorem submitted_afterRun (h : OwnEntries index entries) (w' : DecodeWorker R O)
    (sent : List (EventKind O)) (other : ℕ) :
    (s.afterRun index w' sent entries).submitted other = s.submitted other ++
      if index = other then entries.filterMap (submission? index) else [] := by
  unfold afterRun DecodePool.submitted
  rw [List.filterMap_append]
  congr 1
  split_ifs with hsame
  · rw [hsame]
  · exact filterMap_own _ (fun _ => by simp [submission?, hsame]) (fun _ => rfl) h

theorem calls_afterRun (h : w.Ran index w' sent entries) (key : GenerationKey) :
    (s.afterRun index w' sent entries).calls key = s.calls key +
      if key ∈ entries.filterMap call? then 1 else 0 := by
  unfold afterRun DecodePool.calls
  rw [List.filterMap_append, List.count_append]
  congr 1
  have hlength : (entries.filterMap call?).length ≤ 1 :=
    (List.length_filterMap_le _ _).trans h.single
  split_ifs with hmem
  · have hpos := List.count_pos_iff.mpr hmem
    have hle := List.count_le_length (a := key) (l := entries.filterMap call?)
    omega
  · exact List.count_eq_zero.mpr hmem

/-- **The jobs and the flag of a worker** after its step. -/
theorem WorkerOk.ran (h : s.WorkerOk index w) (hran : w.Ran index w' sent entries) :
    (s.afterRun index w' sent entries).WorkerOk index w' := by
  have hevents := s.eventsOf_afterRun index w' sent entries index
  rw [if_pos rfl] at hevents
  obtain ⟨haccepted, hcompleted, -, -⟩ := log_afterRun (s := s) hran.own w' sent index (0, 0)
  have hsubmitted := submitted_afterRun (s := s) hran.own w' sent index
  rw [if_pos rfl] at hsubmitted
  -- a worker that is gone stays so
  have hopen : w'.phase.isOpen = true → w.phase.isOpen = true := by
    intro hopen'
    by_contra hclosed
    rw [(hran.ended (Bool.eq_false_iff.mpr hclosed)).1] at hopen'
    cases hopen'
  refine ⟨?_, ?_, ?_, fun hopen' hsome => hran.keeps hsome hopen', ?_, ?_, ?_, ?_, ?_, ?_, ?_⟩
  · rw [hran.jobs]
    exact h.depth
  · intro hopen'
    rw [hran.jobs, h.pipeline (hopen hopen'), hran.inside, hevents, List.filterMap_append,
      List.append_assoc]
  · rw [hran.jobs, hevents, List.filterMap_append]
    cases hphase : w.phase.isOpen with
    | true =>
        rw [h.pipeline hphase, hran.inside, ← List.append_assoc]
        exact List.prefix_append _ _
    | false =>
        have hnone : sent.filterMap token? = [] := by
          rcases (hran.ended hphase).2.2 with ⟨reason, -, rfl⟩ | ⟨-, rfl⟩ <;> rfl
        rw [hnone, List.append_nil]
        exact h.closed
  · intro hopen'
    have hwakes := h.wakes (hopen hopen')
    have hmoved := hran.wakes
    change w'.wakes + s.phase.wakes index = w'.wakeQueued.toNat
    omega
  · intro hopen' hkeys
    obtain ⟨hsame, hcheck, hflag⟩ := hran.mailbox hkeys
    rw [hsame] at hkeys
    rcases h.mailbox (hopen hopen') hkeys with hqueued | hwill | hsignals
    · rcases hflag hqueued with hqueued | hwill
      · exact Or.inl hqueued
      · exact Or.inr (Or.inl hwill)
    · rw [hcheck] at hwill
      cases hwill
    · exact Or.inr (Or.inr hsignals)
  · intro hdone kind hkind
    rw [hevents] at hkind
    rcases List.mem_append.mp hkind with hkind | hkind
    · refine h.silent (fun hgone => hdone ?_) kind hkind
      exact (hran.ended (by rw [hgone]; rfl)).1
    · rw [← Bool.not_eq_true]
      intro hfailed
      obtain ⟨reason, -, hgone, -⟩ := hran.failed kind hkind hfailed
      exact hdone hgone
  · intro hdone
    have hclosed : w.phase.isOpen = false := by
      rw [← Bool.not_eq_true]
      intro hopen
      have hstays := hran.stays hopen
      rw [hdone] at hstays
      cases hstays
    rw [hevents, hran.jobs]
    rcases (hran.ended hclosed).2.2 with ⟨reason, hclosing, rfl⟩ | ⟨hgone, rfl⟩
    · refine Or.inl ⟨s.eventsOf index, reason, rfl, h.silent ?_⟩
      rw [hclosing]
      exact fun hdone => by cases hdone
    · rw [List.append_nil]
      exact h.gone hgone
  · rw [haccepted, hcompleted, hran.jobs]
    exact h.accepted
  · rw [haccepted, hsubmitted]
    cases hphase : w.phase.isOpen with
    | true =>
        rw [← h.submitted hphase, hran.unsubmitted, ← List.append_assoc]
        exact List.prefix_append _ _
    | false =>
        rw [(hran.ended hphase).2.1, List.filterMap_nil, List.append_nil]
        exact h.ordered
  · intro hopen'
    rw [haccepted, hsubmitted, ← h.submitted (hopen hopen'), hran.unsubmitted, List.append_assoc]

/-- **The generations to retire of a worker** after its step. -/
theorem RetirementsOk.ran (h : s.RetirementsOk index w) (hran : w.Ran index w' sent entries)
    (hfirst : ∀ key ∈ w.phase.hand, s.calls key = s.releases key)
    (hopen : w'.phase.isOpen = true → w.phase.isOpen = true) :
    (s.afterRun index w' sent entries).RetirementsOk index w' := by
  have hevents := s.eventsOf_afterRun index w' sent entries index
  rw [if_pos rfl] at hevents
  have hperm : ((s.afterRun index w' sent entries).retirementsOf index w').Perm
      (s.retirementsOf index w) := by
    unfold retirementsOf
    rw [hevents, List.filterMap_append]
    refine (List.Perm.append_left w'.places List.perm_append_comm).trans ?_
    rw [← List.append_assoc]
    exact hran.places.append_right _
  have hapart : ∀ key ∈ entries.filterMap call?,
      key ∉ w.phase.called ∧ key ∉ (s.eventsOf index).filterMap key? := by
    intro key hkey
    have hhand := (hran.calls key hkey).1
    have hnodup := h.nodup
    unfold retirementsOf DecodeWorker.places at hnodup
    rw [List.nodup_append, List.nodup_append] at hnodup
    constructor
    · intro hcalled
      exact hnodup.1.2.2 key (List.mem_append_right _ hhand) key hcalled rfl
    · intro hevent
      exact hnodup.2.2 key (List.mem_append_left _ (List.mem_append_right _ hhand)) key hevent rfl
  refine ⟨hperm.nodup_iff.mpr h.nodup, ?_, ?_, ?_⟩
  · exact fun key hkey => h.sent key (hperm.mem_iff.mp hkey)
  · intro hopen' key generation hlookup hworker hsent
    exact hperm.mem_iff.mpr (h.placed (hopen hopen') key generation hlookup hworker hsent)
  · intro key hkey
    rw [hevents, List.filterMap_append, ← List.append_assoc, List.mem_append,
      List.mem_append] at hkey
    rw [calls_afterRun hran, (log_afterRun hran.own w' sent index key).2.2.2]
    have hold : key ∈ w.phase.called ++ (s.eventsOf index).filterMap key? →
        key ∉ entries.filterMap call? := by
      intro hkey hcall
      rcases List.mem_append.mp hkey with hkey | hkey
      · exact (hapart key hcall).1 hkey
      · exact (hapart key hcall).2 hkey
    have hnew : key ∈ w'.phase.called ++ sent.filterMap key? →
        s.calls key + (if key ∈ entries.filterMap call? then 1 else 0) =
          s.releases key + 1 := by
      intro hkey
      rcases hran.called key hkey with hcalled | hcall
      · rw [if_neg (hold (List.mem_append_left _ hcalled))]
        exact h.called key (List.mem_append_left _ hcalled)
      · rw [if_pos hcall, hfirst key (hran.calls key hcall).1]
    rcases hkey with (hkey | hkey) | hkey
    · exact hnew (List.mem_append_left _ hkey)
    · rw [if_neg (hold (List.mem_append_right _ hkey))]
      exact h.called key (List.mem_append_right _ hkey)
    · exact hnew (List.mem_append_right _ hkey)

/-- A worker that fails lets go of its channel. -/
theorem WorkerOk.close (h : s.WorkerOk index w) (hopen : w.phase.isOpen = true)
    (reason : String) : (s.afterRun index (w.close reason) [] []).WorkerOk index
      (w.close reason) := by
  have hown : OwnEntries index ([] : List (PoolEntry R)) := by
    intro entry hentry
    cases hentry
  have hevents := s.eventsOf_afterRun index (w.close reason) [] [] index
  rw [if_pos rfl, List.append_nil] at hevents
  obtain ⟨haccepted, hcompleted, -, -⟩ :=
    log_afterRun (s := s) hown (w.close reason) [] index (0, 0)
  have hsubmitted := submitted_afterRun (s := s) hown (w.close reason) [] index
  rw [if_pos rfl, List.filterMap_nil, List.append_nil] at hsubmitted
  have hclosed : ∀ {P : Prop}, (w.close reason).phase.isOpen = true → P := by
    intro P h
    cases h
  refine ⟨h.depth, hclosed, ?_, hclosed, hclosed, hclosed, ?_, ?_, ?_, ?_, hclosed⟩
  · rw [hevents]
    exact h.closed
  · intro _
    rw [hevents]
    refine h.silent fun hdone => ?_
    rw [hdone] at hopen
    cases hopen
  · intro hdone
    cases hdone
  · rw [haccepted, hcompleted]
    exact h.accepted
  · rw [haccepted, hsubmitted]
    exact h.ordered

omit [DecodeJob R] in
theorem RetirementsOk.close (h : s.RetirementsOk index w) (reason : String) :
    (s.afterRun index (w.close reason) [] []).RetirementsOk index (w.close reason) := by
  have hevents := s.eventsOf_afterRun index (w.close reason) [] [] index
  rw [if_pos rfl, List.append_nil] at hevents
  have hsub : ((s.afterRun index (w.close reason) [] []).retirementsOf index
      (w.close reason)).Sublist (s.retirementsOf index w) := by
    unfold retirementsOf DecodeWorker.places
    rw [hevents]
    refine List.Sublist.append ?_ (List.Sublist.refl _)
    simp [DecodeWorker.close, WorkerPhase.hand, WorkerPhase.called]
  refine ⟨h.nodup.sublist hsub, fun key hkey => h.sent key (hsub.subset hkey), ?_, ?_⟩
  · intro hopen
    cases hopen
  · intro key hkey
    rw [hevents] at hkey
    have hcalls : (s.afterRun index (w.close reason) [] []).calls key = s.calls key := by
      simp [calls, afterRun]
    have hreleases : (s.afterRun index (w.close reason) [] []).releases key = s.releases key := by
      simp [releases, afterRun]
    rw [hcalls, hreleases]
    exact h.called key (List.mem_append_right _ hkey)

/-- A generation in a worker's hand was not retired before. -/
theorem PoolOk.of_hand (h : s.PoolOk) (hw : s.workers[index]? = some w) {key : GenerationKey}
    (hkey : key ∈ w.phase.hand) : s.calls key = s.releases key ∧
      ∃ generation, s.generations.lookup key = some generation ∧ generation.worker = index ∧
        generation.retiring = true ∧ generation.retirementSent = true := by
  obtain ⟨generation, hgeneration, hindex, hsent⟩ := (h.retirements index w hw).sent key (by
    unfold retirementsOf DecodeWorker.places
    simp [hkey])
  refine ⟨?_, generation, hgeneration, hindex, hsent⟩
  rcases h.once key with hsame | ⟨-, generation', hgeneration', -, -, hother⟩
  · exact hsame
  · rw [hgeneration] at hgeneration'
    cases hgeneration'
    rw [hindex] at hother
    exact absurd (List.mem_append_right _ hkey) (hother w hw)

/-- **A step of one worker** leaves the others and the pool alone. -/
theorem PoolOk.afterRun (h : s.PoolOk) (hw : s.workers[index]? = some w)
    (hjobs : w'.jobs = w.jobs) (hown : OwnEntries index entries)
    (hworker : (s.afterRun index w' sent entries).WorkerOk index w')
    (hretirements : (s.afterRun index w' sent entries).RetirementsOk index w')
    (hcalls : ∀ key, (s.afterRun index w' sent entries).calls key = s.calls key +
      if key ∈ entries.filterMap call? then 1 else 0)
    (hcalled : ∀ key ∈ entries.filterMap call?, key ∈ w.phase.hand ∧ key ∉ w'.keys ++ w'.phase.hand)
    (hwaiting : w'.keys ++ w'.phase.hand ⊆ w.keys ++ w.phase.hand) :
    (s.afterRun index w' sent entries).PoolOk := by
  have hlookup := getElem?_set_of (a := w') hw
  have hjobsOf : ∀ other, (s.afterRun index w' sent entries).jobsOf other = s.jobsOf other := by
    intro other
    unfold jobsOf DecodePool.afterRun
    rw [hlookup]
    split_ifs with hsame
    · subst hsame
      rw [hw]
      exact hjobs
    · rfl
  have hcount : (s.afterRun index w' sent entries).jobCount = s.jobCount := by
    have hsum := sum_map_set (a := w') (fun worker => worker.jobs.length) hw
    unfold jobCount DecodePool.afterRun
    dsimp only at hsum ⊢
    rw [hjobs] at hsum
    omega
  have hlength : (s.afterRun index w' sent entries).workers.length = s.workers.length :=
    List.length_set
  have hreleases : ∀ key, (s.afterRun index w' sent entries).releases key = s.releases key :=
    fun key => (log_afterRun hown w' sent index key).2.2.2
  refine ⟨?_, ?_, ?_, ?_, h.generations_le, ?_, h.affine, ?_, ?_, ?_, ?_, ?_, ?_, ?_, ?_, h.never,
    h.expected⟩
  · intro other w₀ hw₀
    rcases getElem?_set_cases hw hw₀ with ⟨rfl, rfl⟩ | ⟨hsame, hw₀⟩
    · exact hworker
    · have hevents := s.eventsOf_afterRun index w' sent entries other
      rw [if_neg hsame, List.append_nil] at hevents
      have hsubmitted := submitted_afterRun (s := s) hown w' sent other
      rw [if_neg hsame, List.append_nil] at hsubmitted
      obtain ⟨haccepted, hcompleted, -, -⟩ := log_afterRun (s := s) hown w' sent other (0, 0)
      exact (h.workers other w₀ hw₀).congr
        ⟨rfl, hevents, rfl, rfl, id, haccepted, hcompleted, hsubmitted⟩
  · intro other w₀ hw₀
    rcases getElem?_set_cases hw hw₀ with ⟨rfl, rfl⟩ | ⟨hsame, hw₀⟩
    · exact hretirements
    · have hevents := s.eventsOf_afterRun index w' sent entries other
      rw [if_neg hsame, List.append_nil] at hevents
      refine (h.retirements other w₀ hw₀).same rfl rfl (congrArg _ hevents) rfl fun key hkey => ?_
      refine ⟨?_, hreleases key⟩
      rw [hcalls, if_neg, Nat.add_zero]
      -- no other worker has it
      intro hcall
      obtain ⟨-, generation, hgeneration, hindex, -⟩ := h.of_hand hw (hcalled key hcall).1
      obtain ⟨generation', hgeneration', hother, -⟩ := (h.retirements other w₀ hw₀).sent key hkey
      rw [hgeneration] at hgeneration'
      cases hgeneration'
      exact hsame (hindex.symm.trans hother)
  · rw [hlength]
    exact h.workers_le
  · rw [hcount]
    exact h.jobs_le
  · rw [hlength]
    exact h.assigned
  · intro other job hjob
    rw [hjobsOf] at hjob
    exact h.owned other job hjob
  · intro key generation hgeneration hsent job hjob
    rw [hjobsOf] at hjob
    exact h.free key generation hgeneration hsent job hjob
  · intro event hevent
    rw [hlength]
    rcases List.mem_append.mp hevent with hevent | hevent
    · exact h.known event hevent
    · obtain ⟨kind, -, rfl⟩ := List.mem_map.mp hevent
      exact (List.getElem?_eq_some_iff.mp hw).1
  · intro hfailure key generation hgeneration hretiring hsent
    rw [hjobsOf]
    exact h.due hfailure key generation hgeneration hretiring hsent
  · intro request worker hphase
    obtain ⟨hpresent, hroom, hjobs, hlively, hgenerations, haffine⟩ := h.offer request worker hphase
    refine ⟨?_, ?_, ?_, hlively, hgenerations, haffine⟩
    · rw [hlength]
      exact hpresent
    · rw [hjobsOf]
      exact hroom
    · rw [hcount]
      exact hjobs
  · intro key
    rw [hcalls, hreleases]
    by_cases hcall : key ∈ entries.filterMap call?
    · obtain ⟨hsame, generation, hgeneration, hindex, hretiring, hsent⟩ :=
        h.of_hand hw (hcalled key hcall).1
      rw [if_pos hcall, hsame]
      refine Or.inr ⟨rfl, generation, hgeneration, hretiring, hsent, ?_⟩
      intro w₀ hw₀
      rcases getElem?_set_cases hw hw₀ with ⟨-, rfl⟩ | ⟨hother, -⟩
      · exact (hcalled key hcall).2
      · exact absurd hindex.symm hother
    · rw [if_neg hcall, Nat.add_zero]
      rcases h.once key with hsame | ⟨honce, generation, hgeneration, hretiring, hsent, hother⟩
      · exact Or.inl hsame
      · refine Or.inr ⟨honce, generation, hgeneration, hretiring, hsent, ?_⟩
        intro w₀ hw₀
        rcases getElem?_set_cases hw hw₀ with ⟨hsame, rfl⟩ | ⟨-, hw₀⟩
        · exact fun hmem => hother w (hsame ▸ hw) (hwaiting hmem)
        · exact hother w₀ hw₀
  · intro key
    rw [hreleases, (log_afterRun (s := s) hown w' sent index key).2.2.1]
    exact h.ownerships key
  · intro other hother
    rw [hlength] at hother
    have hpresent := (List.getElem?_eq_some_iff.mp hw).1
    obtain ⟨haccepted, hcompleted, -, -⟩ := log_afterRun (s := s) hown w' sent other (0, 0)
    rw [haccepted, hcompleted, submitted_afterRun hown, if_neg (by omega), List.append_nil]
    exact h.unrecorded other hother

/-- **A worker takes a step**, or fails. -/
theorem PoolOk.worker_step (h : s.PoolOk) (index : ℕ) (choice : GenerationKey)
    (outcome : Option (Except String (List O))) :
    (s.step (.worker index choice outcome)).PoolOk := by
  unfold step
  dsimp only
  cases hw : s.workers[index]? with
  | none => exact h
  | some w =>
      have hok := h.workers index w hw
      have hret := h.retirements index w hw
      have hran : w.Ran index (w.run s.limits.depth index choice outcome).1
          (w.run s.limits.depth index choice outcome).2.1
          (w.run s.limits.depth index choice outcome).2.2 := DecodeWorker.ran_run hok.sane
      have hopen : (w.run s.limits.depth index choice outcome).1.phase.isOpen = true →
          w.phase.isOpen = true := by
        intro hopen'
        by_contra hclosed
        rw [(hran.ended (Bool.eq_false_iff.mpr hclosed)).1] at hopen'
        cases hopen'
      have hafter := hret.ran hran (fun _ hkey => (h.of_hand hw hkey).1) hopen
      refine h.afterRun hw hran.jobs hran.own (hok.ran hran) hafter (calls_afterRun hran) ?_
        hran.waiting
      intro key hkey
      obtain ⟨hhand, hcalled⟩ := hran.calls key hkey
      refine ⟨hhand, fun hmem => ?_⟩
      have hnodup := hafter.nodup
      unfold retirementsOf DecodeWorker.places at hnodup
      rw [List.nodup_append, List.nodup_append] at hnodup
      exact hnodup.1.2.2 key hmem key hcalled rfl

theorem PoolOk.fail_step (h : s.PoolOk) (index : ℕ) (reason : String) :
    (s.step (.fail index reason)).PoolOk := by
  unfold step
  dsimp only
  cases hw : s.workers[index]? with
  | none => exact h
  | some w =>
      dsimp only
      split_ifs with hopen
      · have hclosed : (s.afterRun index (w.close reason) [] []).PoolOk :=
          h.afterRun hw rfl (fun _ hentry => absurd hentry List.not_mem_nil)
            ((h.workers index w hw).close hopen reason) ((h.retirements index w hw).close reason)
            (fun key => by simp [calls, DecodePool.afterRun])
            (fun _ hkey => absurd hkey List.not_mem_nil)
            (by simp [DecodeWorker.close, WorkerPhase.hand])
        simpa [DecodePool.afterRun] using hclosed
      · exact h

end Run

end DecodePool

end

end Media
