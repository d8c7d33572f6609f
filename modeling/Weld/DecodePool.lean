/-
**The decode pool.**

`DecodePool` of `weld-media` hands decode jobs to worker threads.  All generations of a stream belong
to one worker, so that its jobs run in order; a worker has a bounded number of jobs outstanding, and a
generation stays owned until its worker has acknowledged that it is retired.

The parties share little.  Each worker has a command channel, with one slot more than it may have
jobs, and a mailbox of generations to retire with a flag that says that a `Wake` is queued; all
workers send to one channel of events.  Every step below is one operation on what is shared, or lies
between two of them: the pool takes and puts one message at a time, and so does a worker.  What a
party does is modelled as it is coded, and whose turn it is, what the codec answers, in which order a
hash set is drained and which worker fails when is not up to them.

Left out are the timings, the payloads, the notifications, and what happens once the pool is dropped:
until then a worker cannot find its channel closed, and `Stopped` is not answered.  A mailbox is
locked for its own operations only, so the lock is never poisoned.  `log` is not part of the source;
it records what happened.

Main definitions: `DecodePoolLimits.tryNew`, `DecodeJob`, `DecodeWorker`, `DecodeWorker.run`,
`DecodePool`, `DecodePool.tryDecode`, `retire`, `drain`, `advance`, `DecodePool.step`.
-/

import Weld.EncodedDestination

namespace Media

open Encoded (MediaFrameId)

/-! ### Limits -/

structure DecodePoolLimits where
  maxWorkers : ℕ
  maxJobs : ℕ
  maxGenerations : ℕ
  depth : ℕ
  deriving DecidableEq, Repr

def usizeMax : ℕ := 2 ^ 64 - 1

def DecodePoolLimits.tryNew (maxWorkers maxJobs maxGenerations depth : ℕ) :
    Except String DecodePoolLimits :=
  if ¬ (0 < maxWorkers ∧ 0 < maxJobs ∧ 0 < maxGenerations) then
    .error "decoder pool limits must be positive"
  else if ¬ (1 ≤ depth ∧ depth ≤ 2) then
    .error "decoder pipeline depth must be one or two"
  else if usizeMax < maxWorkers * depth then
    .error "decoder job capacity overflow"
  else if maxJobs ≤ maxWorkers * depth ∧ maxWorkers ≤ maxGenerations then
    .ok { maxWorkers, maxJobs, maxGenerations, depth }
  else
    .error "decoder pool requires jobs <= workers * depth and workers <= generations"

/-! ### What the parties exchange -/

/-- A stream and one of its generations. -/
abbrev GenerationKey := ℕ × ℕ

local instance : LawfulBEq GenerationKey := Prod.instLawfulBEq

class DecodeJob (R : Type) where
  token : R → ℕ
  frame : R → MediaFrameId

structure DecodeCompletion (O : Type) where
  token : ℕ
  result : Except String (List O)

structure Job where
  token : ℕ
  frame : MediaFrameId
  deriving DecidableEq, Repr

def Job.key (job : Job) : GenerationKey := job.frame.epoch

structure Generation where
  worker : ℕ
  retiring : Bool := false
  retirementSent : Bool := false
  deriving DecidableEq, Repr

inductive Command (R : Type)
  | decode (request : R)
  | wake

/-- An event, without the worker that sends it. -/
inductive EventKind (O : Type)
  | decoded (completion : DecodeCompletion O)
  | retired (key : GenerationKey)
  | failed (reason : String)

structure Event (O : Type) where
  worker : ℕ
  kind : EventKind O

/-- Why a pool takes no more jobs. -/
inductive PoolFailure
  | worker (reason : String)
  | spawn
  | unexpectedToken
  | unexpectedAcknowledgement
  deriving DecidableEq, Repr

inductive PoolAnswer (R : Type)
  | accepted
  | busy (request : R)
  | rejected (failure : PoolFailure)
  | retired
  | drained (failure : Option PoolFailure)

/-- What happened. -/
inductive PoolEntry (R : Type)
  | owned (key : GenerationKey)
  | released (key : GenerationKey)
  | accepted (worker token : ℕ)
  | completed (worker token : ℕ)
  | submitted (worker token : ℕ)
  | retired (worker : ℕ) (key : GenerationKey)
  | answered (answer : PoolAnswer R)

section

variable {R O : Type} [DecodeJob R]

/-- The generation of a request. -/
def generationOf (request : R) : GenerationKey := (DecodeJob.frame request).epoch

/-! ### Workers -/

/-- Where a worker goes on after it has applied retirements. -/
inductive AfterRetirements (R : Type)
  | receive
  | handle (command : Command R)
  | resume

/-- Where a worker is in its loop. -/
inductive WorkerPhase (R O : Type)
  | starting
  | checking (next : AfterRetirements R)
  | retiring (keys : List GenerationKey) (next : AfterRetirements R)
  | acknowledging (key : GenerationKey) (keys : List GenerationKey) (next : AfterRetirements R)
  | receiving
  | holding (command : Command R)
  | handling (command : Command R)
  | polling
  | finished (completion : DecodeCompletion O)
  | lingering
  | woken
  | closing (reason : String)
  | done

/-- `jobs` is the record that the pool keeps, `commands`, `keys` and `wakeQueued` are shared, and the
rest is the worker's own. -/
structure DecodeWorker (R O : Type) where
  jobs : List Job := []
  commands : List (Command R) := []
  keys : List GenerationKey := []
  wakeQueued : Bool := false
  phase : WorkerPhase R O := .starting
  pending : List ℕ := []
  received : Option R := none

/-- The worker holds its end of the command channel. -/
def WorkerPhase.isOpen : WorkerPhase R O → Bool
  | .closing _ | .done => false
  | _ => true

namespace DecodeWorker

/-- A worker that fails lets go of its channel, and of all that is in it. -/
def close (w : DecodeWorker R O) (reason : String) : DecodeWorker R O :=
  { w with commands := [], phase := .closing reason }

/-- The next step of a worker: the worker after it, the events it sends and what happened.  `choice`
is which generation is taken from the set of those to retire, and `outcome` what the codec answers
when it is polled. -/
def run (depth worker : ℕ) (choice : GenerationKey) (outcome : Option (Except String (List O)))
    (w : DecodeWorker R O) : DecodeWorker R O × List (EventKind O) × List (PoolEntry R) :=
  match w.phase with
  | .starting => ({ w with phase := .checking .receive }, [], [])
  -- `apply_retirements`
  | .checking next => ({ w with keys := [], phase := .retiring w.keys next }, [], [])
  | .retiring (first :: keys) next =>
      let key := if choice ∈ first :: keys then choice else first
      ({ w with phase := .acknowledging key ((first :: keys).erase key) next }, [],
        [.retired worker key])
  | .acknowledging key keys next => ({ w with phase := .retiring keys next }, [.retired key], [])
  | .retiring [] .receive => ({ w with phase := .receiving }, [], [])
  | .retiring [] (.handle command) => ({ w with phase := .handling command }, [], [])
  | .retiring [] .resume => ({ w with phase := .checking .receive }, [], [])
  -- fill the pipeline, but wait for nothing unless it is empty
  | .receiving =>
      if w.pending.length < depth then
        match w.received, w.commands with
        | some request, _ =>
            ({ w with received := none, phase := .holding (.decode request) }, [], [])
        | none, command :: commands =>
            ({ w with commands, phase := .holding command }, [], [])
        | none, [] => (if w.pending.isEmpty then w else { w with phase := .polling }, [], [])
      else ({ w with phase := .polling }, [], [])
  | .holding .wake => ({ w with wakeQueued := false, phase := .checking (.handle .wake) }, [], [])
  | .holding (.decode request) =>
      ({ w with phase := .checking (.handle (.decode request)) }, [], [])
  | .handling .wake => ({ w with phase := .receiving }, [], [])
  | .handling (.decode request) =>
      ({ w with pending := w.pending ++ [DecodeJob.token request], phase := .receiving }, [],
        [.submitted worker (DecodeJob.token request)])
  -- advance the oldest job
  | .polling =>
      match w.pending, outcome with
      | [], _ => ({ w with phase := .checking .receive }, [], [])
      | token :: pending, some result =>
          ({ w with pending, phase := .finished { token, result } }, [], [])
      | _ :: _, none => ({ w with phase := .lingering }, [], [])
  | .finished completion => ({ w with phase := .checking .receive }, [.decoded completion], [])
  | .lingering =>
      match w.commands with
      | [] => ({ w with phase := .checking .receive }, [], [])
      | .wake :: commands => ({ w with commands, phase := .woken }, [], [])
      | .decode request :: commands =>
          if w.pending.length < depth then
            ({ w with commands, received := some request, phase := .checking .receive }, [], [])
          else (w.close "decode pipeline admission exceeded depth", [], [])
  | .woken => ({ w with wakeQueued := false, phase := .checking .resume }, [], [])
  | .closing reason => ({ w with phase := .done }, [.failed reason], [])
  | .done => (w, [], [])

end DecodeWorker

/-! ### The pool -/

/-- Who asked for retirements to be sent. -/
inductive SweepCaller
  | retire
  | drain

/-- Where the pool is in what its owner called. -/
inductive PoolPhase (R : Type)
  | idle
  | offering (request : R) (worker : ℕ)
  | draining
  | sweeping (rest : List GenerationKey) (caller : SweepCaller)
  | signalling (worker : ℕ) (rest : List GenerationKey) (caller : SweepCaller)
  | waking (worker : ℕ) (rest : List GenerationKey) (caller : SweepCaller)
  | unsetting (worker : ℕ) (rest : List GenerationKey) (caller : SweepCaller)

structure DecodePool (R O : Type) where
  limits : DecodePoolLimits
  workers : List (DecodeWorker R O) := []
  generations : Dict GenerationKey Generation := ∅
  events : List (Event O) := []
  failure : Option PoolFailure := none
  terminalFailure : Option PoolFailure := none
  phase : PoolPhase R := .idle
  log : List (PoolEntry R) := []

namespace DecodePool

variable (s : DecodePool R O)

def jobsOf (worker : ℕ) : List Job :=
  ((s.workers[worker]?).map (·.jobs)).getD []

/-- The jobs that are outstanding. -/
def jobCount : ℕ := (s.workers.map fun worker => worker.jobs.length).sum

def answer (answer : PoolAnswer R) : DecodePool R O :=
  { s with phase := .idle, log := s.log ++ [.answered answer] }

def fail (failure : PoolFailure) : DecodePool R O :=
  if s.failure.isNone then
    { s with failure := some failure, terminalFailure := some failure }
  else s

/-- The number of generations a worker owns. -/
def ownedBy (worker : ℕ) : ℕ :=
  s.generations.total fun _ generation => if generation.worker = worker then 1 else 0

/-- A worker that owns nothing, a new one, or the one that owns least.  `spawns` is whether a thread
can be started. -/
def assignWorker (spawns : Bool) : Except PoolFailure (DecodePool R O × Option ℕ) :=
  match (List.range s.workers.length).find? fun worker => s.ownedBy worker = 0 with
  | some worker => .ok (s, some worker)
  | none =>
      if s.workers.length < s.limits.maxWorkers then
        if spawns then .ok ({ s with workers := s.workers ++ [{}] }, some s.workers.length)
        else .error .spawn
      else
        .ok (s, ((List.range s.workers.length).filter fun worker =>
          (s.jobsOf worker).length < s.limits.depth).argmin s.ownedBy)

/-- Go on with a worker, unless it has as many jobs as it may have. -/
def offerTo (request : R) (worker : ℕ) : DecodePool R O :=
  if s.limits.depth ≤ (s.jobsOf worker).length then s.answer (.busy request)
  else { s with phase := .offering request worker }

def tryDecode (request : R) (spawns : Bool) : DecodePool R O :=
  match s.failure with
  | some failure => s.answer (.rejected failure)
  | none =>
      let key := generationOf request
      if (s.generations.lookup key).any (·.retiring) = true ∨ s.limits.maxJobs ≤ s.jobCount ∨
          key ∉ s.generations ∧ s.limits.maxGenerations ≤ s.generations.size then
        s.answer (.busy request)
      else
        match s.generations.entries.find? fun entry => decide (entry.1.1 = key.1) with
        | some entry => s.offerTo request entry.2.worker
        | none =>
            match s.assignWorker spawns with
            | .ok (s, some worker) => s.offerTo request worker
            | .ok (s, none) => s.answer (.busy request)
            | .error failure => (s.fail failure).answer (.rejected failure)

/-- The request is in the channel. -/
def accept (request : R) (worker : ℕ) (w : DecodeWorker R O) : DecodePool R O :=
  let key := generationOf request
  { s with
    phase := .idle
    workers := s.workers.set worker
      { w with
        jobs := w.jobs ++ [⟨DecodeJob.token request, DecodeJob.frame request⟩]
        commands := w.commands ++ [.decode request] }
    generations := s.generations.insert key { worker }
    log := s.log ++ (if key ∈ s.generations then [] else [.owned key]) ++
      [.accepted worker (DecodeJob.token request), .answered .accepted] }

def retire (key : GenerationKey) : DecodePool R O :=
  match s.failure with
  | some failure => s.answer (.rejected failure)
  | none =>
      if key ∈ s.generations then
        { s with
          generations := s.generations.modify key fun generation =>
            { generation with retiring := true }
          phase := .sweeping s.generations.keys .retire }
      else s.answer .retired

def drain : DecodePool R O := { s with phase := .draining }

/-- Return to the caller. -/
def finish : SweepCaller → DecodePool R O
  | .retire => s.answer .retired
  | .drain => { s.answer (.drained s.terminalFailure) with terminalFailure := none }

/-- Handle an event. -/
def handle (event : Event O) : DecodePool R O :=
  match event.kind with
  | .decoded completion =>
      match s.workers[event.worker]? with
      | some w =>
          match w.jobs with
          | job :: jobs =>
              if job.token = completion.token then
                { s with
                  workers := s.workers.set event.worker { w with jobs }
                  log := s.log ++ [.completed event.worker completion.token] }
              else s.fail .unexpectedToken
          | [] => s.fail .unexpectedToken
      | none => s.fail .unexpectedToken
  | .retired key =>
      if (s.generations.lookup key).any (fun generation =>
          generation.worker == event.worker && generation.retiring && generation.retirementSent)
          = true then
        { s with generations := s.generations.erase key, log := s.log ++ [.released key] }
      else s.fail .unexpectedAcknowledgement
  | .failed reason =>
      match s.workers[event.worker]? with
      | some w =>
          ({ s with
            workers := s.workers.set event.worker { w with jobs := [] }
            log := s.log ++ w.jobs.map fun job => .completed event.worker job.token } :
            DecodePool R O).fail (.worker reason)
      | none => s.fail (.worker reason)

/-- A generation is due if it is to be retired, that has not been sent, and no job of it is
outstanding. -/
def due (key : GenerationKey) (generation : Generation) : Bool :=
  generation.retiring && !generation.retirementSent &&
    (s.jobsOf generation.worker).all fun job => decide (job.key ≠ key)

/-- Publish a retirement before it is signalled. -/
def publish (key : GenerationKey) (generation : Generation)
    (rest : List GenerationKey) (caller : SweepCaller) : DecodePool R O :=
  { s with
    phase := .signalling generation.worker rest caller
    workers := s.workers.modify generation.worker fun w =>
      { w with keys := if key ∈ w.keys then w.keys else w.keys ++ [key] }
    generations := s.generations.insert key { generation with retirementSent := true } }

/-- The next step of the pool; `choice` is which generation it considers next. -/
def advance (choice : GenerationKey) : DecodePool R O :=
  match s.phase with
  | .idle => s
  | .offering request worker =>
      match s.workers[worker]? with
      | some w =>
          if w.phase.isOpen = true ∧ w.commands.length < s.limits.depth + 1 then
            s.accept request worker w
          else s.answer (.busy request)
      | none => s.answer (.busy request)
  | .draining =>
      match s.events with
      | event :: events => ({ s with events } : DecodePool R O).handle event
      | [] =>
          if s.failure.isNone then { s with phase := .sweeping s.generations.keys .drain }
          else s.finish .drain
  | .sweeping [] caller => s.finish caller
  | .sweeping (first :: others) caller =>
      let key := if choice ∈ first :: others then choice else first
      let rest := (first :: others).erase key
      match s.generations.lookup key with
      | some generation =>
          if s.due key generation then s.publish key generation rest caller
          else { s with phase := .sweeping rest caller }
      | none => { s with phase := .sweeping rest caller }
  | .signalling worker rest caller =>
      match s.workers[worker]? with
      | some w =>
          if w.wakeQueued then { s with phase := .sweeping rest caller }
          else
            { s with
              workers := s.workers.set worker { w with wakeQueued := true }
              phase := .waking worker rest caller }
      | none => { s with phase := .sweeping rest caller }
  | .waking worker rest caller =>
      match s.workers[worker]? with
      | some w =>
          if w.phase.isOpen = false then { s with phase := .sweeping rest caller }
          else if w.commands.length < s.limits.depth + 1 then
            { s with
              workers := s.workers.set worker { w with commands := w.commands ++ [.wake] }
              phase := .sweeping rest caller }
          else { s with phase := .unsetting worker rest caller }
      | none => { s with phase := .sweeping rest caller }
  | .unsetting worker rest caller =>
      { s with
        workers := s.workers.modify worker fun w => { w with wakeQueued := false }
        phase := .sweeping rest caller }

end DecodePool

/-! ### All parties -/

/-- The owner calls, the pool takes a step, or a worker takes one or fails. -/
inductive PoolLabel (R O : Type)
  | tryDecode (request : R) (spawns : Bool)
  | retire (key : GenerationKey)
  | drain
  | pool (choice : GenerationKey)
  | worker (index : ℕ) (choice : GenerationKey) (outcome : Option (Except String (List O)))
  | fail (index : ℕ) (reason : String)

namespace DecodePool

def isIdle (s : DecodePool R O) : Bool :=
  match s.phase with
  | .idle => true
  | _ => false

/-- The step of a worker, with what it sends and what happened. -/
def runWorker (s : DecodePool R O) (index : ℕ) (choice : GenerationKey)
    (outcome : Option (Except String (List O))) (w : DecodeWorker R O) : DecodePool R O :=
  let (w, sent, entries) := w.run s.limits.depth index choice outcome
  { s with
    workers := s.workers.set index w
    events := s.events ++ sent.map fun kind => { worker := index, kind }
    log := s.log ++ entries }

/-- The owner calls nothing before the last call has returned. -/
def step (s : DecodePool R O) : PoolLabel R O → DecodePool R O
  | .tryDecode request spawns => if s.isIdle then s.tryDecode request spawns else s
  | .retire key => if s.isIdle then s.retire key else s
  | .drain => if s.isIdle then s.drain else s
  | .pool choice => s.advance choice
  | .worker index choice outcome =>
      match s.workers[index]? with
      | some w => s.runWorker index choice outcome w
      | none => s
  | .fail index reason =>
      match s.workers[index]? with
      | some w =>
          if w.phase.isOpen then { s with workers := s.workers.set index (w.close reason) } else s
      | none => s

end DecodePool

end

end Media
