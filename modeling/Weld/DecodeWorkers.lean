/-
**What a decode worker does in one step.**

A worker moves jobs from its channel through its pipeline to the events, and generations from its
mailbox through its hands to the events.  One step moves at most one thing, and loses none: the tokens
inside are those that come out and those that stay, in their order, and so it is with the generations
to retire.  The flag of the mailbox stands for the `Wake` that is on its way.

Main definitions: `DecodeWorker.inside`, `DecodeWorker.wakes`, `DecodeWorker.places`,
`DecodeWorker.Sane`, `DecodeWorker.Ran`.

Main results:

* `DecodeWorker.ran_run` — every step does so;
* `DecodeWorker.blocked_of_run` — a worker that cannot go on waits for a command.
-/

import Weld.DecodePool

namespace Media

open WorkerPhase DecodeWorker EventKind

section

variable {R O : Type} [DecodeJob R]

/-! ### What is where -/

/-- The job a command carries. -/
def Command.tokens : Command R → List ℕ
  | .decode request => [DecodeJob.token request]
  | .wake => []

def Command.wakes : Command R → ℕ
  | .decode _ => 0
  | .wake => 1

def AfterRetirements.tokens : AfterRetirements R → List ℕ
  | .handle command => command.tokens
  | _ => []

namespace WorkerPhase

/-- A job that is received and not yet submitted. -/
def held : WorkerPhase R O → List ℕ
  | .checking next | .retiring _ next | .acknowledging _ _ next => next.tokens
  | .holding command | .handling command => command.tokens
  | _ => []

/-- A job that is done and not yet sent. -/
def completing : WorkerPhase R O → List ℕ
  | .finished completion => [completion.token]
  | _ => []

/-- The generations that the worker is about to retire. -/
def hand : WorkerPhase R O → List GenerationKey
  | .retiring keys _ | .acknowledging _ keys _ => keys
  | _ => []

/-- The generation that is retired and not yet acknowledged. -/
def called : WorkerPhase R O → List GenerationKey
  | .acknowledging key _ _ => [key]
  | _ => []

/-- A `Wake` that is received while the flag is still set. -/
def uncleared : WorkerPhase R O → ℕ
  | .holding command => command.wakes
  | .woken => 1
  | _ => 0

/-- The worker is about to look into its mailbox. -/
def willCheck : WorkerPhase R O → Bool
  | .checking _ => true
  | _ => false

/-- A job may be kept back from the last round. -/
def mayKeep : WorkerPhase R O → Bool
  | .checking .receive | .retiring _ .receive | .acknowledging _ _ .receive | .receiving => true
  | _ => false

end WorkerPhase

namespace DecodeWorker

/-- The jobs that are sent to the worker and not yet submitted. -/
def unsubmitted (w : DecodeWorker R O) : List ℕ :=
  w.phase.held ++ w.received.toList.map DecodeJob.token ++ w.commands.flatMap Command.tokens

/-- The jobs that are with the worker, the oldest first. -/
def inside (w : DecodeWorker R O) : List ℕ := w.phase.completing ++ w.pending ++ w.unsubmitted

/-- The `Wake`s on their way. -/
def wakes (w : DecodeWorker R O) : ℕ := (w.commands.map Command.wakes).sum + w.phase.uncleared

/-- The generations that are with the worker to be retired. -/
def places (w : DecodeWorker R O) : List GenerationKey := w.keys ++ w.phase.hand ++ w.phase.called

/-- What a worker that has not failed relies on. -/
structure Sane (depth : ℕ) (w : DecodeWorker R O) : Prop where
  room : w.inside.length ≤ depth
  keeps : w.received.isSome = true → w.phase.mayKeep = true
  flagged : w.wakes ≤ w.wakeQueued.toNat

end DecodeWorker

/-! ### What is sent -/

def EventKind.token? : EventKind O → Option ℕ
  | .decoded completion => some completion.token
  | _ => none

def EventKind.key? : EventKind O → Option GenerationKey
  | .retired key => some key
  | _ => none

def EventKind.isFailed : EventKind O → Bool
  | .failed _ => true
  | _ => false

/-- The token of a job that is submitted to the codec of a worker. -/
def PoolEntry.submission? (worker : ℕ) : PoolEntry R → Option ℕ
  | .submitted worker' token => if worker' = worker then some token else none
  | _ => none

def PoolEntry.call? : PoolEntry R → Option GenerationKey
  | .retired _ key => some key
  | _ => none

namespace DecodeWorker

/-- What one step of a worker does. -/
structure Ran (index : ℕ) (w w' : DecodeWorker R O) (sent : List (EventKind O))
    (entries : List (PoolEntry R)) : Prop where
  jobs : w'.jobs = w.jobs
  stays : w.phase.isOpen = true → w'.phase.isOpen = true
  inside : w.inside = sent.filterMap token? ++ w'.inside
  unsubmitted : w.unsubmitted = entries.filterMap (PoolEntry.submission? index) ++ w'.unsubmitted
  keeps : w'.received.isSome = true → w'.phase.isOpen = true → w'.phase.mayKeep = true
  wakes : w'.wakes + w.wakeQueued.toNat = w.wakes + w'.wakeQueued.toNat
  mailbox : w'.keys ≠ [] → w'.keys = w.keys ∧ w.phase.willCheck = false ∧
    (w.wakeQueued = true → w'.wakeQueued = true ∨ w'.phase.willCheck = true)
  places : (w'.places ++ sent.filterMap key?).Perm w.places
  waiting : w'.keys ++ w'.phase.hand ⊆ w.keys ++ w.phase.hand
  called : ∀ key ∈ w'.phase.called ++ sent.filterMap key?,
    key ∈ w.phase.called ∨ key ∈ entries.filterMap PoolEntry.call?
  calls : ∀ key ∈ entries.filterMap PoolEntry.call?, key ∈ w.phase.hand ∧ key ∈ w'.phase.called
  single : entries.length ≤ 1
  own : ∀ entry ∈ entries, (∃ token, entry = .submitted index token) ∨
    ∃ key, entry = .retired index key
  failed : ∀ kind ∈ sent, kind.isFailed = true → ∃ reason,
    w.phase = .closing reason ∧ w'.phase = .done ∧ sent = [.failed reason]
  ended : w.phase.isOpen = false → w'.phase = .done ∧ entries = [] ∧
    ((∃ reason, w.phase = .closing reason ∧ sent = [.failed reason]) ∨ w.phase = .done ∧ sent = [])

variable {w : DecodeWorker R O}

/-- A step that only changes the phase. -/
theorem ran_phase {index : ℕ} {phase next : WorkerPhase R O} (hphase : w.phase = phase)
    (hopen : next.isOpen = true) (hheld : next.held = phase.held)
    (hcompleting : next.completing = phase.completing) (hhand : next.hand = phase.hand)
    (hcalled : next.called = phase.called) (huncleared : next.uncleared = phase.uncleared)
    (hold : phase.isOpen = true) (hcheck : phase.willCheck = false)
    (hkeep : w.received.isSome = true → next.mayKeep = true) :
    Ran index w { w with phase := next } [] [] := by
  subst hphase
  constructor
  case keeps => exact fun h _ => hkeep h
  case called =>
    intro key hkey
    rw [List.filterMap_nil, List.append_nil, hcalled] at hkey
    exact Or.inl hkey
  case mailbox => exact fun _ => ⟨rfl, hcheck, Or.inl⟩
  all_goals simp [inside, unsubmitted, wakes, places, *]

section Steps

variable {index : ℕ} {w : DecodeWorker R O} {next : AfterRetirements R} {request : R}

/-- The worker takes all of its mailbox. -/
theorem ran_check (hphase : w.phase = .checking next)
    (hkeep : w.received.isSome = true → w.phase.mayKeep = true) :
    Ran index w { w with keys := [], phase := .retiring w.keys next } [] [] := by
  rw [hphase] at hkeep
  constructor
  case keeps =>
    intro hreceived _
    have hnext := hkeep hreceived
    cases next with
    | receive => rfl
    | handle | resume => cases hnext
  all_goals simp [inside, unsubmitted, wakes, places, hphase, held, completing, hand, called,
    uncleared, willCheck, isOpen, token?, key?, isFailed]

variable {key : GenerationKey} {keys : List GenerationKey} {commands : List (Command R)}

/-- The codec is told to retire a generation. -/
theorem ran_retire (hphase : w.phase = .retiring keys next) (hkey : key ∈ keys)
    (hkeep : w.received.isSome = true → w.phase.mayKeep = true) :
    Ran index w { w with phase := .acknowledging key (keys.erase key) next } []
      [.retired index key] := by
  rw [hphase] at hkeep
  constructor
  case keeps =>
    intro hreceived _
    have hnext := hkeep hreceived
    cases next with
    | receive => rfl
    | handle | resume => cases hnext
  case places =>
    have hperm : (keys.erase key ++ [key]).Perm keys :=
      List.perm_append_comm.trans (List.perm_cons_erase hkey).symm
    simpa [places, hphase, hand, called] using
      hperm.append_left w.keys
  case waiting =>
    rw [hphase]
    exact List.append_subset.mpr ⟨List.subset_append_left _ _,
      fun other hother => List.mem_append_right _ (List.mem_of_mem_erase hother)⟩
  case own => exact fun entry hentry => Or.inr ⟨key, List.mem_singleton.mp hentry⟩
  all_goals simp [inside, unsubmitted, wakes, hphase, hkey, held, completing, hand, called,
    uncleared, willCheck, isOpen, PoolEntry.submission?, PoolEntry.call?]

/-- A retirement is acknowledged. -/
theorem ran_acknowledge (hphase : w.phase = .acknowledging key keys next)
    (hkeep : w.received.isSome = true → w.phase.mayKeep = true) :
    Ran index w { w with phase := .retiring keys next } [.retired key] [] := by
  rw [hphase] at hkeep
  constructor
  case keeps =>
    intro hreceived _
    have hnext := hkeep hreceived
    cases next with
    | receive => rfl
    | handle | resume => cases hnext
  all_goals simp [inside, unsubmitted, wakes, places, hphase, held, completing, hand, called,
    uncleared, willCheck, isOpen, token?, key?, isFailed]

/-- A `Wake` is in hand, and the flag is cleared. -/
theorem ran_clear (hphase : w.phase = .holding .wake ∨ w.phase = .woken)
    (htokens : next.tokens = []) (hflagged : w.wakes ≤ w.wakeQueued.toNat)
    (hkeep : w.received.isSome = true → w.phase.mayKeep = true) :
    Ran index w { w with wakeQueued := false, phase := .checking next } [] [] := by
  have huncleared : w.phase.uncleared = 1 := by
    rcases hphase with hphase | hphase <;> rw [hphase] <;> rfl
  have hset : w.wakeQueued = true := by
    rw [wakes, huncleared] at hflagged
    cases hqueued : w.wakeQueued with
    | true => rfl
    | false =>
        rw [hqueued, Bool.toNat_false] at hflagged
        omega
  have hreceived : w.received.isSome = false := by
    rw [← Bool.not_eq_true]
    intro hsome
    have hkept := hkeep hsome
    rcases hphase with hphase | hphase <;> rw [hphase] at hkept <;> cases hkept
  constructor
  case keeps =>
    intro hsome
    rw [hreceived] at hsome
    cases hsome
  case wakes =>
    change (w.commands.map Command.wakes).sum + 0 + w.wakeQueued.toNat =
      (w.commands.map Command.wakes).sum + w.phase.uncleared + 0
    rw [huncleared, hset]
    rfl
  all_goals
    rcases hphase with hphase | hphase <;>
      simp [inside, unsubmitted, places, hphase, htokens, Command.tokens,
        held, completing, hand, called, willCheck, isOpen]

/-- A command is taken from the channel. -/
theorem ran_take {phase : WorkerPhase R O} {command : Command R}
    (hphase : w.phase = .receiving ∧ phase = .holding command ∨
      w.phase = .lingering ∧ phase = .woken ∧ command.tokens = [] ∧ command.wakes = 1)
    (hcommands : w.commands = command :: commands) (hreceived : w.received = none) :
    Ran index w { w with commands, phase } [] [] := by
  constructor
  case keeps =>
    intro hsome
    rw [show w.received = none from hreceived] at hsome
    cases hsome
  all_goals
    rcases hphase with ⟨hphase, rfl⟩ | ⟨hphase, rfl, htokens, hwakes⟩ <;>
      simp [inside, unsubmitted, places, wakes, Nat.add_comm, *, held, completing, hand, called,
        willCheck, isOpen, uncleared]

/-- A job that was kept back is taken up. -/
theorem ran_resume (hphase : w.phase = .receiving) (hreceived : w.received = some request) :
    Ran index w { w with received := none, phase := .holding (.decode request) } [] [] := by
  constructor
  case keeps =>
    intro hsome
    cases hsome
  all_goals simp [inside, unsubmitted, places, wakes,
    hphase, hreceived, Command.tokens, Command.wakes, held, completing,
    hand, called, willCheck, isOpen, uncleared]

/-- A job is kept back until the next round. -/
theorem ran_keepBack (hphase : w.phase = .lingering)
    (hcommands : w.commands = .decode request :: commands) (hreceived : w.received = none) :
    Ran index w { w with commands, received := some request, phase := .checking .receive } []
      [] := by
  constructor
  case keeps => exact fun _ _ => rfl
  all_goals simp [inside, unsubmitted, places, wakes,
    hphase, hcommands, hreceived, Command.tokens, Command.wakes, AfterRetirements.tokens,
    held, completing, hand, called, willCheck, isOpen, uncleared]

/-- A job is submitted to the codec. -/
theorem ran_submit (hphase : w.phase = .handling (.decode request)) :
    Ran index w
      { w with pending := w.pending ++ [DecodeJob.token request], phase := .receiving } []
      [.submitted index (DecodeJob.token request)] := by
  constructor
  case keeps => exact fun _ _ => rfl
  case own => exact fun entry hentry => Or.inl ⟨_, List.mem_singleton.mp hentry⟩
  all_goals simp [inside, unsubmitted, places, wakes,
    hphase, Command.tokens, PoolEntry.submission?, PoolEntry.call?, held,
    completing, hand, called, willCheck, isOpen, uncleared]

/-- The oldest job is done. -/
theorem ran_finish {token : ℕ} {pending : List ℕ} {result : Except String (List O)}
    (hphase : w.phase = .polling) (hpending : w.pending = token :: pending)
    (hkeep : w.received.isSome = true → w.phase.mayKeep = true) :
    Ran index w { w with pending, phase := .finished { token, result } } [] [] := by
  rw [hphase] at hkeep
  constructor
  case keeps =>
    intro hsome
    cases hkeep hsome
  all_goals simp [inside, unsubmitted, places, wakes, hphase, hpending, held, completing, hand,
    called, willCheck, isOpen, uncleared]

/-- What is done is sent. -/
theorem ran_send {completion : DecodeCompletion O} (hphase : w.phase = .finished completion) :
    Ran index w { w with phase := .checking .receive } [.decoded completion] [] := by
  constructor
  case keeps => exact fun _ _ => rfl
  all_goals simp [inside, unsubmitted, places, wakes,
    hphase, AfterRetirements.tokens, List.filterMap_cons, token?, key?, isFailed,
    held, completing, hand, called, willCheck, isOpen, uncleared]

/-- A worker that failed says so, and is gone. -/
theorem ran_report {reason : String} (hphase : w.phase = .closing reason) :
    Ran index w { w with phase := .done } [.failed reason] [] := by
  constructor
  case keeps =>
    intro _ hopen
    cases hopen
  all_goals simp [inside, unsubmitted, places, wakes,
    hphase, List.filterMap_cons, token?, key?, isFailed, held, completing, hand, called, willCheck,
    isOpen, uncleared]

theorem ran_gone (hphase : w.phase = .done) : Ran index w w [] [] := by
  constructor
  case keeps =>
    intro _ hopen
    rw [hphase] at hopen
    cases hopen
  all_goals simp [places, hphase, hand, called, willCheck, isOpen]

end Steps

variable {depth : ℕ}

/-- Nothing is kept back in a phase that does not look for it. -/
theorem Sane.received_none (h : w.Sane depth) (hphase : w.phase.mayKeep = false) :
    w.received = none := by
  rw [← Option.not_isSome_iff_eq_none]
  intro hsome
  rw [h.keeps hsome] at hphase
  cases hphase

/-- **One step of a worker** loses nothing, and moves at most one thing. -/
theorem ran_run {index : ℕ} {choice : GenerationKey} {outcome : Option (Except String (List O))}
    (h : w.phase.isOpen = true → w.Sane depth) :
    Ran index w (w.run depth index choice outcome).1 (w.run depth index choice outcome).2.1
      (w.run depth index choice outcome).2.2 := by
  have hsane : ∀ {phase}, w.phase = phase → phase.isOpen = true → w.Sane depth := by
    rintro phase rfl hopen
    exact h hopen
  unfold run
  cases hphase : w.phase with
  | starting =>
      have hnone := (hsane hphase rfl).received_none (by rw [hphase]; rfl)
      exact ran_phase hphase rfl rfl rfl rfl rfl rfl rfl rfl (by simp [hnone])
  | checking next => exact ran_check hphase (hsane hphase rfl).keeps
  | retiring keys next =>
      have hkeep := (hsane hphase rfl).keeps
      cases keys with
      | cons first keys =>
          refine ran_retire hphase ?_ hkeep
          split_ifs with hchoice
          · exact hchoice
          · exact List.mem_cons_self
      | nil =>
          rw [hphase] at hkeep
          cases next with
          | receive => exact ran_phase hphase rfl rfl rfl rfl rfl rfl rfl rfl fun _ => rfl
          | handle command =>
              exact ran_phase hphase rfl rfl rfl rfl rfl rfl rfl rfl fun hsome => by cases hkeep hsome
          | resume => exact ran_phase hphase rfl rfl rfl rfl rfl rfl rfl rfl fun _ => rfl
  | acknowledging key keys next => exact ran_acknowledge hphase (hsane hphase rfl).keeps
  | receiving =>
      have hs := hsane hphase rfl
      dsimp only
      by_cases hroom : w.pending.length < depth
      · rw [if_pos hroom]
        split
        · rename_i request hreceived
          exact ran_resume hphase hreceived
        · rename_i command commands hreceived hcommands
          exact ran_take (Or.inl ⟨hphase, rfl⟩) hcommands hreceived
        · rename_i hreceived hcommands
          split_ifs with hempty
          · have hopen : w.phase.isOpen = true := by rw [hphase]; rfl
            exact ran_phase rfl hopen rfl rfl rfl rfl rfl hopen (by rw [hphase]; rfl)
              (by simp [hreceived])
          · exact ran_phase hphase rfl rfl rfl rfl rfl rfl rfl rfl (by simp [hreceived])
      · -- the pipeline is full, so that nothing is kept back
        rw [if_neg hroom]
        have hnone : w.received = none := by
          have hfull := hs.room
          cases hreceived : w.received with
          | none => rfl
          | some request =>
              simp [inside, unsubmitted, hreceived] at hfull
              omega
        exact ran_phase hphase rfl rfl rfl rfl rfl rfl rfl rfl (by simp [hnone])
  | holding command =>
      have hs := hsane hphase rfl
      have hnone := hs.received_none (by rw [hphase]; rfl)
      cases command with
      | wake => exact ran_clear (Or.inl hphase) rfl hs.flagged hs.keeps
      | decode request => exact ran_phase hphase rfl rfl rfl rfl rfl rfl rfl rfl (by simp [hnone])
  | handling command =>
      cases command with
      | wake => exact ran_phase hphase rfl rfl rfl rfl rfl rfl rfl rfl fun _ => rfl
      | decode request => exact ran_submit hphase
  | polling =>
      have hs := hsane hphase rfl
      have hnone := hs.received_none (by rw [hphase]; rfl)
      dsimp only
      split
      · exact ran_phase hphase rfl rfl rfl rfl rfl rfl rfl rfl fun _ => rfl
      · rename_i token pending result hpending
        exact ran_finish hphase hpending hs.keeps
      · exact ran_phase hphase rfl rfl rfl rfl rfl rfl rfl rfl (by simp [hnone])
  | finished completion => exact ran_send hphase
  | lingering =>
      have hs := hsane hphase rfl
      have hnone := hs.received_none (by rw [hphase]; rfl)
      dsimp only
      split
      · exact ran_phase hphase rfl rfl rfl rfl rfl rfl rfl rfl fun _ => rfl
      · rename_i commands hcommands
        exact ran_take (Or.inr ⟨hphase, rfl, rfl, rfl⟩) hcommands hnone
      · rename_i request commands hcommands
        -- the job has its place in the pipeline
        have hroom : w.pending.length < depth := by
          have hroom := hs.room
          simp [inside, unsubmitted, hcommands, Command.tokens] at hroom
          omega
        rw [if_pos hroom]
        exact ran_keepBack hphase hcommands hnone
  | woken =>
      exact ran_clear (Or.inr hphase) rfl (hsane hphase rfl).flagged (hsane hphase rfl).keeps
  | closing reason => exact ran_report hphase
  | done => exact ran_gone hphase

/-! ### Waiting -/

/-- The worker waits for a command, or is gone. -/
def Rests (w : DecodeWorker R O) : Prop :=
  w.phase = .done ∨ w.phase = .receiving ∧ w.pending = [] ∧ w.received = none ∧ w.commands = []

/-- **A worker that is open and waits has no job**, and no `Wake` is on its way. -/
theorem Rests.empty (h : w.Rests) (hopen : w.phase.isOpen = true) :
    w.inside = [] ∧ w.wakes = 0 ∧ w.phase.hand = [] ∧ w.phase.called = [] ∧
      w.phase.willCheck = false := by
  rcases h with hphase | ⟨hphase, hpending, hreceived, hcommands⟩
  · rw [hphase] at hopen
    cases hopen
  · simp [inside, unsubmitted, wakes, hphase, hpending, hreceived, hcommands,
      held, completing, hand, called, uncleared, willCheck]

end DecodeWorker

end

end Media
