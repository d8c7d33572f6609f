/-
**How a generation is retired.**

A retirement goes into the mailbox of its worker, and only then the worker is signalled: the flag is
set, and a `Wake` is sent unless the flag was set before.  There is always room for that `Wake`, since
the jobs in the channel are outstanding and no other `Wake` is in it.

Main results:

* `DecodePool.PoolOk.retire`, `PoolOk.swept`, `PoolOk.signalled`, `PoolOk.woken` — what is
  agreed on after each of these steps;
* `DecodePool.WorkerOk.room_of_waking` — the `Wake` fits.
-/

import Weld.DecodePoolAdmission

namespace Media

section

variable {R O : Type} [DecodeJob R]

namespace DecodePool

variable {s t : DecodePool R O}

/-! ### Sending retirements -/

/-- **The owner calls `retire`.** -/
theorem PoolOk.retire (h : s.PoolOk) (hidle : s.phase = .idle) (key : GenerationKey) :
    (s.retire key).PoolOk := by
  have hquiet : s.phase.isQuiet = true := by rw [hidle]; rfl
  have hdone : s.failure = none → ∀ key, ¬ s.phase.sweeps key := by
    rw [hidle]
    exact fun _ _ hsweeps => hsweeps
  unfold DecodePool.retire
  split
  · exact h.answer hquiet hdone _
  · split_ifs
    · have hlookup : ∀ key', (s.generations.modify key fun generation =>
          { generation with retiring := true }).lookup key' =
          if key' = key then (s.generations.lookup key').map fun generation =>
            { generation with retiring := true }
          else s.generations.lookup key' := fun key' => AList.lookup_modify _ _ _ _
      -- only whether it is to be retired changes
      have hbefore : ∀ key' generation, (s.generations.modify key fun generation =>
          { generation with retiring := true }).lookup key' = some generation →
          ∃ generation', s.generations.lookup key' = some generation' ∧
            generation'.worker = generation.worker ∧
            generation'.retirementSent = generation.retirementSent := by
        intro key' generation hgeneration
        rw [hlookup] at hgeneration
        split_ifs at hgeneration
        · obtain ⟨generation', hgeneration', rfl⟩ := Option.map_eq_some_iff.mp hgeneration
          exact ⟨generation', hgeneration', rfl, rfl⟩
        · exact ⟨generation, hgeneration, rfl, rfl⟩
      have hretiring : ∀ key' generation, s.generations.lookup key' = some generation →
          generation.retiring = true → (s.generations.modify key fun generation =>
            { generation with retiring := true }).lookup key' = some generation := by
        intro key' generation hgeneration hretiring
        rw [hlookup, hgeneration, Option.map_some]
        split_ifs
        · rw [← hretiring]
        · rfl
      have hsame : SameJobs s
          { s with
            generations := s.generations.modify key fun generation =>
              { generation with retiring := true }
            phase := .sweeping s.generations.keys .retire } := by
        refine ⟨rfl, rfl, fun _ => rfl, rfl, rfl, ?_, ?_, fun _ _ => rfl, fun _ _ => rfl⟩
        · exact congrArg List.length (AList.keys_modify _ _ _)
        · intro key'
          change ((s.generations.modify key _).lookup key').map _ = _
          rw [hlookup]
          split_ifs
          · rw [Option.map_map]
            rfl
          · rfl
      refine hsame.poolOk h ?_ ?_ ?_ ?_ ?_ ?_ ?_ h.expected
      · intro worker w hw
        exact (h.workers worker w hw).congr (hsame.agrees (wakes_of_isQuiet hquiet worker).symm
          (signals_of_isQuiet hquiet worker).symm id)
      · intro worker w hw
        refine (h.retirements worker w hw).congr rfl rfl rfl ?_ ?_ fun _ _ => ⟨rfl, rfl⟩
        · intro key' hkey'
          obtain ⟨generation, hgeneration, -, hretiring', -⟩ :=
            (h.retirements worker w hw).sent key' hkey'
          exact (hretiring key' generation hgeneration hretiring').trans hgeneration.symm
        · intro key' generation hgeneration hworker hsent
          obtain ⟨generation', hgeneration', hworker', hsent'⟩ := hbefore key' generation hgeneration
          exact ⟨generation', hgeneration', hworker'.trans hworker, hsent'.trans hsent⟩
      · intro key' generation hgeneration hsent
        obtain ⟨generation', hgeneration', hworker', hsent'⟩ := hbefore key' generation hgeneration
        rw [← hworker']
        exact h.free key' generation' hgeneration' (hsent'.trans hsent)
      · intro _ key' generation hgeneration _ _
        obtain ⟨generation', hgeneration', -⟩ := hbefore key' generation hgeneration
        exact Or.inr (AList.mem_keys_of_lookup hgeneration')
      · intro request worker hphase
        cases hphase
      · intro key'
        rcases h.once key' with hnot | ⟨honce, generation, hgeneration, hretiring', hsent, hother⟩
        · exact Or.inl hnot
        · exact Or.inr ⟨honce, generation, hretiring key' generation hgeneration hretiring',
            hretiring', hsent, hother⟩
      · intro worker rest caller hphase
        cases hphase
    · exact h.answer hquiet hdone _

variable {index : ℕ} {rest : List GenerationKey} {caller : SweepCaller}

/-- The flag or the channel of one worker changes, and the pool goes on. -/
theorem PoolOk.touch (h : s.PoolOk) {w w' : DecodeWorker R O} {phase : PoolPhase R}
    (hw : s.workers[index]? = some w) (hjobs : w'.jobs = w.jobs) (hkeys : w'.keys = w.keys)
    (hphase : w'.phase = w.phase)
    (hok : ({ s with workers := s.workers.set index w', phase } : DecodePool R O).WorkerOk index w')
    (hwakes : ∀ other, other ≠ index → phase.wakes other = s.phase.wakes other)
    (hsignals : ∀ other, other ≠ index → phase.signals other = s.phase.signals other)
    (hsweeps : ∀ key, s.phase.sweeps key → phase.sweeps key)
    (hoffer : ∀ request worker, phase ≠ .offering request worker)
    (hnever : ∀ worker rest caller, phase ≠ .unsetting worker rest caller) :
    ({ s with workers := s.workers.set index w', phase } : DecodePool R O).PoolOk := by
  have hlookup := getElem?_set_of (a := w') hw
  have hjobsOf : ∀ other, ({ s with workers := s.workers.set index w', phase } :
      DecodePool R O).jobsOf other = s.jobsOf other := by
    intro other
    unfold jobsOf
    rw [hlookup]
    split_ifs with hsame
    · rw [← hsame, hw]
      exact hjobs
    · rfl
  have hsame : SameJobs s { s with workers := s.workers.set index w', phase } := by
    refine ⟨rfl, List.length_set, hjobsOf, ?_, rfl, rfl, fun _ => rfl, fun _ _ => rfl,
      fun _ _ => rfl⟩
    have hsum := sum_map_set (a := w') (fun worker => worker.jobs.length) hw
    unfold jobCount
    dsimp only at hsum ⊢
    rw [hjobs] at hsum
    omega
  refine hsame.poolOk h ?_ ?_ h.free ?_ ?_ ?_ hnever h.expected
  · intro other w₀ hw₀
    rcases getElem?_set_cases hw hw₀ with ⟨rfl, rfl⟩ | ⟨hof, hw₀⟩
    · exact hok
    · exact (h.workers other w₀ hw₀).congr
        (hsame.agrees (hwakes other (Ne.symm hof)) (hsignals other (Ne.symm hof)) id)
  · intro other w₀ hw₀
    rcases getElem?_set_cases hw hw₀ with ⟨hof, rfl⟩ | ⟨-, hw₀⟩
    · exact (h.retirements other w (hof ▸ hw)).same hkeys hphase rfl rfl fun _ _ => ⟨rfl, rfl⟩
    · exact (h.retirements other w₀ hw₀).same rfl rfl rfl rfl fun _ _ => ⟨rfl, rfl⟩
  · intro hfailure key generation hgeneration hretiring hsent
    rcases h.due hfailure key generation hgeneration hretiring hsent with hjob | hold
    · exact Or.inl hjob
    · exact Or.inr (hsweeps key hold)
  · exact fun request worker hoffering => absurd hoffering (hoffer request worker)
  · intro key
    rcases h.once key with hnot | ⟨honce, generation, hgeneration, hretiring, hsent, hother⟩
    · exact Or.inl hnot
    · refine Or.inr ⟨honce, generation, hgeneration, hretiring, hsent, ?_⟩
      intro w₀ hw₀
      rcases getElem?_set_cases hw hw₀ with ⟨hof, rfl⟩ | ⟨-, hw₀⟩
      · rw [hkeys, hphase]
        exact hother w (hof ▸ hw)
      · exact hother w₀ hw₀

/-- The pool passes over a worker. -/
theorem PoolOk.pass (h : s.PoolOk)
    (hphase : s.phase = .signalling index rest caller ∨ s.phase = .waking index rest caller)
    (hpass : ∀ w, s.workers[index]? = some w → w.phase.isOpen = true →
      s.phase = .signalling index rest caller ∧ w.wakeQueued = true) :
    ({ s with phase := .sweeping rest caller } : DecodePool R O).PoolOk := by
  have hsame : SameJobs s { s with phase := .sweeping rest caller } :=
    ⟨rfl, rfl, fun _ => rfl, rfl, rfl, rfl, fun _ => rfl, fun _ _ => rfl, fun _ _ => rfl⟩
  refine hsame.poolOk h ?_ ?_ h.free ?_ ?_ h.once ?_ h.expected
  · intro other w hw
    have hok := h.workers other w hw
    by_cases hof : other = index
    · subst hof
      refine ⟨hok.depth, hok.pipeline, hok.closed, hok.keeps, ?_, ?_, hok.silent, hok.gone,
        hok.accepted, hok.ordered, hok.submitted⟩
      · intro hopen
        have hwakes := hok.wakes hopen
        rw [(hpass w hw hopen).1] at hwakes
        exact hwakes
      · exact fun hopen _ => Or.inl (hpass w hw hopen).2
    · refine hok.congr (hsame.agrees ?_ ?_ id)
      · rcases hphase with hphase | hphase <;> rw [hphase]
        · rfl
        · exact (if_neg (Ne.symm hof)).symm
      · rcases hphase with hphase | hphase <;> rw [hphase]
        · exact (beq_eq_false_iff_ne.mpr (Ne.symm hof)).symm
        · rfl
  · intro other w hw
    exact (h.retirements other w hw).same rfl rfl rfl rfl fun _ _ => ⟨rfl, rfl⟩
  · intro hfailure key generation hgeneration hretiring hsent
    rcases h.due hfailure key generation hgeneration hretiring hsent with hjob | hold
    · exact Or.inl hjob
    · rcases hphase with hphase | hphase <;> rw [hphase] at hold <;> exact Or.inr hold
  · intro request worker hoffering
    cases hoffering
  · intro worker rest caller hunsetting
    cases hunsetting

/-- **A worker is signalled**, unless a `Wake` is on its way. -/
theorem PoolOk.signalled (h : s.PoolOk) (hphase : s.phase = .signalling index rest caller)
    (choice : GenerationKey) : (s.advance choice).PoolOk := by
  unfold advance
  rw [hphase]
  dsimp only
  split
  · rename_i w hw
    split_ifs with hqueued
    · exact h.pass (Or.inl hphase) fun w' hw' _ => by
        rw [hw] at hw'
        cases hw'
        exact ⟨hphase, hqueued⟩
    · have hok := h.workers index w hw
      refine h.touch hw rfl rfl rfl ?_ ?_ ?_ ?_ ?_ ?_
      · refine ⟨hok.depth, hok.pipeline, hok.closed, hok.keeps, ?_, fun _ _ => Or.inl rfl,
          hok.silent, hok.gone, hok.accepted, hok.ordered, hok.submitted⟩
        intro hopen
        have hwakes := hok.wakes hopen
        rw [hphase, Bool.eq_false_iff.mpr hqueued] at hwakes
        change w.wakes + 0 = 0 at hwakes
        change w.wakes + (if index = index then 1 else 0) = 1
        rw [if_pos rfl]
        omega
      · intro other hother
        rw [hphase]
        exact if_neg (Ne.symm hother)
      · intro other hother
        rw [hphase]
        exact (beq_eq_false_iff_ne.mpr (Ne.symm hother)).symm
      · intro key hsweeps
        rw [hphase] at hsweeps
        exact hsweeps
      · intro request worker hoffering
        cases hoffering
      · intro worker rest caller hunsetting
        cases hunsetting
  · rename_i hnone
    exact h.pass (Or.inl hphase) fun w hw => by
      rw [hnone] at hw
      cases hw

/-- A command is a job or a `Wake`. -/
theorem length_commands (commands : List (Command R)) : commands.length =
    (commands.flatMap Command.tokens).length + (commands.map Command.wakes).sum := by
  induction commands with
  | nil => rfl
  | cons command commands ih =>
      rw [List.length_cons, ih, List.flatMap_cons, List.length_append, List.map_cons, List.sum_cons]
      cases command with
      | decode request =>
          change _ = 1 + _ + (0 + _)
          omega
      | wake =>
          change _ = 0 + _ + (1 + _)
          omega

/-- A channel has room for the `Wake`: its jobs are outstanding, and no other `Wake` is in it. -/
theorem WorkerOk.room_of_waking {w : DecodeWorker R O} (h : s.WorkerOk index w)
    (hphase : s.phase = .waking index rest caller) (hopen : w.phase.isOpen = true) :
    w.commands.length < s.limits.depth + 1 := by
  have hroom := (h.sane hopen).room
  have hwakes := h.wakes hopen
  rw [hphase] at hwakes
  change w.wakes + (if index = index then 1 else 0) = _ at hwakes
  rw [if_pos rfl, DecodeWorker.wakes] at hwakes
  have hflag := Bool.toNat_le w.wakeQueued
  simp only [DecodeWorker.inside, DecodeWorker.unsubmitted, List.length_append] at hroom
  rw [length_commands w.commands]
  omega

/-- **The `Wake` is sent.** -/
theorem PoolOk.woken (h : s.PoolOk)
    (hphase : s.phase = .waking index rest caller) (choice : GenerationKey) :
    (s.advance choice).PoolOk := by
  unfold advance
  rw [hphase]
  dsimp only
  split
  · rename_i w hw
    have hok := h.workers index w hw
    by_cases hclosed : w.phase.isOpen = false
    · rw [if_pos hclosed]
      exact h.pass (Or.inr hphase) fun w' hw' hopen => by
        rw [hw] at hw'
        cases hw'
        rw [hclosed] at hopen
        cases hopen
    · have hopen : w.phase.isOpen = true := by
        rwa [Bool.not_eq_false] at hclosed
      rw [if_neg hclosed, if_pos (hok.room_of_waking hphase hopen)]
      refine h.touch hw rfl rfl rfl ?_ ?_ ?_ ?_ ?_ ?_
      · have hunsubmitted : ({ w with commands := w.commands ++ [.wake] } :
            DecodeWorker R O).unsubmitted = w.unsubmitted := by
          simp [DecodeWorker.unsubmitted, Command.tokens]
        refine ⟨hok.depth, ?_, hok.closed, hok.keeps, ?_, ?_, hok.silent, hok.gone,
          hok.accepted, hok.ordered, ?_⟩
        · intro _
          rw [DecodeWorker.inside, hunsubmitted]
          exact hok.pipeline hopen
        · intro _
          have hwakes := hok.wakes hopen
          rw [hphase] at hwakes
          change w.wakes + (if index = index then 1 else 0) = _ at hwakes
          rw [if_pos rfl, DecodeWorker.wakes] at hwakes
          change ((w.commands ++ [Command.wake]).map Command.wakes).sum + w.phase.uncleared + 0 =
            w.wakeQueued.toNat
          rw [List.map_append, List.sum_append]
          change _ + 1 + _ + 0 = _
          omega
        · intro _ hkeys
          have hmailbox := hok.mailbox hopen hkeys
          rw [hphase] at hmailbox
          exact hmailbox
        · intro _
          rw [hunsubmitted]
          exact hok.submitted hopen
      · intro other hother
        rw [hphase]
        exact (if_neg (Ne.symm hother)).symm
      · intro other hother
        rw [hphase]
        rfl
      · intro key hsweeps
        rw [hphase] at hsweeps
        exact hsweeps
      · intro request worker hoffering
        cases hoffering
      · intro worker rest caller hunsetting
        cases hunsetting
  · rename_i hnone
    exact h.pass (Or.inr hphase) fun w hw => by
      rw [hnone] at hw
      cases hw

variable {before : List GenerationKey}

/-- **A retirement is put into the mailbox**: it was in no place, and is in one. -/
theorem PoolOk.publish (h : s.PoolOk) {caller' : SweepCaller} {key : GenerationKey}
    {generation : Generation} (hphase : s.phase = .sweeping before caller')
    (hgeneration : s.generations.lookup key = some generation) (hdue : s.due key generation = true)
    (hrest : ∀ other ∈ before, other ≠ key → other ∈ rest) :
    (s.publish key generation rest caller).PoolOk := by
  have hquiet : s.phase.isQuiet = true := by rw [hphase]; rfl
  unfold DecodePool.due at hdue
  rw [Bool.and_eq_true, Bool.and_eq_true, Bool.not_eq_true', List.all_eq_true] at hdue
  obtain ⟨⟨hretiring, hunsent⟩, hjobs⟩ := hdue
  have hlookup : ∀ other, (s.publish key generation rest caller).generations.lookup other =
      if other = key then some { generation with retirementSent := true }
      else s.generations.lookup other := fun other => AList.lookup_insert_eq _ _ _ _
  have hapart : ∀ worker w, s.workers[worker]? = some w → key ∉ s.retirementsOf worker w := by
    intro worker w hw hmem
    obtain ⟨generation', hgeneration', -, -, hsent⟩ := (h.retirements worker w hw).sent key hmem
    rw [hgeneration] at hgeneration'
    cases hgeneration'
    rw [hunsent] at hsent
    cases hsent
  have hworkers : ∀ other, (s.publish key generation rest caller).workers[other]? =
      if generation.worker = other then (s.workers[other]?).map fun w =>
        { w with keys := if key ∈ w.keys then w.keys else w.keys ++ [key] }
      else s.workers[other]? := by
    intro other
    change (s.workers.modify generation.worker _)[other]? = _
    rw [List.getElem?_modify]
    split_ifs
    · rfl
    · exact congrFun Option.map_id _
  have hkeys : ∀ (worker : ℕ) (w : DecodeWorker R O), s.workers[worker]? = some w →
      (if key ∈ w.keys then w.keys else w.keys ++ [key]) = w.keys ++ [key] := by
    intro worker w hw
    rw [if_neg]
    intro hmem
    refine hapart worker w hw ?_
    unfold retirementsOf DecodeWorker.places
    simp [hmem]
  have hmodified : ∀ {α : Type} (f : DecodeWorker R O → α),
      (∀ w keys, f { w with keys } = f w) →
      ∀ other : ℕ, ((s.publish key generation rest caller).workers[other]?).map f =
        (s.workers[other]?).map f := by
    intro α f hf other
    rw [hworkers]
    split_ifs
    · rw [Option.map_map]
      congr 1
      funext w
      exact hf w _
    · rfl
  have hsame : SameJobs s (s.publish key generation rest caller) := by
    refine ⟨rfl, List.length_modify _ _ _, ?_, ?_, rfl, ?_, ?_, fun _ _ => rfl, fun _ _ => rfl⟩
    · intro worker
      exact congrArg (·.getD []) (hmodified (·.jobs) (fun _ _ => rfl) worker)
    · unfold jobCount
      congr 1
      refine List.ext_getElem? fun other => ?_
      rw [List.getElem?_map, List.getElem?_map]
      exact hmodified (fun w => w.jobs.length) (fun _ _ => rfl) other
    · exact (AList.size_insert _ _ _).trans (AList.size_erase_of_lookup hgeneration)
    · intro other
      rw [hlookup]
      split_ifs with hof
      · rw [hof, hgeneration]
        rfl
      · rfl
  refine hsame.poolOk h ?_ ?_ ?_ ?_ ?_ ?_ ?_ h.expected
  · intro worker w' hw'
    rw [hworkers] at hw'
    split_ifs at hw' with hof
    · obtain ⟨w, hw, rfl⟩ := Option.map_eq_some_iff.mp hw'
      have hok := h.workers worker w hw
      refine ⟨hok.depth, hok.pipeline, hok.closed, hok.keeps, ?_, ?_, hok.silent, hok.gone,
        hok.accepted, hok.ordered, hok.submitted⟩
      · intro hopen
        have hwakes := hok.wakes hopen
        rw [wakes_of_isQuiet hquiet] at hwakes
        exact hwakes
      · exact fun _ _ => Or.inr (Or.inr (beq_iff_eq.mpr hof))
    · refine (h.workers worker w' hw').congr (hsame.agrees ?_ ?_ id)
      · exact (wakes_of_isQuiet hquiet worker).symm
      · rw [signals_of_isQuiet hquiet]
        exact beq_eq_false_iff_ne.mpr hof
  · intro worker w' hw'
    rw [hworkers] at hw'
    split_ifs at hw' with hof
    · obtain ⟨w, hw, rfl⟩ := Option.map_eq_some_iff.mp hw'
      have hret := h.retirements worker w hw
      have hplaces : ((s.publish key generation rest caller).retirementsOf worker
          { w with keys := if key ∈ w.keys then w.keys else w.keys ++ [key] }).Perm
          (key :: s.retirementsOf worker w) := by
        unfold retirementsOf DecodeWorker.places
        rw [hsame.eventsOf, hkeys worker w hw]
        simp only [List.append_assoc, List.singleton_append]
        exact List.perm_middle
      refine ⟨?_, ?_, ?_, ?_⟩
      · rw [hplaces.nodup_iff, List.nodup_cons]
        exact ⟨hapart worker w hw, hret.nodup⟩
      · intro other hother
        rw [hplaces.mem_iff, List.mem_cons] at hother
        rw [hlookup]
        rcases hother with rfl | hother
        · rw [if_pos rfl]
          exact ⟨_, rfl, hof, hretiring, rfl⟩
        · have hkey : other ≠ key := by
            rintro rfl
            exact hapart worker w hw hother
          rw [if_neg hkey]
          exact hret.sent other hother
      · intro hopen other generation' hgeneration' hworker hsent
        rw [hplaces.mem_iff, List.mem_cons]
        rw [hlookup] at hgeneration'
        split_ifs at hgeneration' with hkey
        · exact Or.inl hkey
        · exact Or.inr (hret.placed hopen other generation' hgeneration' hworker hsent)
      · intro other hother
        rw [hsame.calls, hsame.releases]
        exact hret.called other hother
    · refine (h.retirements worker w' hw').congr rfl rfl rfl ?_ ?_
        fun other _ => ⟨hsame.calls other, hsame.releases other⟩
      · intro other hother
        rw [hlookup, if_neg]
        rintro rfl
        exact hapart worker w' hw' hother
      · intro other generation' hgeneration' hworker hsent
        rw [hlookup] at hgeneration'
        split_ifs at hgeneration' with hkey
        · cases hgeneration'
          exact absurd hworker hof
        · exact ⟨generation', hgeneration', hworker, hsent⟩
  · intro other generation' hgeneration' hsent job hjob
    rw [hlookup] at hgeneration'
    split_ifs at hgeneration' with hkey
    · cases hgeneration'
      rw [hkey]
      exact of_decide_eq_true (hjobs job hjob)
    · exact h.free other generation' hgeneration' hsent job hjob
  · intro hfailure other generation' hgeneration' hretiring' hsent
    rw [hlookup] at hgeneration'
    split_ifs at hgeneration' with hkey
    · cases hgeneration'
      cases hsent
    · rcases h.due hfailure other generation' hgeneration' hretiring' hsent with hjob | hsweeps
      · exact Or.inl hjob
      · rw [hphase] at hsweeps
        exact Or.inr (hrest other hsweeps hkey)
  · intro request worker hoffering
    cases hoffering
  · intro other
    rcases h.once other with hnot | ⟨honce, generation', hgeneration', hretiring', hsent, hother⟩
    · exact Or.inl hnot
    · have hkey : other ≠ key := by
        rintro rfl
        rw [hgeneration] at hgeneration'
        cases hgeneration'
        rw [hunsent] at hsent
        cases hsent
      refine Or.inr ⟨honce, generation', ?_, hretiring', hsent, ?_⟩
      · rw [hlookup, if_neg hkey]
        exact hgeneration'
      · intro w' hw'
        rw [hworkers] at hw'
        split_ifs at hw' with hof
        · obtain ⟨w, hw, rfl⟩ := Option.map_eq_some_iff.mp hw'
          have hold := hother w hw
          rw [List.mem_append, not_or] at hold
          rw [hkeys _ w hw, List.mem_append, List.mem_append, List.mem_singleton, not_or, not_or]
          exact ⟨⟨hold.1, hkey⟩, hold.2⟩
        · exact hother w' hw'
  · intro worker rest' caller'' hunsetting
    cases hunsetting

/-- **One retirement is considered.** -/
theorem PoolOk.swept (h : s.PoolOk) (hphase : s.phase = .sweeping before caller)
    (choice : GenerationKey) : (s.advance choice).PoolOk := by
  have hquiet : s.phase.isQuiet = true := by rw [hphase]; rfl
  unfold advance
  rw [hphase]
  cases before with
  | nil =>
      refine h.finish hquiet ?_ caller
      rw [hphase]
      exact fun _ _ hsweeps => absurd hsweeps List.not_mem_nil
  | cons first others =>
      dsimp only
      generalize (if choice ∈ first :: others then choice else first) = key
      have hrest : ∀ other ∈ first :: others, other ≠ key → other ∈ (first :: others).erase key :=
        fun other hother hne => (List.mem_erase_of_ne hne).mpr hother
      -- what is passed over is not due
      have hskip : (∀ generation, s.generations.lookup key = some generation →
          s.due key generation = false) →
          ({ s with phase := .sweeping ((first :: others).erase key) caller } :
            DecodePool R O).PoolOk := by
        intro hnot
        refine h.goTo (.sweeping ((first :: others).erase key) caller) hquiet rfl ?_
          fun _ _ hoffering => by cases hoffering
        intro hfailure other generation hgeneration hretiring hsent
        rcases h.due hfailure other generation hgeneration hretiring hsent with hjob | hsweeps
        · exact Or.inl hjob
        · rw [hphase] at hsweeps
          by_cases hkey : other = key
          · subst hkey
            have hdue := hnot generation hgeneration
            unfold DecodePool.due at hdue
            rw [hretiring, hsent, Bool.not_false, Bool.and_true, Bool.true_and,
              List.all_eq_false] at hdue
            obtain ⟨job, hjob, hof⟩ := hdue
            rw [decide_eq_true_eq, not_not] at hof
            exact Or.inl ⟨job, hjob, hof⟩
          · exact Or.inr (hrest other hsweeps hkey)
      split
      · rename_i generation hgeneration
        split_ifs with hdue
        · exact h.publish hphase hgeneration hdue hrest
        · refine hskip fun generation' hgeneration' => ?_
          rw [hgeneration] at hgeneration'
          cases hgeneration'
          exact Bool.eq_false_iff.mpr hdue
      · rename_i hnone
        refine hskip fun generation' hgeneration' => ?_
        rw [hnone] at hgeneration'
        cases hgeneration'

end DecodePool

end

end Media
