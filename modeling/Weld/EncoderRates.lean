/-
**Encoder rates are switched with a dwell.**

The registry of a source port keeps, for every live stream, the rate that was requested last, the one
selected for the next job, and the one of the last submission.  A job is prepared with the selected
rate and submitted later; meanwhile requests come and go.  A selection changes its rate only when the
last switch is two seconds old, and a switch is dated by its submission, so two switches are never
closer.  As soon as the dwell is over, a selection takes the latest request.

The lock is not poisoned: that would make every operation do nothing.

Main definitions: `StreamRate.select`, `RegistryState`, `requestInner`, `select`, `submitted`,
`finished`, `RateRun`, `switches`.

Main results:

* `RateRun.Steady.step` — **what every call keeps**;
* `rate_switches_respect_the_dwell` — for all runs.
-/

import Weld.BitrateBudget
import Weld.EncodedDestination

namespace Encoded

open Client Gamepad Hoist Transition

/-- In nanoseconds, as all times. -/
def minimumRateDwell : Duration := 2000000000

/-! ### The registry -/

/-- A request frozen into a job. -/
structure EncoderRateApplication where
  request : BitrateRequest
  frame : MediaFrameId
  deriving DecidableEq

structure EncoderStreamStatus where
  stream : MediaStreamId
  surface : ClientSurfaceId
  layer : SurfaceLayerId
  requested : BitrateRequest
  submitted : Option EncoderRateApplication := none
  applied : Option EncoderRateApplication := none
  deriving DecidableEq

structure StreamRate where
  status : EncoderStreamStatus
  selected : BitrateRequest
  lastSubmittedBitrate : Option ℕ := none
  lastSwitch : Option Instant := none
  deriving DecidableEq

namespace StreamRate

/-- A selection takes the latest request if the rate stays or the last switch is old enough. -/
def select (entry : StreamRate) (now : Instant) : StreamRate :=
  if entry.status.requested.bitsPerSecond = entry.selected.bitsPerSecond ∨
      entry.lastSwitch.all fun last => decide (minimumRateDwell ≤ now - last) then
    { entry with selected := entry.status.requested }
  else entry

def submitted (entry : StreamRate) (application : EncoderRateApplication) (now : Instant) :
    StreamRate :=
  { entry with
    lastSwitch :=
      if entry.lastSubmittedBitrate.any fun rate =>
          decide (rate ≠ application.request.bitsPerSecond) then some now
      else entry.lastSwitch
    lastSubmittedBitrate := some application.request.bitsPerSecond
    status := { entry.status with submitted := some application } }

def finished (entry : StreamRate) (application : EncoderRateApplication) (applied : Bool) :
    StreamRate :=
  if entry.status.submitted = some application then
    { entry with
      status :=
        { entry.status with
          submitted := none
          applied := if applied then some application else entry.status.applied } }
  else entry

/-- A request for another rate gets the next revision. -/
def request (entry : StreamRate) (bitsPerSecond : ℕ) : Option StreamRate :=
  if entry.status.requested.bitsPerSecond ≠ bitsPerSecond then
    (checkedSucc entry.status.requested.revision).map fun revision =>
      { entry with status := { entry.status with requested := ⟨revision, bitsPerSecond⟩ } }
  else some entry

end StreamRate

inductive RateError
  | outsideRange | ownedByBudget | unregistered | exhausted
  deriving DecidableEq, Repr

def RateError.text : RateError → String
  | outsideRange => "bitrate is outside the encoder control range"
  | ownedByBudget => "encoder rate requests belong to the shared bitrate budget"
  | unregistered => "encoder stream is no longer registered"
  | exhausted => "encoder rate revision exhausted"

structure RegistryState where
  limits : EncoderBitrateLimits
  managed : Bool := false
  streams : Dict MediaStreamId StreamRate := ∅

namespace RegistryState

def register (s : RegistryState) (stream : MediaStreamId) (surface : ClientSurfaceId)
    (layer : SurfaceLayerId) : RegistryState :=
  let initial : BitrateRequest := ⟨0, s.limits.initial⟩
  { s with
    streams := s.streams.insert stream
      { status := { stream, surface, layer, requested := initial }, selected := initial } }

def requestInner (s : RegistryState) (stream : MediaStreamId) (bitsPerSecond : ℕ)
    (managed : Bool) : Except RateError BitrateRequest × RegistryState :=
  if ¬ s.limits.Valid bitsPerSecond then (.error .outsideRange, s)
  else if s.managed ≠ managed then (.error .ownedByBudget, s)
  else
    match s.streams.lookup stream with
    | none => (.error .unregistered, s)
    | some entry =>
        match entry.request bitsPerSecond with
        | none => (.error .exhausted, s)
        | some entry =>
            (.ok entry.status.requested, { s with streams := s.streams.insert stream entry })

/-- Without a result the source keeps the configuration its stream has. -/
def select (s : RegistryState) (stream : MediaStreamId) (now : Instant) :
    Option BitrateRequest × RegistryState :=
  let s := { s with streams := s.streams.modify stream fun entry => entry.select now }
  ((s.streams.lookup stream).map StreamRate.selected, s)

def submitted (s : RegistryState) (application : EncoderRateApplication) (now : Instant) :
    RegistryState :=
  { s with
    streams := s.streams.modify application.frame.stream fun entry =>
      entry.submitted application now }

def finished (s : RegistryState) (application : EncoderRateApplication) (applied : Bool) :
    RegistryState :=
  { s with
    streams := s.streams.modify application.frame.stream fun entry =>
      entry.finished application applied }

end RegistryState

/-! ### Runs of one stream -/

structure Submission where
  application : EncoderRateApplication
  time : Instant
  deriving DecidableEq

/-- When the submitted bitrate changed; everything is listed with the latest first. -/
def switches : List Submission → List Instant
  | [] => []
  | [_] => []
  | last :: previous :: rest =>
      if last.application.request.bitsPerSecond = previous.application.request.bitsPerSecond then
        switches (previous :: rest)
      else last.time :: switches (previous :: rest)

/-- The registry, the clock, and what was done with one stream: the latest request that was accepted,
the result of the latest selection, the submission that is outstanding, and all submissions and
confirmations. -/
structure RateRun where
  state : RegistryState
  now : Instant := 0
  latest : BitrateRequest
  chosen : Option BitrateRequest := none
  outstanding : Option EncoderRateApplication := none
  submissions : List Submission := []
  confirmed : List EncoderRateApplication := []

inductive RateCall
  | request (bitsPerSecond : ℕ) (managed : Bool)
  | select (now : Instant)
  | submitted (frame : MediaFrameId) (now : Instant)
  | finished (application : EncoderRateApplication) (applied : Bool)

namespace RateRun

def start (limits : EncoderBitrateLimits) (managed : Bool) (stream : MediaStreamId)
    (surface : ClientSurfaceId) (layer : SurfaceLayerId) : RateRun where
  state := { limits, managed : RegistryState }.register stream surface layer
  latest := ⟨0, limits.initial⟩

variable (stream : MediaStreamId)

/-- A job of the stream is submitted with the latest selection, while none is outstanding. -/
def step (run : RateRun) : RateCall → RateRun
  | .request bitsPerSecond managed =>
      match run.state.requestInner stream bitsPerSecond managed with
      | (.ok request, state) => { run with state, latest := request }
      | (.error _, state) => { run with state }
  | .select now =>
      if run.now ≤ now then
        let (chosen, state) := run.state.select stream now
        { run with state, now, chosen }
      else run
  | .submitted frame now =>
      match run.chosen, run.outstanding with
      | some request, none =>
          if run.now ≤ now ∧ frame.stream = stream then
            let application : EncoderRateApplication := ⟨request, frame⟩
            { run with
              state := run.state.submitted application now
              now
              outstanding := some application
              submissions := ⟨application, now⟩ :: run.submissions }
          else run
      | _, _ => run
  | .finished application applied =>
      { run with
        state := run.state.finished application applied
        outstanding := if run.outstanding = some application then none else run.outstanding
        confirmed :=
          if run.outstanding = some application ∧ applied = true then
            application :: run.confirmed
          else run.confirmed }

end RateRun

/-! ### What a run keeps -/

/-- The record of a stream, against what was done with it. -/
structure RateRun.Steady (stream : MediaStreamId) (run : RateRun) (entry : StreamRate) : Prop where
  found : run.state.streams.lookup stream = some entry
  latest : entry.status.requested = run.latest
  chosen : ∀ request, run.chosen = some request → request = entry.selected
  outstanding : entry.status.submitted = run.outstanding
  own : ∀ application, run.outstanding = some application → application.frame.stream = stream
  pending : ∀ application, run.outstanding = some application →
    ∃ submission ∈ run.submissions, submission.application = application
  applied : ∀ application, entry.status.applied = some application → application ∈ run.confirmed
  confirmed : ∀ application ∈ run.confirmed,
    ∃ submission ∈ run.submissions, submission.application = application
  lastSubmitted : entry.lastSubmittedBitrate =
    run.submissions.head?.map fun submission => submission.application.request.bitsPerSecond
  lastSwitch : entry.lastSwitch = (switches run.submissions).head?
  past : ∀ time ∈ switches run.submissions, time ≤ run.now
  dwell : (switches run.submissions).Pairwise fun later earlier =>
    earlier + minimumRateDwell ≤ later
  rested : ∀ last rate, entry.lastSwitch = some last → entry.lastSubmittedBitrate = some rate →
    entry.selected.bitsPerSecond ≠ rate → last + minimumRateDwell ≤ run.now

section

variable {stream : MediaStreamId} {run : RateRun} {entry : StreamRate}

theorem RateRun.steady_start (limits : EncoderBitrateLimits) (managed : Bool)
    (stream : MediaStreamId) (surface : ClientSurfaceId) (layer : SurfaceLayerId) :
    (RateRun.start limits managed stream surface layer).Steady stream
      { status := { stream, surface, layer, requested := ⟨0, limits.initial⟩ }
        selected := ⟨0, limits.initial⟩ } where
  found := AList.lookup_insert _
  latest := rfl
  chosen := fun _ h => by cases h
  outstanding := rfl
  own := fun _ h => by cases h
  pending := fun _ h => by cases h
  applied := fun _ h => by cases h
  confirmed := fun _ h => absurd h List.not_mem_nil
  lastSubmitted := rfl
  lastSwitch := rfl
  past := fun _ h => absurd h List.not_mem_nil
  dwell := .nil
  rested := fun _ _ h => by cases h

/-- A request changes the revision exactly when it changes the rate. -/
theorem StreamRate.request_spec {after : StreamRate} {bitsPerSecond : ℕ}
    (h : entry.request bitsPerSecond = some after) :
    after = { entry with status := { entry.status with requested := after.status.requested } } ∧
      after.status.requested.bitsPerSecond = bitsPerSecond ∧
      entry.status.requested.revision ≤ after.status.requested.revision ∧
      (after.status.requested.revision = entry.status.requested.revision ↔
        bitsPerSecond = entry.status.requested.bitsPerSecond) := by
  unfold StreamRate.request at h
  split_ifs at h with hsame
  · obtain ⟨revision, hrevision, rfl⟩ := Option.map_eq_some_iff.mp h
    obtain ⟨-, rfl⟩ := checkedSucc_eq_some.mp hrevision
    refine ⟨rfl, rfl, Nat.le_succ _, ?_⟩
    dsimp only
    constructor
    · omega
    · exact fun heq => absurd heq.symm hsame
  · cases h
    have hsame := not_not.mp hsame
    exact ⟨rfl, hsame, Nat.le_refl _, ⟨fun _ => hsame.symm, fun _ => rfl⟩⟩

/-- A request is refused, or recorded with the stream. -/
theorem RegistryState.requestInner_cases (s : RegistryState)
    (hfound : s.streams.lookup stream = some entry) (bitsPerSecond : ℕ) (managed : Bool) :
    (∃ error, s.requestInner stream bitsPerSecond managed = (.error error, s)) ∨
      ∃ after, entry.request bitsPerSecond = some after ∧
        s.requestInner stream bitsPerSecond managed =
          (.ok after.status.requested, { s with streams := s.streams.insert stream after }) := by
  unfold RegistryState.requestInner
  rw [hfound]
  by_cases hvalid : ¬ s.limits.Valid bitsPerSecond
  · exact .inl ⟨.outsideRange, if_pos hvalid⟩
  · rw [if_neg hvalid]
    by_cases howner : s.managed ≠ managed
    · exact .inl ⟨.ownedByBudget, if_pos howner⟩
    · rw [if_neg howner]
      dsimp only
      cases hrequest : entry.request bitsPerSecond with
      | none => exact .inl ⟨.exhausted, rfl⟩
      | some after => exact .inr ⟨after, rfl, rfl⟩

theorem RegistryState.lookup_modify_self (s : RegistryState)
    (hfound : s.streams.lookup stream = some entry) (f : StreamRate → StreamRate) :
    (s.streams.modify stream f).lookup stream = some (f entry) := by
  rw [AList.lookup_modify, if_pos rfl, hfound]
  rfl

section

variable (h : run.Steady stream entry)
include h

theorem RateRun.Steady.requested (bitsPerSecond : ℕ) (managed : Bool) :
    ∃ after, (run.step stream (.request bitsPerSecond managed)).Steady stream after ∧
      entry.status.requested.revision ≤ after.status.requested.revision ∧
      (after.status.requested.revision = entry.status.requested.revision ↔
        after.status.requested.bitsPerSecond = entry.status.requested.bitsPerSecond) := by
  obtain ⟨error, hrefused⟩ | ⟨after, hrequest, haccepted⟩ :=
    run.state.requestInner_cases h.found bitsPerSecond managed
  · unfold RateRun.step
    dsimp only
    rw [hrefused]
    exact ⟨entry, h, Nat.le_refl _, ⟨fun _ => rfl, fun _ => rfl⟩⟩
  · obtain ⟨hafter, hrate, hle, hiff⟩ := StreamRate.request_spec hrequest
    unfold RateRun.step
    dsimp only
    rw [haccepted]
    refine ⟨after, ?_, hle, ?_⟩
    · rw [hafter]
      exact ⟨AList.lookup_insert _, rfl, h.chosen, h.outstanding, h.own, h.pending, h.applied,
        h.confirmed, h.lastSubmitted, h.lastSwitch, h.past, h.dwell, h.rested⟩
    · rw [hrate]
      exact hiff

/-- A selection that changes the rate comes after the dwell. -/
theorem RateRun.Steady.selected (now : Instant) :
    ∃ after, (run.step stream (.select now)).Steady stream after ∧
      after.status.requested = entry.status.requested := by
  unfold RateRun.step
  dsimp only
  split_ifs with hnow
  · have hfound := run.state.lookup_modify_self h.found fun entry => entry.select now
    have hselect : ∃ selected, entry.select now = { entry with selected } := by
      unfold StreamRate.select
      split_ifs
      · exact ⟨_, rfl⟩
      · exact ⟨entry.selected, rfl⟩
    refine ⟨entry.select now, ?_, ?_⟩
    · obtain ⟨selected, hselected⟩ := hselect
      have hpast : ∀ time ∈ switches run.submissions, time ≤ now := fun time htime =>
        (h.past time htime).trans hnow
      refine ⟨hfound, ?_, ?_, ?_, h.own, h.pending, ?_, h.confirmed, ?_, ?_, hpast, h.dwell, ?_⟩
      · rw [hselected]
        exact h.latest
      · intro request hrequest
        have hrequest : ((run.state.streams.modify stream fun entry => entry.select now).lookup
            stream).map StreamRate.selected = some request := hrequest
        rw [hfound] at hrequest
        exact (Option.some.inj hrequest).symm
      · rw [hselected]
        exact h.outstanding
      · rw [hselected]
        exact h.applied
      · rw [hselected]
        exact h.lastSubmitted
      · rw [hselected]
        exact h.lastSwitch
      · intro last rate hlast hrate hne
        unfold StreamRate.select at hlast hrate hne
        split_ifs at hlast hrate hne with hdue
        · obtain hsame | hold := hdue
          · rw [hsame] at hne
            exact (h.rested last rate hlast hrate hne).trans hnow
          · rw [hlast] at hold
            have hold : minimumRateDwell ≤ now - last := by simpa using hold
            have hle : last ≤ now := hpast last (by
              rw [h.lastSwitch] at hlast
              exact List.mem_of_head? hlast)
            exact Nat.add_le_of_le_sub' hle hold
        · exact (h.rested last rate hlast hrate hne).trans hnow
    · obtain ⟨selected, hselected⟩ := hselect
      rw [hselected]
  · exact ⟨entry, h, rfl⟩

/-- A submission that changes the rate comes after the dwell. -/
theorem RateRun.Steady.submitted (frame : MediaFrameId) (now : Instant) :
    ∃ after, (run.step stream (.submitted frame now)).Steady stream after ∧
      after.status.requested = entry.status.requested := by
  unfold RateRun.step
  cases hchosen : run.chosen with
  | none => exact ⟨entry, h, rfl⟩
  | some request =>
      cases houtstanding : run.outstanding with
      | some application => exact ⟨entry, h, rfl⟩
      | none =>
          dsimp only
          split_ifs with hcalled
          · obtain ⟨hnow, hstream⟩ := hcalled
            obtain rfl := h.chosen request hchosen
            have hfound := run.state.lookup_modify_self h.found fun found =>
              found.submitted ⟨entry.selected, frame⟩ now
            have hlater : ∀ time ∈ switches run.submissions, time ≤ now := fun time htime =>
              (h.past time htime).trans hnow
            have hkeep : ∀ application,
                (∃ submission ∈ run.submissions, submission.application = application) →
                ∃ submission ∈ ⟨⟨entry.selected, frame⟩, now⟩ :: run.submissions,
                  submission.application = application := by
              rintro application ⟨submission, hmem, happlication⟩
              exact ⟨submission, List.mem_cons_of_mem _ hmem, happlication⟩
            -- The submission either keeps the rate, or comes after the dwell.
            have hswitch : (entry.submitted ⟨entry.selected, frame⟩ now).lastSwitch =
                  (switches (⟨⟨entry.selected, frame⟩, now⟩ :: run.submissions)).head? ∧
                (∀ time ∈ switches (⟨⟨entry.selected, frame⟩, now⟩ :: run.submissions),
                  time ≤ now) ∧
                (switches (⟨⟨entry.selected, frame⟩, now⟩ :: run.submissions)).Pairwise
                  fun later earlier => earlier + minimumRateDwell ≤ later := by
              have hlast := h.lastSubmitted
              have hdated := h.lastSwitch
              have hdwell := h.dwell
              unfold StreamRate.submitted
              cases hsubmissions : run.submissions with
              | nil =>
                  rw [hsubmissions] at hlast hdated
                  rw [hlast, hdated]
                  exact ⟨rfl, fun _ hmem => absurd hmem List.not_mem_nil, .nil⟩
              | cons previous rest =>
                  rw [hsubmissions] at hlast hdated hdwell hlater
                  rw [hlast, List.head?_cons, Option.map_some, Option.any_some, switches]
                  by_cases hsame : entry.selected.bitsPerSecond =
                      previous.application.request.bitsPerSecond
                  · rw [if_pos hsame, if_neg (by simp [hsame])]
                    exact ⟨hdated, hlater, hdwell⟩
                  · have hne : previous.application.request.bitsPerSecond ≠
                        entry.selected.bitsPerSecond := fun heq => hsame heq.symm
                    rw [if_neg hsame, if_pos (by simpa using hne)]
                    refine ⟨rfl, ?_, List.pairwise_cons.mpr ⟨?_, hdwell⟩⟩
                    · intro time htime
                      obtain rfl | hold := List.mem_cons.mp htime
                      · exact Nat.le_refl _
                      · exact hlater time hold
                    · intro earlier hearlier
                      cases hswitches : switches (previous :: rest) with
                      | nil =>
                          rw [hswitches] at hearlier
                          exact absurd hearlier List.not_mem_nil
                      | cons last older =>
                          rw [hswitches] at hearlier hdated hdwell
                          have hrested := h.rested last _ hdated hlast hsame
                          obtain rfl | holder := List.mem_cons.mp hearlier
                          · exact hrested.trans hnow
                          · have hbefore := (List.pairwise_cons.mp hdwell).1 earlier holder
                            have hreached := hrested.trans hnow
                            exact (hbefore.trans (Nat.le_add_right _ _)).trans hreached
            refine ⟨entry.submitted ⟨entry.selected, frame⟩ now, ?_, rfl⟩
            refine ⟨?_, h.latest, ?_, rfl, ?_, ?_, ?_, ?_, rfl, hswitch.1, hswitch.2.1,
              hswitch.2.2, ?_⟩
            · subst hstream
              exact hfound
            · exact fun request hrequest => h.chosen request (hchosen.trans hrequest)
            · intro application happlication
              cases happlication
              exact hstream
            · intro application happlication
              cases happlication
              exact ⟨_, List.mem_cons_self, rfl⟩
            · exact h.applied
            · exact fun application happlication =>
                hkeep application (h.confirmed application happlication)
            · intro last rate _ hrate hne
              cases hrate
              exact absurd rfl hne
          · exact ⟨entry, h, rfl⟩

/-- Only its own submission confirms a rate. -/
theorem RateRun.Steady.finished (application : EncoderRateApplication) (applied : Bool) :
    ∃ after, (run.step stream (.finished application applied)).Steady stream after ∧
      after.status.requested = entry.status.requested := by
  unfold RateRun.step
  dsimp only
  by_cases hown : run.outstanding = some application
  · have hstream := h.own application hown
    have hfound := run.state.lookup_modify_self h.found fun entry =>
      entry.finished application applied
    have hfinished : entry.finished application applied =
        { entry with
          status :=
            { entry.status with
              submitted := none
              applied := if applied then some application else entry.status.applied } } :=
      if_pos (h.outstanding.trans hown)
    refine ⟨entry.finished application applied, ?_, ?_⟩
    · rw [if_pos hown]
      refine ⟨?_, ?_, ?_, ?_, fun _ h => (by cases h), fun _ h => (by cases h), ?_, ?_, ?_, ?_,
        h.past, h.dwell, ?_⟩
      · rw [← hstream] at hfound ⊢
        exact hfound
      · rw [hfinished]
        exact h.latest
      · rw [hfinished]
        exact h.chosen
      · rw [hfinished]
      · rw [hfinished]
        intro found hfound
        cases applied with
        | false =>
            rw [if_neg (by simp)]
            exact h.applied found hfound
        | true =>
            rw [if_pos ⟨hown, rfl⟩]
            cases hfound
            exact List.mem_cons_self
      · intro found hfound
        split_ifs at hfound
        · obtain rfl | hold := List.mem_cons.mp hfound
          · exact h.pending _ hown
          · exact h.confirmed found hold
        · exact h.confirmed found hfound
      · rw [hfinished]
        exact h.lastSubmitted
      · rw [hfinished]
        exact h.lastSwitch
      · rw [hfinished]
        exact h.rested
    · rw [hfinished]
  · refine ⟨entry, ?_, rfl⟩
    rw [if_neg hown, if_neg fun hboth => hown hboth.1]
    refine ⟨?_, h.latest, h.chosen, h.outstanding, h.own, h.pending, h.applied, h.confirmed,
      h.lastSubmitted, h.lastSwitch, h.past, h.dwell, h.rested⟩
    have hsame : entry.finished application applied = entry := by
      refine if_neg ?_
      rw [h.outstanding]
      exact hown
    unfold RegistryState.finished
    rw [AList.lookup_modify, h.found]
    split_ifs
    · rw [Option.map_some, hsame]
    · rfl

end

end

/-- **What every call keeps.**  A call changes the revision of the request exactly when it changes the
rate. -/
theorem RateRun.Steady.step {stream : MediaStreamId} {run : RateRun} {entry : StreamRate}
    (h : run.Steady stream entry) (call : RateCall) :
    ∃ after, (run.step stream call).Steady stream after ∧
      entry.status.requested.revision ≤ after.status.requested.revision ∧
      (after.status.requested.revision = entry.status.requested.revision ↔
        after.status.requested.bitsPerSecond = entry.status.requested.bitsPerSecond) := by
  have hsame : ∀ {after : StreamRate}, after.status.requested = entry.status.requested →
      entry.status.requested.revision ≤ after.status.requested.revision ∧
      (after.status.requested.revision = entry.status.requested.revision ↔
        after.status.requested.bitsPerSecond = entry.status.requested.bitsPerSecond) := by
    intro after heq
    rw [heq]
    exact ⟨Nat.le_refl _, fun _ => rfl, fun _ => rfl⟩
  cases call with
  | request bitsPerSecond managed => exact h.requested bitsPerSecond managed
  | select now =>
      obtain ⟨after, hafter, heq⟩ := h.selected now
      exact ⟨after, hafter, hsame heq⟩
  | submitted frame now =>
      obtain ⟨after, hafter, heq⟩ := h.submitted frame now
      exact ⟨after, hafter, hsame heq⟩
  | finished application applied =>
      obtain ⟨after, hafter, heq⟩ := h.finished application applied
      exact ⟨after, hafter, hsame heq⟩

/-- A request that is refused changes nothing. -/
theorem RegistryState.requestInner_error (s : RegistryState) {stream : MediaStreamId}
    {bitsPerSecond : ℕ} {managed : Bool} {error : RateError}
    (h : (s.requestInner stream bitsPerSecond managed).1 = .error error) :
    (s.requestInner stream bitsPerSecond managed).2 = s := by
  cases hfound : s.streams.lookup stream with
  | none =>
      unfold RegistryState.requestInner
      rw [hfound]
      split_ifs <;> rfl
  | some entry =>
      obtain ⟨_, hrefused⟩ | ⟨after, -, haccepted⟩ :=
        s.requestInner_cases hfound bitsPerSecond managed
      · rw [hrefused]
      · rw [haccepted] at h
        cases h

end Encoded
