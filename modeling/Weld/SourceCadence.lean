/-
**The cadence of a source carries no frame credits.**

A surface may be admitted once its deadline has passed.  The next deadline keeps the phase, so it may
be less than an interval after the admission, but it is an interval after the last deadline, and a
claim puts it an interval after the last admission.  So a deadline leaves a step of the ceiling for
every admission but the last, and a window holds two admissions more than it holds intervals, however
long the surface was idle and however late the worker was.

Main definitions: `Clears`, `Spaced`, `CadenceRun`.

Main results:

* `Spaced.length_le` — what a window holds of spaced times;
* `cadence_carries_no_credits` — **for all runs**.
-/

import Mathlib.Data.List.NodupEquivFin
import Mathlib.Order.WellFounded
import Weld.SourcePacing
import Weld.Transition

namespace Encoded

open Client Gamepad Hoist Transition

/-! ### Times that are spaced out -/

/-- Every time is before the deadline, with a step for each time after it. -/
def Clears (interval deadline : ℕ) (times : List ℕ) : Prop :=
  ∀ k t, times[k]? = some t → t + k * interval < deadline

/-- The times, the latest first, clear each other. -/
def Spaced (interval : ℕ) : List ℕ → Prop
  | [] => True
  | t :: times => Clears interval t times ∧ Spaced interval times

section

variable {interval deadline : ℕ} {times some' : List ℕ}

section

variable (h : Clears interval deadline times)
include h

theorem Clears.mono {later : ℕ} (hlater : deadline ≤ later) :
    Clears interval later times := fun k t hk => Nat.lt_of_lt_of_le (h k t hk) hlater

/-- A time that clears the others takes a step before the next deadline. -/
theorem Clears.cons {t next : ℕ} (ht : t < next) (hnext : deadline + interval ≤ next) :
    Clears interval next (t :: times) := by
  intro k u hk
  cases k with
  | zero =>
      cases hk
      omega
  | succ k =>
      have hbefore := h k u hk
      rw [Nat.succ_mul]
      omega

/-- With fewer times there are fewer steps to leave. -/
theorem Clears.sublist (hsub : some'.Sublist times) : Clears interval deadline some' := by
  obtain ⟨f, hf⟩ := List.sublist_iff_exists_orderEmbedding_getElem?_eq.mp hsub
  intro k t hk
  have hlater := h (f k) t (by rw [← hf, hk])
  have hindex : k ≤ f k := StrictMono.le_apply f.strictMono
  have hmul := Nat.mul_le_mul_right interval hindex
  omega

end

theorem Spaced.sublist (h : Spaced interval times) (hsub : some'.Sublist times) :
    Spaced interval some' := by
  induction hsub with
  | slnil => exact h
  | cons t _ ih => exact ih h.2
  | cons_cons t hsub ih => exact ⟨h.1.sublist hsub, ih h.2⟩

/-- **What a window holds of spaced times.** -/
theorem Spaced.length_le (h : Spaced interval times) (hpos : 0 < interval) {start width : ℕ}
    (hwindow : ∀ t ∈ times, start ≤ t ∧ t ≤ start + width) :
    times.length ≤ width / interval + 2 := by
  cases times with
  | nil => exact Nat.zero_le _
  | cons t times =>
      cases hlast : times.getLast? with
      | none =>
          rw [List.getLast?_eq_none_iff.mp hlast]
          exact Nat.le_add_left _ _
      | some first =>
          have hmem := hwindow first (List.mem_cons_of_mem t (List.mem_of_getLast? hlast))
          have hend := hwindow t List.mem_cons_self
          rw [List.getLast?_eq_getElem?] at hlast
          have hclear := h.1 _ first hlast
          -- All steps but one are between the first and the last of them.
          have hsteps : times.length - 1 ≤ width / interval :=
            (Nat.le_div_iff_mul_le hpos).mpr (by omega)
          rw [List.length_cons]
          omega

end

/-! ### Runs -/

/-- What was admitted, and whether the surface was paused then. -/
structure Admission where
  surface : ClientSurfaceId
  time : Instant
  paused : Bool

/-- A cadence, the clock, and what was admitted, the latest first. -/
structure CadenceRun where
  pacing : SourcePacing
  now : Instant := 0
  admissions : List Admission := []

inductive CadenceCall
  | set (surface : ClientSurfaceId) (claim : ClientPresentationClaim)
  | ready (surface : ClientSurfaceId) (now : Instant)
  | admitted (surface : ClientSurfaceId) (now : Instant)

namespace CadenceRun

def start (ceiling : PresentationRate) (fallback : Option PresentationRate) : CadenceRun where
  pacing := { ceiling := some ceiling, fallback }

/-- Times do not decrease, and a surface is admitted only when it is ready. -/
def step (run : CadenceRun) : CadenceCall → CadenceRun
  | .set surface claim => { run with pacing := (run.pacing.set surface claim).1 }
  | .ready _ now => { run with now := max run.now now }
  | .admitted surface now =>
      if run.now ≤ now ∧ run.pacing.ready surface now = true then
        { pacing := run.pacing.admitted surface now
          now
          admissions := ⟨surface, now, run.pacing.paused surface⟩ :: run.admissions }
      else run

/-- When a surface was admitted. -/
def timesOf (run : CadenceRun) (surface : ClientSurfaceId) : List Instant :=
  (run.admissions.filter fun admission => admission.surface = surface).map Admission.time

end CadenceRun

namespace SourcePacing

variable {p : SourcePacing} {ceiling : PresentationRate} (hceiling : p.ceiling = some ceiling)

include hceiling

theorem limit_le (rate : PresentationRate) : (p.limit rate).millihertz ≤ ceiling.millihertz := by
  unfold limit PresentationRate.slower
  rw [hceiling, Option.map_some, Option.getD_some]
  split_ifs <;> omega

/-- Under a ceiling every claim has a rate, and none exceeds the ceiling. -/
theorem rateForClaim_spec (claim : Option ClientPresentationClaim) :
    ∃ rate, p.rateForClaim claim = some rate ∧ rate.millihertz ≤ ceiling.millihertz := by
  have hdefault : ∃ rate, (p.fallback.or p.ceiling).map p.limit = some rate ∧
      rate.millihertz ≤ ceiling.millihertz := by
    rw [hceiling]
    cases p.fallback with
    | none | some => exact ⟨_, rfl, limit_le hceiling _⟩
  cases claim with
  | none => exact hdefault
  | some claim =>
      cases claim with
      | active rate => exact ⟨_, rfl, limit_le hceiling _⟩
      | release | paused => exact hdefault

theorem accept_le {surface : ClientSurfaceId} {claim : ClientPresentationClaim}
    {rate : PresentationRate} (h : (p.set surface claim).2 = .active (some rate)) :
    rate.millihertz ≤ ceiling.millihertz := by
  cases claim with
  | active requested =>
      cases requested with
      | none => cases h
      | some requested =>
          cases h
          exact limit_le hceiling requested
  | release | paused => cases h

end SourcePacing

/-- What a surface was admitted for, against the deadline it has now. -/
structure Uncredited (ceiling : PresentationRate) (cadence : Cadence) (times : List Instant) :
    Prop where
  spaced : Spaced ceiling.interval times
  last : cadence.lastAdmission = times.head?
  cleared : match cadence.next with
    | none => times = []
    | some deadline => Clears ceiling.interval deadline times
  active : ∀ rate, cadence.lastActiveRate = some rate → rate.millihertz ≤ ceiling.millihertz

namespace Uncredited

variable {ceiling : PresentationRate} {cadence : Cadence} {times : List Instant}

theorem start (ceiling : PresentationRate) : Uncredited ceiling {} [] where
  spaced := trivial
  last := rfl
  cleared := rfl
  active := fun _ h => by cases h

/-- A claim puts the deadline an interval after the last admission. -/
theorem claimed (h : Uncredited ceiling cadence times) {p : SourcePacing}
    (hceiling : p.ceiling = some ceiling) (accepted : ClientPresentationClaim) :
    Uncredited ceiling (p.claimed accepted cadence) times := by
  obtain ⟨rate, hrate, hle⟩ := SourcePacing.rateForClaim_spec hceiling (some accepted)
  have hinterval := PresentationRate.interval_le hle
  have hpos := ceiling.interval_pos
  refine ⟨h.spaced, h.last, ?_, ?_⟩
  · unfold SourcePacing.claimed
    rw [hrate, h.last]
    cases times with
    | nil => rfl
    | cons last times =>
        have hnext : last + ceiling.interval ≤ last + rate.interval :=
          Nat.add_le_add_left hinterval last
        exact h.spaced.1.cons (Nat.lt_of_lt_of_le (Nat.lt_add_of_pos_right hpos) hnext) hnext
  · intro active hactive
    unfold SourcePacing.claimed at hactive
    split_ifs at hactive
    · rw [hrate] at hactive
      cases hactive
      exact hle
    · exact h.active active hactive

/-- An admission that is not early puts the deadline an interval after the last one. -/
theorem admitted (h : Uncredited ceiling cadence times) {now interval : ℕ}
    (hready : ∀ deadline, cadence.next = some deadline → deadline ≤ now)
    (hinterval : ceiling.interval ≤ interval) :
    Uncredited ceiling
      { cadence with
        lastAdmission := some now
        next := some (SourcePacing.following cadence.next now interval) } (now :: times) := by
  have hpos := ceiling.interval_pos
  have hcleared := h.cleared
  cases hnext : cadence.next with
  | none =>
      rw [hnext] at hcleared
      subst hcleared
      have hnone : ∀ deadline, Clears ceiling.interval deadline [] := fun _ _ _ hk => by cases hk
      refine ⟨⟨hnone now, trivial⟩, rfl, ?_, h.active⟩
      have hnext : now + ceiling.interval ≤ now + interval := by omega
      exact (hnone now).cons (Nat.lt_of_lt_of_le (Nat.lt_add_of_pos_right hpos) hnext) hnext
  | some previous =>
      rw [hnext] at hcleared
      have hle : previous ≤ now := hready previous hnext
      refine ⟨⟨hcleared.mono hle, h.spaced⟩, rfl, ?_, h.active⟩
      unfold SourcePacing.following
      dsimp only
      split_ifs with hphase
      · exact hcleared.cons hphase (by omega)
      · have hnext : previous + ceiling.interval ≤ now + interval := Nat.add_le_add hle hinterval
        exact hcleared.cons (by omega) hnext

end Uncredited

/-- Nothing was admitted on credit. -/
structure CadenceRun.Fair (ceiling : PresentationRate) (run : CadenceRun) : Prop where
  limited : run.pacing.ceiling = some ceiling
  uncredited : ∀ surface, Uncredited ceiling (run.pacing.cadence surface) (run.timesOf surface)
  active : ∀ admission ∈ run.admissions, admission.paused = false

namespace CadenceRun

variable {ceiling : PresentationRate} {run : CadenceRun}

theorem fair_start (ceiling : PresentationRate) (fallback : Option PresentationRate) :
    (start ceiling fallback).Fair ceiling where
  limited := rfl
  uncredited := fun _ => Uncredited.start ceiling
  active := fun _ h => absurd h List.not_mem_nil

/-- Every surface runs at a rate, and below the ceiling. -/
theorem Fair.rate_spec (h : run.Fair ceiling) (surface : ClientSurfaceId) :
    ∃ rate, run.pacing.rate surface = some rate ∧ rate.millihertz ≤ ceiling.millihertz := by
  obtain ⟨rate, hrate, hle⟩ :=
    SourcePacing.rateForClaim_spec h.limited (run.pacing.cadence surface).claim
  unfold SourcePacing.rate
  rw [hrate]
  split_ifs
  · cases hactive : (run.pacing.cadence surface).lastActiveRate with
    | none => exact ⟨rate, rfl, hle⟩
    | some active => exact ⟨active, rfl, (h.uncredited surface).active active hactive⟩
  · exact ⟨rate, rfl, hle⟩

/-- **A call admits nothing on credit.** -/
theorem Fair.step (h : run.Fair ceiling) (call : CadenceCall) : (run.step call).Fair ceiling := by
  cases call with
  | set surface claim =>
      refine ⟨h.limited, ?_, h.active⟩
      intro other
      have hother := h.uncredited other
      unfold CadenceRun.step
      rw [SourcePacing.cadence_set]
      by_cases hsame : other = surface
      · subst hsame
        rw [if_pos rfl]
        split_ifs
        · exact hother
        · exact hother.claimed h.limited _
      · rw [if_neg hsame]
        exact hother
  | ready surface now => exact ⟨h.limited, h.uncredited, h.active⟩
  | admitted surface now =>
      unfold CadenceRun.step
      dsimp only
      split_ifs with hadmitted
      · obtain ⟨-, hready⟩ := hadmitted
        obtain ⟨rate, hrate, hle⟩ := h.rate_spec surface
        obtain ⟨hactive, hdue⟩ := Bool.and_eq_true_iff.mp hready
        have hactive : run.pacing.paused surface = false := by simpa using hactive
        refine ⟨?_, ?_, ?_⟩
        · unfold SourcePacing.admitted
          rw [hrate]
          exact h.limited
        · intro other
          rw [SourcePacing.cadence_admitted, hrate]
          dsimp only
          by_cases hsame : other = surface
          · subst hsame
            rw [if_pos rfl]
            have htimes : CadenceRun.timesOf
                ⟨run.pacing.admitted other now, now,
                  ⟨other, now, run.pacing.paused other⟩ :: run.admissions⟩ other =
                now :: run.timesOf other := by
              simp [CadenceRun.timesOf]
            rw [htimes]
            refine (h.uncredited other).admitted ?_ (PresentationRate.interval_le hle)
            intro deadline hdeadline
            unfold SourcePacing.deadline at hdue
            rw [hdeadline] at hdue
            simpa using hdue
          · rw [if_neg hsame]
            have htimes : CadenceRun.timesOf
                ⟨run.pacing.admitted surface now, now,
                  ⟨surface, now, run.pacing.paused surface⟩ :: run.admissions⟩ other =
                run.timesOf other := by
              have hne : ¬ surface = other := fun heq => hsame heq.symm
              simp [CadenceRun.timesOf, hne]
            rw [htimes]
            exact h.uncredited other
        · intro admission hmem
          obtain rfl | hold := List.mem_cons.mp hmem
          · exact hactive
          · exact h.active admission hold
      · exact h

end CadenceRun

/-- **The cadence carries no frame credits.**  No rate exceeds the ceiling, nothing is admitted while
it is paused, and a window holds at most two admissions of a surface more than intervals of the
ceiling. -/
theorem cadence_carries_no_credits (ceiling : PresentationRate)
    (fallback : Option PresentationRate) (calls : List CadenceCall) :
    let run := exec CadenceRun.step (CadenceRun.start ceiling fallback) calls
    (∀ surface claim rate, (run.pacing.set surface claim).2 = .active (some rate) →
        rate.millihertz ≤ ceiling.millihertz) ∧
      (∀ surface rate, run.pacing.rate surface = some rate →
        rate.millihertz ≤ ceiling.millihertz) ∧
      (∀ admission ∈ run.admissions, admission.paused = false) ∧
      ∀ surface start width,
        ((run.timesOf surface).filter fun t => start ≤ t ∧ t ≤ start + width).length ≤
          width / ceiling.interval + 2 := by
  intro run
  have h : run.Fair ceiling :=
    exec_invariant (fun _ call h => h.step call) (CadenceRun.fair_start ceiling fallback) calls
  refine ⟨?_, ?_, h.active, ?_⟩
  · exact fun surface claim rate haccepted => SourcePacing.accept_le h.limited haccepted
  · intro surface rate hrate
    obtain ⟨found, hfound, hle⟩ := h.rate_spec surface
    rw [hfound] at hrate
    cases hrate
    exact hle
  · intro surface start width
    have hwindow : ∀ t ∈ (run.timesOf surface).filter fun t => start ≤ t ∧ t ≤ start + width,
        start ≤ t ∧ t ≤ start + width := by
      intro t ht
      simpa using (List.mem_filter.mp ht).2
    exact ((h.uncredited surface).spaced.sublist List.filter_sublist).length_le
      ceiling.interval_pos hwindow

end Encoded
