/-
**The cadence of a source.**

`pacing.rs` of `weld-hoist-encoded` decides when the next frame of a surface may be encoded.  A
presentation claim chooses the rate; every admission moves the deadline one interval on.  Deadlines
carry no credits: a surface that was idle for long starts anew instead of catching up.

A surface is prompt if its deadline is no later than one interval after its last admission, at the
rate that its encoders run at now.  Resetting and forgetting keep that; an admission keeps it exactly
if it does not come before the deadline, and a claim keeps it exactly if it does not put off a paused
surface by the interval of a rate that its encoders do not run at.

Main definitions: `Encoded.SourcePacing`, `Encoded.SourcePacing.Prompt`.

Main results:

* `Encoded.SourcePacing.prompt_admitted`, `Encoded.SourcePacing.prompt_set` — when an admission and a
  claim keep a surface prompt;
* `Encoded.SourcePacing.Prompt.ready` — a prompt surface is ready within an interval.
-/

import Weld.Activity

namespace Client

namespace PresentationRate

def hz60 : PresentationRate := ⟨60000, by decide⟩

/-- The nanoseconds between two frames, rounded up. -/
def interval (rate : PresentationRate) : ℕ := (1000000000000 + rate.millihertz - 1) / rate.millihertz

theorem interval_pos (rate : PresentationRate) : 0 < rate.interval :=
  Nat.div_pos (by omega) (Nat.lt_of_lt_of_le (by decide) rate.bounds.1)

/-- A faster rate has a shorter interval. -/
theorem interval_le {slow fast : PresentationRate} (h : slow.millihertz ≤ fast.millihertz) :
    fast.interval ≤ slow.interval := by
  have hpos : 0 < slow.millihertz := Nat.lt_of_lt_of_le (by decide) slow.bounds.1
  have hcover : 1000000000000 ≤ slow.millihertz * slow.interval := by
    have hdivision := Nat.div_add_mod (1000000000000 + slow.millihertz - 1) slow.millihertz
    have hmod := Nat.mod_lt (1000000000000 + slow.millihertz - 1) hpos
    rw [interval]
    omega
  have hscaled := Nat.mul_le_mul_right slow.interval h
  rw [interval, ← Nat.lt_succ_iff, Nat.div_lt_iff_lt_mul (by omega)]
  rw [Nat.succ_eq_add_one, Nat.add_mul, Nat.mul_comm slow.interval]
  omega

/-- The slower of two rates. -/
def slower (a b : PresentationRate) : PresentationRate :=
  if b.millihertz < a.millihertz then b else a

end PresentationRate

def ClientPresentationClaim.isActive : ClientPresentationClaim → Bool
  | .active _ => true
  | _ => false

end Client

namespace Encoded

open Client Gamepad Hoist

/-! ### The cadences -/

/-- Without a claim there is no explicit preference; the ceiling applies all the same. -/
structure Cadence where
  claim : Option ClientPresentationClaim := none
  next : Option Instant := none
  lastAdmission : Option Instant := none
  lastActiveRate : Option PresentationRate := none
  deriving DecidableEq

structure SourcePacing where
  ceiling : Option PresentationRate
  fallback : Option PresentationRate
  surfaces : Dict ClientSurfaceId Cadence := ∅

namespace SourcePacing

/-- What is recorded of a surface. -/
def cadence (p : SourcePacing) (surface : ClientSurfaceId) : Cadence :=
  (p.surfaces.lookup surface).getD {}

def limit (p : SourcePacing) (rate : PresentationRate) : PresentationRate :=
  (p.ceiling.map fun limit => limit.slower rate).getD rate

def rateForClaim (p : SourcePacing) : Option ClientPresentationClaim → Option PresentationRate
  | some (.active rate) => some (p.limit ((rate.or p.fallback).getD .hz60))
  | _ => (p.fallback.or p.ceiling).map p.limit

def paused (p : SourcePacing) (surface : ClientSurfaceId) : Bool :=
  (p.cadence surface).claim.any fun claim => !claim.isActive

/-- The rate the encoders of a surface run at.  A pause does not reconfigure them. -/
def rate (p : SourcePacing) (surface : ClientSurfaceId) : Option PresentationRate :=
  (if p.paused surface then (p.cadence surface).lastActiveRate else none).or
    (p.rateForClaim (p.cadence surface).claim)

def deadline (p : SourcePacing) (surface : ClientSurfaceId) : Option Instant :=
  (p.cadence surface).next

def ready (p : SourcePacing) (surface : ClientSurfaceId) (now : Instant) : Bool :=
  !p.paused surface && (p.deadline surface).all fun deadline => decide (deadline ≤ now)

/-! ### What changes them -/

/-- The claim as it is accepted.  A claim without a rate keeps the fallback of the source output. -/
def accept (p : SourcePacing) : ClientPresentationClaim → ClientPresentationClaim
  | .active (some rate) => .active (some (p.limit rate))
  | claim => claim

/-- The cadence of a surface whose claim changes. -/
def claimed (p : SourcePacing) (accepted : ClientPresentationClaim) (cadence : Cadence) : Cadence :=
  let rate := p.rateForClaim (some accepted)
  { cadence with
    claim := some accepted
    lastActiveRate := if accepted.isActive then rate else cadence.lastActiveRate
    next := cadence.lastAdmission.bind fun last => rate.map fun rate => last + rate.interval }

def set (p : SourcePacing) (surface : ClientSurfaceId) (claim : ClientPresentationClaim) :
    SourcePacing × ClientPresentationClaim :=
  let accepted := p.accept claim
  let cadence := p.cadence surface
  let cadence := if cadence.claim = some accepted then cadence else p.claimed accepted cadence
  ({ p with surfaces := p.surfaces.insert surface cadence }, accepted)

/-- The deadline after an admission.  Small scheduling jitter does not shift the phase; after a
missed interval the cadence starts anew. -/
def following (next : Option Instant) (now : Instant) (interval : Duration) : Instant :=
  match next with
  | some previous => if now < previous + interval then previous + interval else now + interval
  | none => now + interval

def admitted (p : SourcePacing) (surface : ClientSurfaceId) (now : Instant) : SourcePacing :=
  match p.rate surface with
  | none => p
  | some rate =>
      let cadence := p.cadence surface
      { p with
        surfaces := p.surfaces.insert surface
          { cadence with
            lastAdmission := some now
            next := some (following cadence.next now rate.interval) } }

def reset (p : SourcePacing) (surface : ClientSurfaceId) : SourcePacing :=
  { p with
    surfaces := p.surfaces.modify surface fun cadence =>
      { cadence with next := none, lastAdmission := none } }

def forget (p : SourcePacing) (surface : ClientSurfaceId) : SourcePacing :=
  { p with surfaces := p.surfaces.erase surface }

/-! ### What is recorded after a change -/

section Cadence

variable (p : SourcePacing) (surface other : ClientSurfaceId)

@[simp] theorem cadence_insert (cadence : Cadence) :
    ({ p with surfaces := p.surfaces.insert surface cadence } : SourcePacing).cadence other =
      if other = surface then cadence else p.cadence other := by
  by_cases h : other = surface <;> simp [SourcePacing.cadence, h]

@[simp] theorem cadence_set (claim : ClientPresentationClaim) :
    (p.set surface claim).1.cadence other =
      if other = surface then
        if (p.cadence surface).claim = some (p.accept claim) then p.cadence surface
        else p.claimed (p.accept claim) (p.cadence surface)
      else p.cadence other :=
  cadence_insert p surface other _

@[simp] theorem cadence_admitted (now : Instant) :
    (p.admitted surface now).cadence other =
      match p.rate surface with
      | none => p.cadence other
      | some rate =>
          if other = surface then
            { p.cadence surface with
              lastAdmission := some now
              next := some (following (p.cadence surface).next now rate.interval) }
          else p.cadence other := by
  unfold admitted
  split
  · rfl
  · rw [cadence_insert]

@[simp] theorem cadence_reset :
    (p.reset surface).cadence other =
      if other = surface then
        { p.cadence surface with next := none, lastAdmission := none }
      else p.cadence other := by
  by_cases h : other = surface
  · subst h
    cases hfound : p.surfaces.lookup other <;> simp [SourcePacing.cadence, reset, hfound]
  · simp [SourcePacing.cadence, reset, h]

@[simp] theorem cadence_forget :
    (p.forget surface).cadence other = if other = surface then {} else p.cadence other := by
  by_cases h : other = surface <;> simp [SourcePacing.cadence, forget, h]

@[simp] theorem rateForClaim_set (claim : ClientPresentationClaim) :
    (p.set surface claim).1.rateForClaim = p.rateForClaim := by
  funext claim
  cases claim with
  | none => rfl
  | some claim => cases claim <;> rfl

@[simp] theorem rateForClaim_admitted (now : Instant) :
    (p.admitted surface now).rateForClaim = p.rateForClaim := by
  funext claim
  unfold admitted
  split
  · rfl
  · cases claim with
    | none => rfl
    | some claim => cases claim <;> rfl

@[simp] theorem rateForClaim_reset : (p.reset surface).rateForClaim = p.rateForClaim := by
  funext claim
  cases claim with
  | none => rfl
  | some claim => cases claim <;> rfl

@[simp] theorem rateForClaim_forget : (p.forget surface).rateForClaim = p.rateForClaim := by
  funext claim
  cases claim with
  | none => rfl
  | some claim => cases claim <;> rfl

end Cadence

variable {surface : ClientSurfaceId} {p : SourcePacing}

/-- The rate of a surface is what its cadence says. -/
theorem rate_congr {q : SourcePacing} (hcadence : q.cadence surface = p.cadence surface)
    (hrates : q.rateForClaim = p.rateForClaim) : q.rate surface = p.rate surface := by
  rw [rate, rate, paused, paused, hcadence, hrates]

variable {claim : ClientPresentationClaim}

/-- An inactive claim is accepted as it is. -/
theorem accept_of_inactive (p : SourcePacing)
    (h : claim.isActive = false) : p.accept claim = claim := by
  cases claim with
  | active rate => cases h
  | release | paused => rfl

/-- An inactive claim leaves the rate that holds without a claim. -/
theorem rateForClaim_of_inactive (p : SourcePacing) (h : claim.isActive = false) :
    p.rateForClaim (some (p.accept claim)) = p.rateForClaim none := by
  cases claim with
  | active rate => cases h
  | release | paused => rfl

@[simp] theorem isActive_accept (p : SourcePacing) (claim : ClientPresentationClaim) :
    (p.accept claim).isActive = claim.isActive := by
  cases claim with
  | active rate => cases rate <;> rfl
  | release | paused => rfl

/-! ### Debts -/

/-- The deadline of a surface is at most one interval of its rate after its last admission. -/
def Prompt (p : SourcePacing) (surface : ClientSurfaceId) : Prop :=
  ∀ deadline, p.deadline surface = some deadline →
    ∃ last rate, (p.cadence surface).lastAdmission = some last ∧ p.rate surface = some rate ∧
      deadline ≤ last + rate.interval

/-- The surface may be admitted now without going ahead of its cadence. -/
def Due (p : SourcePacing) (surface : ClientSurfaceId) (now : Instant) : Prop :=
  ∀ deadline, p.deadline surface = some deadline → deadline ≤ now

/-- The claim does not pause a surface whose encoders run faster than unclaimed ones. -/
def Spares (p : SourcePacing) (surface : ClientSurfaceId) (claim : ClientPresentationClaim) : Prop :=
  claim.isActive = false → (p.cadence surface).claim ≠ some claim →
    ∀ last active bootstrap, (p.cadence surface).lastAdmission = some last →
      (p.cadence surface).lastActiveRate = some active → p.rateForClaim none = some bootstrap →
      bootstrap.interval ≤ active.interval

instance (p : SourcePacing) (surface : ClientSurfaceId) (now : Instant) :
    Decidable (p.Due surface now) :=
  decidable_of_iff ((p.deadline surface).all fun deadline => decide (deadline ≤ now)) <| by
    simp [Due, Option.all_eq_true]

/-- Whoever records the same is as prompt. -/
theorem Prompt.congr {q : SourcePacing} (h : p.Prompt surface)
    (hcadence : q.cadence surface = p.cadence surface) (hrates : q.rateForClaim = p.rateForClaim) :
    q.Prompt surface := by
  intro deadline hdeadline
  rw [SourcePacing.deadline, hcadence] at hdeadline
  rw [hcadence, rate_congr hcadence hrates]
  exact h deadline hdeadline

/-- A surface without a deadline is prompt. -/
theorem prompt_of_next_none (h : (p.cadence surface).next = none) : p.Prompt surface := by
  intro deadline hdeadline
  rw [SourcePacing.deadline, h] at hdeadline
  cases hdeadline

variable {other : ClientSurfaceId}

theorem Prompt.reset (h : p.Prompt other) (surface : ClientSurfaceId) :
    (p.reset surface).Prompt other := by
  by_cases hsame : other = surface
  · exact prompt_of_next_none (by simp [hsame])
  · exact h.congr (by simp [hsame]) (by simp)

theorem Prompt.forget (h : p.Prompt other) (surface : ClientSurfaceId) :
    (p.forget surface).Prompt other := by
  by_cases hsame : other = surface
  · exact prompt_of_next_none (by simp [hsame])
  · exact h.congr (by simp [hsame]) (by simp)

/-- An admission changes neither the claim nor the rate. -/
theorem rate_admitted (p : SourcePacing) (surface other : ClientSurfaceId) (now : Instant) :
    (p.admitted surface now).rate other = p.rate other := by
  have hclaim : ((p.admitted surface now).cadence other).claim = (p.cadence other).claim ∧
      ((p.admitted surface now).cadence other).lastActiveRate =
        (p.cadence other).lastActiveRate := by
    rw [cadence_admitted]
    split
    · exact ⟨rfl, rfl⟩
    · split_ifs with hsame
      · subst hsame
        exact ⟨rfl, rfl⟩
      · exact ⟨rfl, rfl⟩
  rw [rate, rate, paused, paused, hclaim.1, hclaim.2, rateForClaim_admitted]

/-- What follows an admission is at most one interval away exactly if the admission is due. -/
theorem following_le_iff (next : Option Instant) (now : Instant) (interval : Duration) :
    following next now interval ≤ now + interval ↔
      ∀ previous, next = some previous → previous ≤ now := by
  cases next with
  | none => simp [following]
  | some previous =>
      simp only [following, Option.some.injEq, forall_eq']
      split_ifs with hlate <;> grind

/-- **An admission keeps a surface prompt exactly if it does not come before the deadline.** -/
theorem prompt_admitted (h : p.Prompt surface) (now : Instant) :
    (p.admitted surface now).Prompt surface ↔ p.Due surface now := by
  cases hrate : p.rate surface with
  | none =>
      have hnext : p.deadline surface = none := by
        cases hdeadline : p.deadline surface with
        | none => rfl
        | some deadline =>
            obtain ⟨last, rate, -, hsome, -⟩ := h deadline hdeadline
            rw [hrate] at hsome
            cases hsome
      have hsame : p.admitted surface now = p := by rw [admitted, hrate]
      simp [hsame, h, Due, hnext]
  | some rate =>
      have hcadence := cadence_admitted p surface surface now
      simp only [hrate, if_pos] at hcadence
      constructor
      · intro hprompt deadline hdeadline
        have hnext : (p.admitted surface now).deadline surface =
            some (following (some deadline) now rate.interval) := by
          rw [SourcePacing.deadline, hcadence, ← hdeadline]
          rfl
        obtain ⟨last, rate', hlast, hrate', hle⟩ := hprompt _ hnext
        rw [hcadence] at hlast
        rw [rate_admitted, hrate] at hrate'
        cases hlast
        cases hrate'
        exact (following_le_iff (some deadline) now rate.interval).mp hle deadline rfl
      · intro hdue deadline hdeadline
        rw [SourcePacing.deadline, hcadence] at hdeadline
        refine ⟨now, rate, by rw [hcadence], by rw [rate_admitted, hrate], ?_⟩
        cases hdeadline
        exact (following_le_iff _ now rate.interval).mpr hdue

theorem Prompt.admitted {now : Instant} (h : p.Prompt other) (hdue : p.Due surface now) :
    (p.admitted surface now).Prompt other := by
  by_cases hsame : other = surface
  · subst hsame
    exact (prompt_admitted h now).mpr hdue
  · refine h.congr ?_ (by simp)
    rw [cadence_admitted]
    split
    · rfl
    · rw [if_neg hsame]

/-- The rate of a surface whose claim has changed. -/
theorem rate_set (hnew : (p.cadence surface).claim ≠ some (p.accept claim)) :
    (p.set surface claim).1.rate surface =
      if claim.isActive then p.rateForClaim (some (p.accept claim))
      else (p.cadence surface).lastActiveRate.or (p.rateForClaim none) := by
  rw [rate, paused, cadence_set, if_pos rfl, if_neg hnew, rateForClaim_set]
  cases hactive : claim.isActive with
  | true => simp [claimed, hactive]
  | false =>
      have hrates := p.rateForClaim_of_inactive hactive
      cases hlast : (p.cadence surface).lastActiveRate <;> simp [claimed, hactive, hlast, hrates]

/-- **A claim keeps a surface prompt exactly if it spares it.** -/
theorem prompt_set (h : p.Prompt surface) (claim : ClientPresentationClaim) :
    (p.set surface claim).1.Prompt surface ↔ p.Spares surface claim := by
  by_cases hnew : (p.cadence surface).claim = some (p.accept claim)
  · have hcadence : (p.set surface claim).1.cadence surface = p.cadence surface := by simp [hnew]
    refine ⟨fun _ hactive hne => ?_, fun _ => h.congr hcadence (by simp)⟩
    rw [accept_of_inactive p hactive] at hnew
    exact absurd hnew hne
  · have hcadence : (p.set surface claim).1.cadence surface =
        p.claimed (p.accept claim) (p.cadence surface) := by simp [hnew]
    have hlast : ((p.set surface claim).1.cadence surface).lastAdmission =
        (p.cadence surface).lastAdmission := by rw [hcadence]; rfl
    have hnext : (p.set surface claim).1.deadline surface =
        (p.cadence surface).lastAdmission.bind fun last =>
          (p.rateForClaim (some (p.accept claim))).map fun rate => last + rate.interval := by
      rw [SourcePacing.deadline, hcadence]
      rfl
    unfold Prompt
    rw [hnext, hlast, rate_set hnew]
    cases hactive : claim.isActive with
    | true =>
        refine ⟨fun _ hinactive => absurd hinactive (by simp [hactive]), fun _ => ?_⟩
        intro deadline hdeadline
        obtain ⟨last, hlast, hmap⟩ := Option.bind_eq_some_iff.mp hdeadline
        obtain ⟨rate, hrate, rfl⟩ := Option.map_eq_some_iff.mp hmap
        exact ⟨last, rate, hlast, by simpa using hrate, le_rfl⟩
    | false =>
        rw [accept_of_inactive p hactive] at hnew
        rw [p.rateForClaim_of_inactive hactive]
        constructor
        · intro hprompt _ _ last active bootstrap hlast hactive hbootstrap
          obtain ⟨last', rate, hlast', hrate, hle⟩ :=
            hprompt (last + bootstrap.interval) (by simp [hlast, hbootstrap])
          rw [hlast] at hlast'
          cases hlast'
          simp only [hactive, Option.some_or, Bool.false_eq_true, if_false,
            Option.some.injEq] at hrate
          subst hrate
          exact Nat.le_of_add_le_add_left hle
        · intro hspares deadline hdeadline
          obtain ⟨last, hlast, hmap⟩ := Option.bind_eq_some_iff.mp hdeadline
          obtain ⟨bootstrap, hbootstrap, rfl⟩ := Option.map_eq_some_iff.mp hmap
          cases hfast : (p.cadence surface).lastActiveRate with
          | none => exact ⟨last, bootstrap, hlast, by simp [hbootstrap], le_rfl⟩
          | some active =>
              have hle := hspares hactive hnew last active bootstrap hlast hfast hbootstrap
              exact ⟨last, active, hlast, by simp, Nat.add_le_add_left hle last⟩

theorem Prompt.set (h : p.Prompt other) (hspares : p.Spares surface claim) :
    (p.set surface claim).1.Prompt other := by
  by_cases hsame : other = surface
  · subst hsame
    exact (prompt_set h claim).mpr hspares
  · exact h.congr (by simp [hsame]) (by simp)

/-- **A prompt surface is ready within an interval**, whatever the clock shows since its last
admission, unless it is paused. -/
theorem Prompt.ready (h : p.Prompt surface) (hpaused : p.paused surface = false) {now : Instant}
    (hlast : ∀ last, (p.cadence surface).lastAdmission = some last → last ≤ now) :
    ∃ wait, (∀ rate, p.rate surface = some rate → wait ≤ rate.interval) ∧
      p.ready surface (now + wait) = true := by
  cases hdeadline : p.deadline surface with
  | none => exact ⟨0, fun _ _ => Nat.zero_le _, by simp [SourcePacing.ready, hpaused, hdeadline]⟩
  | some deadline =>
      obtain ⟨last, rate, hadmitted, hrate, hle⟩ := h deadline hdeadline
      have hnow := hlast last hadmitted
      refine ⟨rate.interval, fun other hother => ?_, ?_⟩
      · rw [hrate] at hother
        cases hother
        exact le_rfl
      · simp only [SourcePacing.ready, hpaused, hdeadline, Bool.not_false, Bool.true_and,
          Option.all_some, decide_eq_true_eq]
        exact hle.trans (Nat.add_le_add_right hnow rate.interval)

end SourcePacing

end Encoded
