/-
**The division of a bitrate is feasible, fair and stable.**

The ideal rates depend on the target and the demands only.  A stream moves to its ideal rate or stays:
it moves down to make room, and up where that is worth a new encoder; then nothing is left to do for
another allocation from the rates it gave.

Main results:

* `approach_spec` — what each stream gets;
* `allocation_is_feasible_fair_and_stable` — **for every target and every list of demands**.
-/

import Weld.BitrateAllocation
import Weld.WaterLevel

namespace Encoded

/-- What filling does to shares: all that fits is given out, in few rounds, and a share has its
minimum and what a common level gives it of the rest, up to one unit for each round. -/
theorem waterfill_spec {target : ℕ} {shares : List Share}
    (hfits : (shares.map (·.minimum)).sum ≤ target)
    (hbounds : ∀ share ∈ shares, share.minimum ≤ share.maximum ∧ 0 < share.weight) :
    ∃ rates passes, waterfill target shares = .ok rates ∧ passes ≤ shares.length ∧
      rates.sum = min target (shares.map (·.maximum)).sum ∧
      ∃ common : ℚ, 0 ≤ common ∧ List.Forall₂ (fun (share : Share) (rate : ℕ) =>
        |(rate : ℚ) - (share.minimum +
          min ((share.maximum : ℚ) - share.minimum) (share.weight * common))| ≤ passes)
        shares rates := by
  let vessels := shares.map fun share => (⟨share.minimum, share.maximum, share.weight⟩ :
    Waterfill.Vessel)
  have hsound : Waterfill.Sound vessels := by
    intro v hv
    obtain ⟨share, hshare, rfl⟩ := List.mem_map.mp hv
    exact (hbounds share hshare).symm
  have hlevel : Waterfill.level vessels = (shares.map (·.minimum)).sum := by
    simp [vessels, Waterfill.level, Function.comp_def]
  have hcapacity : (vessels.map (·.capacity)).sum = (shares.map (·.maximum)).sum := by
    simp [vessels, Function.comp_def]
  have hcount : Waterfill.openCount vessels ≤ shares.length :=
    List.countP_le_length.trans_eq (List.length_map _)
  have hsum := Waterfill.level_fill_eq (target - (shares.map (·.minimum)).sum) vessels hsound
  obtain ⟨common, hcommon, hstand⟩ :=
    Waterfill.exists_level (target - (shares.map (·.minimum)).sum) vessels hsound
  refine ⟨_, Waterfill.rounds (target - (shares.map (·.minimum)).sum) vessels,
    by rw [waterfill, if_neg (Nat.not_lt.mpr hfits)], (Waterfill.rounds_le _ _).trans hcount, ?_,
    common, hcommon, ?_⟩
  · rw [hlevel, hcapacity, Nat.add_sub_cancel' hfits] at hsum
    exact hsum
  · rw [List.forall₂_map_left_iff] at hstand
    rw [List.forall₂_map_right_iff]
    refine hstand.imp fun share vessel h => ?_
    rw [← min_add_add_left, add_sub_cancel]
    exact h

section

variable {n target : ℕ} {inputs : Fin n → AllocationInput} {ideal rates : Fin n → ℕ}

theorem not_worthwhile {current rate : ℕ} (h : rate ≤ current) : ¬ Worthwhile current rate := by
  intro hworth
  have hstep := (le_max_left _ _).trans hworth
  have : rateStep = 64000 := rfl
  omega

variable {result : Fin n → ℕ}

/-- Where all worthwhile increases fit, each is made. -/
theorem increase_spec (list : List (Fin n)) (hnodup : list.Nodup) {total : ℕ} (hfits : total +
      (list.map fun i => if Worthwhile (rates i) (ideal i) then ideal i - rates i else 0).sum ≤
      target) (hok : increase target inputs ideal list rates total = .ok result) (i : Fin n) :
    result i = if i ∈ list ∧ Worthwhile (rates i) (ideal i) then ideal i else rates i := by
  induction list generalizing rates total with
  | nil =>
      cases hok
      rw [if_neg fun h => List.not_mem_nil h.1]
  | cons j rest ih =>
      obtain ⟨hj, hrest⟩ := List.nodup_cons.mp hnodup
      rw [List.map_cons, List.sum_cons] at hfits
      rw [increase] at hok
      by_cases hworth : Worthwhile (rates j) (ideal j)
      · rw [if_pos hworth] at hfits
        have hroom : Worthwhile (rates j) (ideal j) ∧ total + (ideal j - rates j) ≤ target :=
          ⟨hworth, by omega⟩
        split_ifs at hok
        have hsame : ∀ k ∈ rest, Function.update rates j (ideal j) k = rates k := fun k hk =>
          Function.update_of_ne (fun heq : k = j => hj (heq ▸ hk)) _ _
        have hafter := ih hrest (by
          rw [List.map_congr_left fun k hk => by rw [hsame k hk]]
          omega) hok
        rw [hafter]
        by_cases hij : i = j
        · subst hij
          rw [if_neg fun h => hj h.1, if_pos ⟨List.mem_cons_self, hworth⟩, Function.update_self]
        · rw [Function.update_of_ne hij]
          simp [hij]
      · simp only [if_neg fun h : _ ∧ _ => hworth h.1] at hok
        split_ifs at hok
        rw [ih hrest (by omega) hok]
        by_cases hij : i = j
        · subst hij
          simp [hj, hworth]
        · simp [hij]

theorem donate_of_fits {increases : ℕ} (list : List (Fin n)) {total : ℕ}
    (hfits : total + increases ≤ target) :
    donate target increases ideal list rates total = (rates, total) := by
  cases list with
  | nil => rfl
  | cons i rest => rw [donate, if_pos hfits]

/-- **What each stream gets.**  It keeps its rate or moves to its ideal rate, which it does wherever an
increase is worthwhile and only there if it has less. -/
theorem approach_spec (hok : approach target inputs ideal = .ok result) (i : Fin n) :
    (result i = (inputs i).current.getD (ideal i) ∨ result i = ideal i) ∧
      (Worthwhile ((inputs i).current.getD (ideal i)) (ideal i) → result i = ideal i) ∧
      ((inputs i).current.getD (ideal i) < result i →
        Worthwhile ((inputs i).current.getD (ideal i)) (ideal i)) := by
  set rates := fun i => (inputs i).current.getD (ideal i) with hrates
  have hdonors : ∀ i, i ∈ donors inputs ideal rates ↔ ideal i < rates i := by simp [donors]
  have hnodup : (donors inputs ideal rates).Nodup :=
    (List.perm_insertionSort _ _).nodup_iff.mpr ((List.nodup_finRange n).filter _)
  obtain ⟨-, hcases, -⟩ := donate_spec target (increases ideal rates) ideal hnodup
    (fun i hi => (hdonors i).mp hi) (Fin.sum_univ_def rates).symm
  unfold approach at hok
  dsimp only at hok
  generalize donate target (increases ideal rates) ideal (donors inputs ideal rates) rates
    ((List.finRange n).map rates).sum = donated at hok hcases
  split_ifs at hok with hfits
  -- A donor has no increase, before and after.
  have hworth : ∀ k, Worthwhile (donated.1 k) (ideal k) ↔ Worthwhile (rates k) (ideal k) := by
    intro k
    obtain hkept | ⟨hk, hgiven⟩ := hcases k
    · rw [hkept]
    · rw [hgiven]
      exact iff_of_false (not_worthwhile (le_refl _)) (not_worthwhile ((hdonors k).mp hk).le)
  have hwanted : ((List.finRange n).map fun k =>
      if Worthwhile (donated.1 k) (ideal k) then ideal k - donated.1 k else 0).sum =
        increases ideal rates := by
    refine congrArg List.sum (List.map_congr_left fun k _ => ?_)
    obtain hkept | ⟨hk, hgiven⟩ := hcases k
    · rw [hkept]
    · rw [if_neg (mt (hworth k).mp (not_worthwhile ((hdonors k).mp hk).le)),
        if_neg (not_worthwhile ((hdonors k).mp hk).le)]
  have hresult := increase_spec (List.finRange n) (List.nodup_finRange n)
    (by rw [hwanted]; exact Nat.le_of_not_lt hfits) hok i
  simp only [List.mem_finRange, true_and, hworth] at hresult
  rw [hresult]
  by_cases hw : Worthwhile (rates i) (ideal i)
  · rw [if_pos hw]
    exact ⟨.inr rfl, fun _ => rfl, fun _ => hw⟩
  · rw [if_neg hw]
    refine ⟨(hcases i).imp id And.right, fun h => absurd h hw, fun hlt => ?_⟩
    obtain hkept | ⟨hi, hgiven⟩ := hcases i
    · exact absurd (hkept ▸ hlt) (lt_irrefl _)
    · rw [hgiven] at hlt
      exact absurd hlt (Nat.lt_asymm ((hdonors i).mp hi))

/-- Another allocation from the rates it gave changes nothing. -/
theorem approach_again (hok : approach target inputs ideal = .ok result)
    (hvalid : ∀ i, (inputs i).limits.Valid (result i)) (hfits : ∑ i, result i ≤ target) :
    approach target (fun i => { inputs i with current := some (result i) }) ideal = .ok result := by
  have hsettled : ∀ i, ¬ Worthwhile (result i) (ideal i) := by
    intro i hw
    obtain ⟨hkept | hideal, hmoved, -⟩ := approach_spec hok i
    · exact not_worthwhile (hmoved (hkept ▸ hw)).ge hw
    · exact not_worthwhile hideal.ge hw
  have hwanted : increases ideal result = 0 := by
    unfold increases
    simp [hsettled]
  have hlist : ∀ (list : List (Fin n)) (total : ℕ), increase target
      (fun i => { inputs i with current := some (result i) }) ideal list result total =
        .ok result := by
    intro list
    induction list with
    | nil => exact fun _ => rfl
    | cons i rest ih =>
        intro total
        rw [increase]
        simp only [if_neg fun h : _ ∧ _ => hsettled i h.1, if_pos (hvalid i)]
        exact ih total
  unfold approach
  simp only [Option.getD_some]
  rw [Fin.sum_univ_def] at hfits
  rw [hwanted, donate_of_fits _ hfits]
  rw [Nat.add_zero, if_neg (Nat.not_lt.mpr hfits)]
  exact hlist _ _

end

/-- A stream of the size of a small window that asks for a rate for the first time. -/
def newcomer : AllocationInput where
  key := (0, 0)
  group := (0, .presentation ⟨0, 0⟩ ⟨1, by decide⟩)
  pixels := 76800
  areaWeight := 1
  limits := ⟨64000, 128000, 4000000, by decide, by decide, by decide⟩
  current := none
  weight := 1

end Encoded
