/-
**How many rounds filling takes, and how fair it is.**

A round that fills no vessel leaves less than one unit for each vessel that has room, and every round
takes something.  So there are no more rounds than vessels.  Every round raises a common level; a
vessel is as full as that level and its capacity make it, up to one unit for each round.

Main definitions: `rounds`, `Vessel.at`.

Main results:

* `rounds_le` — **no more rounds than vessels**, whatever is shared out;
* `level_fill_eq` — all is shared out that the vessels can hold;
* `exists_level` — **the vessels stand at a common level**, up to the rounds.
-/

import Mathlib.Algebra.Order.BigOperators.Group.List
import Mathlib.Algebra.Order.Group.MinMax
import Mathlib.Tactic.Linarith
import Mathlib.Tactic.Ring
import Weld.Waterfill

namespace Waterfill

/-! ### The number of rounds -/

def rounds (remaining : ℕ) (vessels : List Vessel) : ℕ :=
  if _h : remaining = 0 ∨ openWeight vessels = 0 then 0
  else rounds (round remaining vessels).2 (round remaining vessels).1 + 1
termination_by remaining
decreasing_by exact round_lt (not_or.mp _h).1 (not_or.mp _h).2

/-- The vessels that have room. -/
def openCount (vessels : List Vessel) : ℕ := vessels.countP fun v => v.level < v.capacity

variable (remaining : ℕ)

/-- Every round takes something. -/
theorem rounds_le_remaining (vessels : List Vessel) : rounds remaining vessels ≤ remaining := by
  induction remaining, vessels using fill.induct with
  | case1 remaining vessels h =>
      rw [rounds, dif_pos h]
      exact Nat.zero_le _
  | case2 remaining vessels h ih =>
      rw [rounds, dif_neg h]
      have hlt := round_lt (not_or.mp h).1 (not_or.mp h).2
      omega

variable {available total : ℕ} {vessels : List Vessel}

/-- Rounding down loses less than a unit for each vessel with room. -/
theorem poured_lt (hfloor : ∀ v ∈ vessels, v.level < v.capacity →
      v.share available total = available * v.weight / total) (htotal : 0 < total) :
    available * openWeight vessels + openCount vessels ≤
      total * (poured available total vessels + openCount vessels) := by
  induction vessels with
  | nil => simp [openWeight, openCount, poured]
  | cons v vs ih =>
      have hrest := ih fun w hw => hfloor w (List.mem_cons_of_mem v hw)
      have hpoured : poured available total (v :: vs) =
          v.share available total + poured available total vs := by
        simp [poured]
      by_cases hroom : v.level < v.capacity
      · have hshare := hfloor v List.mem_cons_self hroom
        have hweight : openWeight (v :: vs) = v.weight + openWeight vs := by
          simp [openWeight, hroom]
        have hcount : openCount (v :: vs) = openCount vs + 1 := by
          simp [openCount, hroom]
        have hlost := Nat.lt_mul_div_succ (available * v.weight) htotal
        rw [hpoured, hweight, hcount, hshare]
        simp only [Nat.mul_add, Nat.mul_one] at hrest hlost ⊢
        omega
      · have hweight : openWeight (v :: vs) = openWeight vs := by simp [openWeight, hroom]
        have hcount : openCount (v :: vs) = openCount vs := by simp [openCount, hroom]
        rw [hpoured, hweight, hcount]
        refine hrest.trans (Nat.mul_le_mul_left total ?_)
        omega

/-- A round that shares without filling a vessel leaves less than one unit for each. -/
theorem left_lt (hopen : openWeight vessels ≠ 0) (hfloor : ∀ v ∈ vessels, v.level < v.capacity →
      v.share available (openWeight vessels) = available * v.weight / openWeight vessels) :
    available - poured available (openWeight vessels) vessels < openCount vessels := by
  have hlost := poured_lt hfloor (Nat.pos_of_ne_zero hopen)
  have hcount : 0 < openCount vessels := by
    by_contra hnone
    have hnone : openCount vessels = 0 := Nat.eq_zero_of_not_pos hnone
    refine hopen ?_
    unfold openWeight
    rw [List.filter_eq_nil_iff.mpr fun v hv => List.countP_eq_zero.mp hnone v hv]
    rfl
  by_contra hle
  have hle : poured available (openWeight vessels) vessels + openCount vessels ≤ available := by
    omega
  have := Nat.mul_le_mul_left (openWeight vessels) hle
  rw [Nat.mul_comm available] at hlost
  omega

/-- A round that fills a vessel leaves fewer with room. -/
theorem openCount_pour {v : Vessel} (hv : v ∈ vessels) (hroom : v.level < v.capacity)
    (hfull : v.share available total = v.capacity - v.level) :
    openCount (pour available total vessels) < openCount vessels := by
  have hle : ∀ vs : List Vessel, openCount (pour available total vs) ≤ openCount vs := by
    intro vs
    unfold openCount pour
    rw [List.countP_map]
    refine List.countP_mono_left fun w _ hw => ?_
    simp only [Function.comp_apply, decide_eq_true_eq] at hw ⊢
    omega
  induction vessels with
  | nil => exact absurd hv List.not_mem_nil
  | cons w vs ih =>
      have hrest := hle vs
      simp only [openCount, pour, List.map_cons, List.countP_cons] at hrest ih ⊢
      obtain rfl | hv := List.mem_cons.mp hv
      · rw [hfull, if_neg (by simp; omega), if_pos (by simpa using hroom)]
        omega
      · have hlt := ih hv
        by_cases hopen : w.level + w.share available total < w.capacity
        · rw [if_pos (by simpa using hopen), if_pos (by simp; omega)]
          omega
        · rw [if_neg (by simpa using hopen)]
          omega

/-- **There are no more rounds than vessels with room**, whatever is shared out. -/
theorem rounds_le (vessels : List Vessel) : rounds remaining vessels ≤ openCount vessels := by
  induction remaining, vessels using fill.induct with
  | case1 remaining vessels h =>
      rw [rounds, dif_pos h]
      exact Nat.zero_le _
  | case2 remaining vessels h ih =>
      have hopen := (not_or.mp h).2
      by_cases hfloor : ∀ v ∈ vessels, v.level < v.capacity →
          v.share remaining (openWeight vessels) = remaining * v.weight / openWeight vessels
      · have hleft := left_lt hopen hfloor
        by_cases hnone : poured remaining (openWeight vessels) vessels = 0
        · have hle := rounds_le_remaining remaining vessels
          omega
        · rw [rounds, dif_neg h, round, if_neg hnone]
          have hle := rounds_le_remaining
            (remaining - poured remaining (openWeight vessels) vessels)
            (pour remaining (openWeight vessels) vessels)
          dsimp only
          omega
      · -- Some vessel is filled.
        obtain ⟨v, hv, hroom, hne⟩ : ∃ v ∈ vessels, v.level < v.capacity ∧
            v.share remaining (openWeight vessels) ≠
              remaining * v.weight / openWeight vessels := by
          simpa using hfloor
        have hfull : v.share remaining (openWeight vessels) = v.capacity - v.level := by
          unfold Vessel.share at hne ⊢
          rw [if_neg hroom.ne] at hne ⊢
          omega
        have hsome : poured remaining (openWeight vessels) vessels ≠ 0 := by
          intro hzero
          have hshare := List.sum_eq_zero_iff_forall_eq_nat.mp hzero _
            (List.mem_map_of_mem (f := fun v => v.share remaining (openWeight vessels)) hv)
          omega
        have hfewer := openCount_pour hv hroom hfull
        rw [rounds, dif_neg h]
        rw [round, if_neg hsome] at ih ⊢
        dsimp only at ih ⊢
        omega

/-! ### All that fits is shared out -/

/-- Vessels with a weight that are not overfull. -/
def Sound (vessels : List Vessel) : Prop := ∀ v ∈ vessels, 0 < v.weight ∧ v.level ≤ v.capacity

theorem Filled.sound {filled : List Vessel} (h : Filled vessels filled) (hs : Sound vessels) :
    Sound filled ∧ filled.map (·.capacity) = vessels.map (·.capacity) := by
  induction h with
  | nil => exact ⟨fun v hv => absurd hv List.not_mem_nil, rfl⟩
  | cons hv _ ih =>
      obtain ⟨hsound, hcapacity⟩ := ih fun w hw => hs w (List.mem_cons_of_mem _ hw)
      obtain ⟨hweight, hfits⟩ := hs _ List.mem_cons_self
      refine ⟨fun w hw => ?_, ?_⟩
      · obtain rfl | hw := List.mem_cons.mp hw
        · exact ⟨hv.weight ▸ hweight, (hv.fits hfits).trans_eq hv.capacity.symm⟩
        · exact hsound w hw
      · rw [List.map_cons, List.map_cons, hcapacity, hv.capacity]

/-- **All is shared out that the vessels can hold.** -/
theorem level_fill_eq (vessels : List Vessel) (hs : Sound vessels) :
    level (fill remaining vessels) =
      min (level vessels + remaining) (vessels.map (·.capacity)).sum := by
  have hle : ∀ vs : List Vessel, Sound vs → level vs ≤ (vs.map (·.capacity)).sum := fun vs h =>
    List.sum_le_sum fun v hv => (h v hv).2
  induction remaining, vessels using fill.induct with
  | case1 remaining vessels h =>
      rw [fill, dif_pos h]
      obtain rfl | hclosed := h
      · rw [Nat.add_zero, min_eq_left (hle vessels hs)]
      · have hfull : level vessels = (vessels.map (·.capacity)).sum := by
          refine congrArg List.sum (List.map_congr_left fun v hv => ?_)
          obtain ⟨hweight, hfits⟩ := hs v hv
          refine hfits.antisymm (Nat.le_of_not_lt fun hroom => hweight.ne' ?_)
          exact List.sum_eq_zero_iff_forall_eq_nat.mp hclosed _
            (List.mem_map_of_mem (List.mem_filter.mpr ⟨hv, decide_eq_true hroom⟩))
        rw [hfull, min_eq_right (Nat.le_add_right _ _)]
  | case2 remaining vessels h ih =>
      obtain ⟨hsound, hcapacity⟩ := (filled_round remaining vessels).sound hs
      rw [fill, dif_neg h, ih hsound, hcapacity, level_round remaining (not_or.mp h).2]

/-! ### A common level -/

/-- What a vessel holds once a common level has risen. -/
def Vessel.at (v : Vessel) (common : ℚ) : ℚ :=
  min v.capacity (v.level + v.weight * common)

/-- The share of a vessel is what the common level gives it, rounded down. -/
theorem share_level (available : ℕ) (v : Vessel) (hfits : v.level ≤ v.capacity) (htotal : 0 < total) :
    ((v.level + v.share available total : ℕ) : ℚ) ≤ v.at (available / total) ∧
      v.at (available / total) ≤ (v.level + v.share available total : ℕ) + 1 := by
  have hpositive : (0 : ℚ) < total := by exact_mod_cast htotal
  have hexact : v.weight * (available / total : ℚ) = (available * v.weight : ℕ) / (total : ℚ) := by
    push_cast
    ring
  have hbelow : ((available * v.weight / total : ℕ) : ℚ) ≤ v.weight * (available / total : ℚ) := by
    rw [hexact, le_div_iff₀ hpositive]
    exact_mod_cast Nat.div_mul_le_self _ _
  have habove : v.weight * (available / total : ℚ) ≤ (available * v.weight / total : ℕ) + 1 := by
    rw [hexact, div_le_iff₀ hpositive]
    have hlt := (Nat.lt_mul_div_succ (available * v.weight) htotal).le
    rw [Nat.mul_comm total] at hlt
    exact_mod_cast hlt
  unfold Vessel.at Vessel.share
  by_cases hfull : v.level = v.capacity
  · rw [if_pos hfull, Nat.add_zero, hfull]
    rw [min_eq_left (by linarith)]
    exact ⟨le_refl _, by linarith⟩
  · rw [if_neg hfull]
    obtain hless | hmore := le_total (available * v.weight / total) (v.capacity - v.level)
    · have hroom : v.level + available * v.weight / total ≤ v.capacity := by omega
      have hroom' : (v.level : ℚ) + (available * v.weight / total : ℕ) ≤ v.capacity := by
        exact_mod_cast hroom
      rw [min_eq_left hless]
      push_cast
      exact ⟨le_min hroom' (by linarith), (min_le_right _ _).trans (by linarith)⟩
    · have hcap : v.level + (v.capacity - v.level) = v.capacity := by omega
      have hmore' : (v.capacity : ℚ) ≤ v.level + (available * v.weight / total : ℕ) := by
        exact_mod_cast (by omega : v.capacity ≤ v.level + available * v.weight / total)
      rw [min_eq_right hmore, hcap, min_eq_left (by linarith)]
      exact ⟨le_refl _, by linarith⟩

theorem drip_level (vessels : List Vessel) :
    List.Forall₂ (fun v v' : Vessel => v.level ≤ v'.level ∧ v'.level ≤ v.level + 1)
      vessels (drip remaining vessels).1 := by
  have hsame : ∀ vs : List Vessel,
      List.Forall₂ (fun v v' : Vessel => v.level ≤ v'.level ∧ v'.level ≤ v.level + 1) vs vs :=
    fun vs => List.forall₂_same.mpr fun v _ => ⟨le_refl _, Nat.le_succ _⟩
  induction vessels generalizing remaining with
  | nil =>
      rw [drip]
      exact .nil
  | cons v vs ih =>
      cases remaining with
      | zero => exact hsame _
      | succ remaining =>
          rw [drip]
          split_ifs with hroom
          · exact .cons ⟨Nat.le_succ _, le_refl _⟩ (ih remaining)
          · exact .cons ⟨le_refl _, Nat.le_succ _⟩ (ih (remaining + 1))

/-- One round raises the common level by what there is for a unit of weight. -/
theorem round_level (hs : Sound vessels) (hopen : openWeight vessels ≠ 0) :
    List.Forall₂ (fun v v' : Vessel => |(v'.level : ℚ) - v.at (remaining / openWeight vessels)| ≤ 1)
      vessels (round remaining vessels).1 := by
  have hshare : ∀ v ∈ vessels, _ := fun v hv =>
    share_level remaining v (hs v hv).2 (Nat.pos_of_ne_zero hopen)
  rw [round]
  split_ifs with hnone
  · -- All shares are less than a unit.
    have hzero : ∀ v ∈ vessels, v.share remaining (openWeight vessels) = 0 := fun v hv =>
      List.sum_eq_zero_iff_forall_eq_nat.mp hnone _
        (List.mem_map_of_mem (f := fun v => v.share remaining (openWeight vessels)) hv)
    rw [pour_of_poured_eq_zero hnone]
    refine ((List.forall₂_and_left _ _).mpr ⟨fun v hv => hv, drip_level remaining vessels⟩).imp ?_
    rintro v v' ⟨hv, hle, hge⟩
    obtain ⟨hbelow, habove⟩ := hshare v hv
    rw [hzero v hv, Nat.add_zero] at hbelow habove
    have hle : (v.level : ℚ) ≤ v'.level := by exact_mod_cast hle
    have hge : (v'.level : ℚ) ≤ v.level + 1 := by exact_mod_cast hge
    rw [abs_le]
    constructor <;> linarith
  · rw [pour, List.forall₂_map_right_iff]
    refine List.forall₂_same.mpr fun v hv => ?_
    obtain ⟨hbelow, habove⟩ := hshare v hv
    rw [abs_le]
    constructor <;> linarith

/-- A level that rises from where a vessel stands ends as far off as the vessel was. -/
theorem Vessel.at_add {v v' : Vessel} (hcapacity : v'.capacity = v.capacity)
    (hweight : v'.weight = v.weight) (first : ℚ) {more : ℚ} (hmore : 0 ≤ more) :
    |v'.at more - v.at (first + more)| ≤ |(v'.level : ℚ) - v.at first| := by
  have hraised : (0 : ℚ) ≤ v.weight * more := mul_nonneg (Nat.cast_nonneg _) hmore
  have hat : v.at (first + more) = min (v.capacity : ℚ) (v.at first + v.weight * more) := by
    unfold Vessel.at
    rw [mul_add, ← add_assoc, ← min_add_add_right, ← min_assoc,
      min_eq_left (le_add_of_nonneg_right hraised)]
  rw [hat]
  unfold Vessel.at
  rw [hcapacity, hweight]
  refine (abs_min_sub_min_le_max _ _ _ _).trans ?_
  rw [sub_self, abs_zero, add_sub_add_right_eq_sub]
  exact max_le (abs_nonneg _) (le_refl _)

/-- **The vessels stand at a common level**, as far as their capacities let them, up to one unit for
each round. -/
theorem exists_level (vessels : List Vessel) (hs : Sound vessels) :
    ∃ common : ℚ, 0 ≤ common ∧ List.Forall₂ (fun v v' : Vessel =>
      |(v'.level : ℚ) - v.at common| ≤ rounds remaining vessels)
      vessels (fill remaining vessels) := by
  induction remaining, vessels using fill.induct with
  | case1 remaining vessels h =>
      rw [fill, dif_pos h]
      refine ⟨0, le_refl 0, List.forall₂_same.mpr fun v hv => ?_⟩
      have hfits : (v.level : ℚ) ≤ v.capacity := by exact_mod_cast (hs v hv).2
      unfold Vessel.at
      rw [mul_zero, add_zero, min_eq_right hfits, sub_self, abs_zero]
      exact Nat.cast_nonneg _
  | case2 remaining vessels h ih =>
      have hopen := (not_or.mp h).2
      have hfilled := filled_round remaining vessels
      obtain ⟨more, hmore, hrest⟩ := ih (hfilled.sound hs).1
      refine ⟨remaining / openWeight vessels + more,
        add_nonneg (div_nonneg (Nat.cast_nonneg _) (Nat.cast_nonneg _)) hmore, ?_⟩
      rw [fill, dif_neg h, rounds, dif_neg h]
      have hround := round_level remaining hs hopen
      refine List.forall₂_iff_get.mpr ⟨hfilled.length_eq.trans hrest.length_eq, fun i hi hj => ?_⟩
      have hk : i < (round remaining vessels).1.length := hfilled.length_eq ▸ hi
      have hstep := (hfilled.get hi hk)
      have hfirst := hround.get hi hk
      have hlast := hrest.get hk hj
      have hcomposed := Vessel.at_add hstep.capacity hstep.weight
        (remaining / openWeight vessels) hmore
      push_cast
      have htriangle := abs_sub_le
        (((fill (round remaining vessels).2 (round remaining vessels).1).get ⟨i, hj⟩).level : ℚ)
        (((round remaining vessels).1.get ⟨i, hk⟩).at more)
        ((vessels.get ⟨i, hi⟩).at (remaining / openWeight vessels + more))
      linarith

end Waterfill
