/-
**Filling vessels of limited capacity.**

A quantity is shared out in proportion to weights among vessels that hold no more than their
capacity.  What a full vessel cannot take is shared among the others, and what integer division
leaves over is handed out one unit at a time, in order.

Main definitions: `Vessel`, `pour`, `drip`, `fill`.

Main results:

* `round_lt` — **every round leaves less to share out**, so filling ends;
* `filled_fill` — no level falls, and none rises above its capacity;
* `level_fill` — no more is shared out than there was.
-/

import Mathlib.Algebra.BigOperators.Group.List.Basic
import Mathlib.Algebra.GroupWithZero.Nat
import Mathlib.Order.Nat

namespace Waterfill

structure Vessel where
  level : ℕ
  capacity : ℕ
  weight : ℕ
  deriving DecidableEq, Repr

/-- What the vessels hold together. -/
def level (vessels : List Vessel) : ℕ := (vessels.map (·.level)).sum

/-- The weight of the vessels that are not full. -/
def openWeight (vessels : List Vessel) : ℕ :=
  ((vessels.filter fun v => decide (v.level < v.capacity)).map (·.weight)).sum

/-! ### One round -/

/-- The share of a vessel in what is available, as far as it has room. -/
def Vessel.share (available total : ℕ) (v : Vessel) : ℕ :=
  if v.level = v.capacity then 0
  else min (available * v.weight / total) (v.capacity - v.level)

def pour (available total : ℕ) (vessels : List Vessel) : List Vessel :=
  vessels.map fun v => { v with level := v.level + v.share available total }

/-- What a round of shares takes. -/
def poured (available total : ℕ) (vessels : List Vessel) : ℕ :=
  (vessels.map (·.share available total)).sum

/-- One unit for every vessel that has room, in order, and what is left then. -/
def drip : ℕ → List Vessel → List Vessel × ℕ
  | remaining, [] => ([], remaining)
  | 0, v :: vs => (v :: vs, 0)
  | remaining + 1, v :: vs =>
      if v.level < v.capacity then
        let rest := drip remaining vs
        ({ v with level := v.level + 1 } :: rest.1, rest.2)
      else
        let rest := drip (remaining + 1) vs
        (v :: rest.1, rest.2)

variable (remaining : ℕ)

theorem drip_le (vessels : List Vessel) : (drip remaining vessels).2 ≤ remaining := by
  induction vessels generalizing remaining with
  | nil => exact le_rfl
  | cons v vs ih =>
      cases remaining with
      | zero => exact le_rfl
      | succ remaining =>
          rw [drip]
          split_ifs
          · exact (ih remaining).trans (Nat.le_succ _)
          · exact ih (remaining + 1)

variable {vessels : List Vessel}

/-- A round of single units takes something, if any vessel has room. -/
theorem drip_lt {remaining : ℕ} (hremaining : remaining ≠ 0)
    (h : openWeight vessels ≠ 0) : (drip remaining vessels).2 < remaining := by
  induction vessels with
  | nil => exact absurd rfl h
  | cons v vs ih =>
      obtain ⟨remaining, rfl⟩ := Nat.exists_eq_succ_of_ne_zero hremaining
      rw [drip]
      split_ifs with hroom
      · exact Nat.lt_succ_of_le (drip_le remaining vs)
      · refine ih ?_
        simpa [openWeight, hroom] using h

/-- Shares that add up to nothing change nothing. -/
theorem pour_of_poured_eq_zero {available total : ℕ}
    (h : poured available total vessels = 0) : pour available total vessels = vessels := by
  rw [poured, List.sum_eq_zero_iff_forall_eq_nat] at h
  have hzero : ∀ v ∈ vessels, v.share available total = 0 := fun v hv =>
    h _ (List.mem_map_of_mem hv)
  rw [pour]
  conv_rhs => rw [← List.map_id vessels]
  refine List.map_congr_left fun v hv => ?_
  rw [hzero v hv]
  rfl

/-- One round of shares; of single units, if the shares all round down to nothing. -/
def round (remaining : ℕ) (vessels : List Vessel) : List Vessel × ℕ :=
  if poured remaining (openWeight vessels) vessels = 0 then
    drip remaining (pour remaining (openWeight vessels) vessels)
  else
    (pour remaining (openWeight vessels) vessels,
      remaining - poured remaining (openWeight vessels) vessels)

/-- **Every round leaves less to share out**, as long as a vessel has room. -/
theorem round_lt {remaining : ℕ} (hremaining : remaining ≠ 0)
    (hopen : openWeight vessels ≠ 0) : (round remaining vessels).2 < remaining := by
  rw [round]
  split_ifs with h
  · rw [pour_of_poured_eq_zero h]
    exact drip_lt hremaining hopen
  · exact Nat.sub_lt (Nat.pos_of_ne_zero hremaining) (Nat.pos_of_ne_zero h)

/-! ### All rounds -/

/-- Share out what remains, round by round. -/
def fill (remaining : ℕ) (vessels : List Vessel) : List Vessel :=
  if _h : remaining = 0 ∨ openWeight vessels = 0 then vessels
  else fill (round remaining vessels).2 (round remaining vessels).1
termination_by remaining
decreasing_by exact round_lt (not_or.mp _h).1 (not_or.mp _h).2

example : (fill 10 [⟨0, 4, 1⟩, ⟨0, 9, 3⟩]).map (·.level) = [3, 7] := by decide +kernel

/-! ### What filling does -/

/-- The same vessels with levels that have not fallen and are within capacity. -/
structure Vessel.Filled (v v' : Vessel) : Prop where
  capacity : v'.capacity = v.capacity
  weight : v'.weight = v.weight
  rises : v.level ≤ v'.level
  fits : v.level ≤ v.capacity → v'.level ≤ v.capacity

theorem Vessel.Filled.refl (v : Vessel) : v.Filled v := ⟨rfl, rfl, le_rfl, id⟩

theorem Vessel.Filled.trans {u v w : Vessel} (h : u.Filled v) (h' : v.Filled w) : u.Filled w :=
  ⟨h'.capacity.trans h.capacity, h'.weight.trans h.weight, h.rises.trans h'.rises, fun hfits =>
    (h'.fits ((h.fits hfits).trans_eq h.capacity.symm)).trans_eq h.capacity⟩

/-- Vessel by vessel. -/
abbrev Filled : List Vessel → List Vessel → Prop := List.Forall₂ Vessel.Filled

theorem Filled.refl (vessels : List Vessel) : Filled vessels vessels :=
  List.forall₂_same.mpr fun v _ => .refl v

theorem Filled.trans {us vs ws : List Vessel} (h : Filled us vs) (h' : Filled vs ws) :
    Filled us ws := by
  induction h generalizing ws with
  | nil =>
      cases h'
      exact .nil
  | cons huv _ ih =>
      cases h' with
      | cons hvw hrest => exact .cons (huv.trans hvw) (ih hrest)

theorem filled_pour (available total : ℕ) (vessels : List Vessel) :
    Filled vessels (pour available total vessels) := by
  rw [pour, Filled, List.forall₂_map_right_iff]
  refine List.forall₂_same.mpr fun v _ => ⟨rfl, rfl, Nat.le_add_right _ _, fun hfits => ?_⟩
  simp only [Vessel.share]
  split_ifs with hfull
  · exact hfits
  · omega

theorem filled_drip (vessels : List Vessel) : Filled vessels (drip remaining vessels).1 := by
  induction vessels generalizing remaining with
  | nil =>
      rw [drip]
      exact .nil
  | cons v vs ih =>
      cases remaining with
      | zero => exact .refl _
      | succ remaining =>
          rw [drip]
          split_ifs with hroom
          · exact .cons ⟨rfl, rfl, Nat.le_succ _, fun _ => hroom⟩ (ih remaining)
          · exact .cons (.refl v) (ih (remaining + 1))

theorem filled_round (vessels : List Vessel) : Filled vessels (round remaining vessels).1 := by
  rw [round]
  split_ifs
  · exact (filled_pour _ _ _).trans (filled_drip _ _)
  · exact filled_pour _ _ _

/-- **No level falls, and none rises above its capacity.** -/
theorem filled_fill (vessels : List Vessel) : Filled vessels (fill remaining vessels) := by
  induction remaining, vessels using fill.induct with
  | case1 remaining vessels h =>
      rw [fill, dif_pos h]
      exact .refl _
  | case2 remaining vessels h ih =>
      rw [fill, dif_neg h]
      exact (filled_round remaining vessels).trans ih

/-! ### How much is shared out -/

theorem level_pour (available total : ℕ) (vessels : List Vessel) :
    level (pour available total vessels) = level vessels + poured available total vessels := by
  induction vessels with
  | nil => rfl
  | cons v vs ih =>
      simp only [level, pour, poured, List.map_cons, List.sum_cons] at ih ⊢
      omega

theorem level_drip (vessels : List Vessel) :
    level (drip remaining vessels).1 + (drip remaining vessels).2 = level vessels + remaining := by
  induction vessels generalizing remaining with
  | nil => rfl
  | cons v vs ih =>
      cases remaining with
      | zero => rfl
      | succ remaining =>
          rw [drip]
          split_ifs
          · have hrest := ih remaining
            simp only [level, List.map_cons, List.sum_cons] at hrest ⊢
            omega
          · have hrest := ih (remaining + 1)
            simp only [level, List.map_cons, List.sum_cons] at hrest ⊢
            omega

/-- The shares, each rounded down, do not exceed what is available. -/
theorem poured_le (available : ℕ) (hopen : openWeight vessels ≠ 0) :
    poured available (openWeight vessels) vessels ≤ available := by
  have hparts : ∀ (total : ℕ) (vs : List Vessel),
      total * poured available total vs ≤ available * openWeight vs := by
    intro total vs
    induction vs with
    | nil => simp [poured, openWeight]
    | cons v vs ih =>
        have hshare : total * v.share available total ≤ available * v.weight := by
          rw [Vessel.share]
          split_ifs
          · exact Nat.zero_le _
          · exact (Nat.mul_le_mul_left _ (min_le_left _ _)).trans (Nat.mul_div_le _ _)
        have hpoured : poured available total (v :: vs) =
            v.share available total + poured available total vs := by
          simp [poured]
        rw [hpoured, Nat.mul_add]
        by_cases hroom : v.level < v.capacity
        · have hweight : openWeight (v :: vs) = v.weight + openWeight vs := by
            simp [openWeight, hroom]
          rw [hweight, Nat.mul_add]
          exact Nat.add_le_add hshare ih
        · have hweight : openWeight (v :: vs) = openWeight vs := by
            simp [openWeight, hroom]
          have hzero : v.share available total = 0 := by
            rw [Vessel.share, Nat.sub_eq_zero_of_le (Nat.le_of_not_lt hroom), Nat.min_zero, ite_self]
          rw [hweight, hzero, Nat.mul_zero, Nat.zero_add]
          exact ih
  refine Nat.le_of_mul_le_mul_left ?_ (Nat.pos_of_ne_zero hopen)
  calc openWeight vessels * poured available (openWeight vessels) vessels
      ≤ available * openWeight vessels := hparts (openWeight vessels) vessels
    _ = openWeight vessels * available := Nat.mul_comm _ _

theorem level_round (hopen : openWeight vessels ≠ 0) :
    level (round remaining vessels).1 + (round remaining vessels).2 =
      level vessels + remaining := by
  have hpoured := poured_le remaining hopen
  have hlevel := level_pour remaining (openWeight vessels) vessels
  rw [round]
  split_ifs with h
  · rw [level_drip, hlevel, h, Nat.add_zero]
  · simp only
    omega

/-- **No more is shared out than there was.** -/
theorem level_fill (vessels : List Vessel) :
    level (fill remaining vessels) ≤ level vessels + remaining := by
  induction remaining, vessels using fill.induct with
  | case1 remaining vessels h =>
      rw [fill, dif_pos h]
      exact Nat.le_add_right _ _
  | case2 remaining vessels h ih =>
      rw [fill, dif_neg h]
      rw [level_round remaining (not_or.mp h).2] at ih
      exact ih

end Waterfill
