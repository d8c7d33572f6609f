/-
**A confined pointer never leaves its region and never jumps across a gap.**

A segment is cut down to a parameter interval for each rectangle.  Sorted by their entries, the intervals
chain up from the start for as far as they touch.  Every parameter of the chain lies in one of the
intervals, and a chain that stops short leaves a parameter just behind it that no interval covers.  The
code backs off from where the chain ends and keeps the start if that lands outside, so the path taken is
always a part of the chain.

Main definitions: `clipSegment`, `confine`.

Main results:

* `chain_covers`, `le_chain` — the chain is covered, and it is as
  long as the intervals allow;
* `confinement_keeps_to_the_region` — **the pointer stays in the region**, its path
  in the closed rectangles, and motion inside the region is not cut.
-/

import Mathlib.Algebra.Order.Field.Basic
import Mathlib.Algebra.Order.Group.MinMax
import Mathlib.Tactic.Linarith
import Mathlib.Tactic.Ring

namespace PointerConfinement

/-! ### Chains of intervals -/

/-- The parameter lies between the entry and the exit. -/
def Within (interval : ℚ × ℚ) (t : ℚ) : Prop := interval.1 ≤ t ∧ t ≤ interval.2

/-- How far the intervals reach, taken in turn, until one begins past what is reached. -/
def chain : ℚ → List (ℚ × ℚ) → ℚ
  | reachable, [] => reachable
  | reachable, (entry, exit) :: rest =>
      if entry > reachable then reachable else chain (max reachable exit) rest

theorem chain_covers (intervals : List (ℚ × ℚ)) {reachable t : ℚ} (hlt : reachable < t)
    (hle : t ≤ chain reachable intervals) : ∃ interval ∈ intervals, Within interval t := by
  induction intervals generalizing reachable with
  | nil => exact absurd hle (not_le.mpr hlt)
  | cons interval rest ih =>
      rw [chain] at hle
      split at hle
      · exact absurd hle (not_le.mpr hlt)
      · next hentry =>
          rcases le_or_gt t interval.2 with hexit | hexit
          · exact ⟨interval, List.mem_cons_self, (not_lt.mp hentry).trans hlt.le, hexit⟩
          · obtain ⟨other, hmem, hother⟩ := ih (max_lt hlt hexit) hle
            exact ⟨other, List.mem_cons_of_mem _ hmem, hother⟩

/-- A chain that stops short leaves parameters behind it that nothing covers. -/
theorem le_chain (intervals : List (ℚ × ℚ)) (hsorted : intervals.Pairwise fun a b => a.1 ≤ b.1)
    {reachable : ℚ} (hcover : ∀ t, reachable < t → t ≤ 1 → ∃ interval ∈ intervals, Within interval t) :
    1 ≤ chain reachable intervals := by
  induction intervals generalizing reachable with
  | nil =>
      by_contra hshort
      obtain ⟨_, hmem, _⟩ := hcover 1 (not_le.mp hshort) le_rfl
      cases hmem
  | cons interval rest ih =>
      obtain ⟨hfirst, hrest⟩ := List.pairwise_cons.mp hsorted
      rw [chain]
      split
      · next hentry =>
          by_contra hshort
          -- halfway to the next entry, or at the end when that is nearer
          obtain ⟨t, ht, htop⟩ := exists_between (lt_min (not_le.mp hshort) hentry)
          obtain ⟨other, hmem, hother, -⟩ := hcover t ht (htop.le.trans (min_le_left _ _))
          have hbegin : interval.1 ≤ other.1 := by
            rcases List.mem_cons.mp hmem with rfl | hmem
            · exact le_rfl
            · exact hfirst _ hmem
          exact absurd (hbegin.trans hother) (not_le.mpr (htop.trans_le (min_le_right _ _)))
      · refine ih hrest fun t ht htop => ?_
        obtain ⟨hreach, hexit⟩ := max_lt_iff.mp ht
        obtain ⟨other, hmem, hother⟩ := hcover t hreach htop
        rcases List.mem_cons.mp hmem with rfl | hmem
        · exact absurd hother.2 (not_le.mpr hexit)
        · exact ⟨other, hmem, hother⟩

/-! ### Confinement -/

structure InputPosition where
  x : ℚ
  y : ℚ
  deriving DecidableEq

structure Rectangle where
  x : ℤ
  y : ℤ
  w : ℕ
  h : ℕ

/-- What an unstable sort by entries promises. -/
structure UnstableSort where
  sort : List (ℚ × ℚ) → List (ℚ × ℚ)
  perm : ∀ intervals, (sort intervals).Perm intervals
  sorted : ∀ intervals, (sort intervals).Pairwise fun a b => a.1 ≤ b.1

def UnstableSort.merge : UnstableSort where
  sort intervals := intervals.mergeSort fun a b => a.1 ≤ b.1
  perm intervals := List.mergeSort_perm intervals _
  sorted intervals := by
    refine (List.pairwise_mergeSort (fun a b c => ?_) (fun a b => ?_) intervals).imp of_decide_eq_true
    · simpa using le_trans
    · simpa using le_total a.1 b.1

def contains (region : List Rectangle) (position : InputPosition) : Bool :=
  region.any fun rect => position.x ≥ rect.x ∧ position.y ≥ rect.y ∧
    position.x < rect.x + rect.w ∧ position.y < rect.y + rect.h

/-- One axis of a rectangle cuts the interval down. -/
def clipAxis (origin delta low size : ℚ) (interval : ℚ × ℚ) : ℚ × ℚ :=
  if delta = 0 then
    if origin < low ∨ origin ≥ low + size then (interval.1, -1) else interval
  else
    let first := (low - origin) / delta
    let second := (low + size - origin) / delta
    (max interval.1 (min first second), min interval.2 (max first second))

def clipInterval (start stop : InputPosition) (rect : Rectangle) : ℚ × ℚ :=
  clipAxis start.y (stop.y - start.y) rect.y rect.h
    (clipAxis start.x (stop.x - start.x) rect.x rect.w (0, 1))

/-- The point of the segment at a parameter. -/
def along (start stop : InputPosition) (t : ℚ) : InputPosition :=
  ⟨start.x + (stop.x - start.x) * t, start.y + (stop.y - start.y) * t⟩

variable (byEntry : UnstableSort)

def reach (start stop : InputPosition) (region : List Rectangle) : ℚ :=
  chain 0 (byEntry.sort ((region.map (clipInterval start stop)).filter fun i => i.1 ≤ i.2))

def clipSegment (start stop : InputPosition) (region : List Rectangle) : InputPosition :=
  if ¬contains region start then start
  else
    let reachable := reach byEntry start stop region
    if reachable ≥ 1 ∧ contains region stop then stop
    else
      let distance := max |stop.x - start.x| |stop.y - start.y|
      if distance = 0 then start
      else
        let fraction := max (min (max reachable 0) 1 - 1 / 256 / distance) 0
        let result := along start stop fraction
        if contains region result then result else start

def confine (start stop : InputPosition) (region : List Rectangle) : InputPosition :=
  let stopped := clipSegment byEntry start stop region
  let horizontal := clipSegment byEntry stopped ⟨stop.x, stopped.y⟩ region
  clipSegment byEntry horizontal ⟨horizontal.x, stop.y⟩ region

/-! ### What an interval stands for -/

/-- The point lies in one of the rectangles or on its border. -/
def InClosed (region : List Rectangle) (p : InputPosition) : Prop :=
  ∃ rect ∈ region, (rect.x ≤ p.x ∧ p.x ≤ rect.x + rect.w) ∧ (rect.y ≤ p.y ∧ p.y ≤ rect.y + rect.h)

variable {byEntry} {start stop : InputPosition} {region : List Rectangle}

theorem contains_iff {p : InputPosition} : contains region p = true ↔
    ∃ rect ∈ region, (rect.x ≤ p.x ∧ p.x < rect.x + rect.w) ∧ (rect.y ≤ p.y ∧ p.y < rect.y + rect.h) := by
  simp only [contains, List.any_eq_true, decide_eq_true_eq]
  refine exists_congr fun rect => and_congr_right fun _ => ?_
  constructor
  · rintro ⟨hx, hy, hx', hy'⟩
    exact ⟨⟨hx, hx'⟩, hy, hy'⟩
  · rintro ⟨⟨hx, hx'⟩, hy, hy'⟩
    exact ⟨hx, hy, hx', hy'⟩

theorem inClosed_of_contains {p : InputPosition} (h : contains region p = true) : InClosed region p := by
  obtain ⟨rect, hmem, ⟨hx, hx'⟩, hy, hy'⟩ := contains_iff.mp h
  exact ⟨rect, hmem, ⟨hx, hx'.le⟩, hy, hy'.le⟩

variable {origin delta low t : ℚ} {size : ℕ} {interval : ℚ × ℚ}

/-- On an axis that moves, a rectangle's two edges bound the parameter. -/
theorem within_edges (hdelta : delta ≠ 0) :
    Within (min ((low - origin) / delta) ((low + size - origin) / delta),
        max ((low - origin) / delta) ((low + size - origin) / delta)) t ↔
      low ≤ origin + delta * t ∧ origin + delta * t ≤ low + size := by
  rcases lt_or_gt_of_ne hdelta with hneg | hpos
  · have horder : (low + size - origin) / delta ≤ (low - origin) / delta :=
      div_le_div_of_nonpos_of_le hneg.le (by linarith)
    rw [Within, min_eq_right horder, max_eq_left horder, div_le_iff_of_neg hneg, le_div_iff_of_neg hneg]
    constructor <;> rintro ⟨h, h'⟩ <;> constructor <;> linarith
  · have horder : (low - origin) / delta ≤ (low + size - origin) / delta :=
      div_le_div_of_nonneg_right (by linarith) hpos.le
    rw [Within, min_eq_left horder, max_eq_right horder, div_le_iff₀ hpos, le_div_iff₀ hpos]
    constructor <;> rintro ⟨h, h'⟩ <;> constructor <;> linarith

theorem within_of_clipAxis (ht : 0 ≤ t) (h : Within (clipAxis origin delta low size interval) t) :
    Within interval t ∧ low ≤ origin + delta * t ∧ origin + delta * t ≤ low + size := by
  unfold clipAxis at h
  split at h
  · next hzero =>
      split at h
      · -- the exit lies before the start
        exact absurd (ht.trans h.2) (by norm_num)
      · next hinside =>
          obtain ⟨hlow, hhigh⟩ := not_or.mp hinside
          refine ⟨h, ?_⟩
          rw [hzero, zero_mul, add_zero]
          exact ⟨not_lt.mp hlow, (not_le.mp hhigh).le⟩
  · next hdelta =>
      obtain ⟨hentry, hexit⟩ := h
      have hedges := (within_edges hdelta).mp
        ⟨(le_max_right _ _).trans hentry, hexit.trans (min_le_right _ _)⟩
      exact ⟨⟨(le_max_left _ _).trans hentry, hexit.trans (min_le_left _ _)⟩, hedges⟩

theorem within_clipAxis (h : Within interval t) (hlow : low ≤ origin + delta * t)
    (hhigh : origin + delta * t < low + size) : Within (clipAxis origin delta low size interval) t := by
  unfold clipAxis
  split
  · next hzero =>
      rw [hzero, zero_mul, add_zero] at hlow hhigh
      rw [if_neg (not_or.mpr ⟨not_lt.mpr hlow, not_le.mpr hhigh⟩)]
      exact h
  · next hdelta =>
      obtain ⟨hentry, hexit⟩ := (within_edges hdelta).mpr ⟨hlow, hhigh.le⟩
      exact ⟨max_le h.1 hentry, le_min h.2 hexit⟩

/-! ### How far the chain reaches -/

theorem mem_intervals : interval ∈
      byEntry.sort ((region.map (clipInterval start stop)).filter fun i => i.1 ≤ i.2) ↔
    (∃ rect ∈ region, clipInterval start stop rect = interval) ∧ interval.1 ≤ interval.2 := by
  rw [(byEntry.perm _).mem_iff]
  simp

theorem inClosed_along (hstart : contains region start = true) (ht : 0 ≤ t)
    (hreach : t ≤ reach byEntry start stop region) : InClosed region (along start stop t) := by
  rcases ht.eq_or_lt with rfl | hpos
  · simpa [along] using inClosed_of_contains hstart
  · obtain ⟨interval, hmem, hwithin⟩ := chain_covers _ hpos hreach
    obtain ⟨⟨rect, hrect, rfl⟩, -⟩ := mem_intervals.mp hmem
    obtain ⟨hwithin, hy⟩ := within_of_clipAxis ht hwithin
    obtain ⟨-, hx⟩ := within_of_clipAxis ht hwithin
    exact ⟨rect, hrect, hx, hy⟩

theorem one_le_reach (hinside : ∀ t, 0 ≤ t → t ≤ 1 → contains region (along start stop t) = true) :
    1 ≤ reach byEntry start stop region := by
  refine le_chain _ (byEntry.sorted _) fun t ht htop => ?_
  obtain ⟨rect, hrect, ⟨hx, hx'⟩, hy, hy'⟩ := contains_iff.mp (hinside t ht.le htop)
  have hwithin : Within (clipInterval start stop rect) t :=
    within_clipAxis (within_clipAxis ⟨ht.le, htop⟩ hx hx') hy hy'
  exact ⟨_, mem_intervals.mpr ⟨⟨rect, hrect, rfl⟩, hwithin.1.trans hwithin.2⟩, hwithin⟩

/-! ### The clipped segment -/

theorem clipSegment_outside (hstart : contains region start = false) :
    clipSegment byEntry start stop region = start := by
  simp [clipSegment, hstart]

variable (byEntry stop) in
/-- Motion goes some way along the segment, no farther than the chain. -/
theorem clipSegment_spec (hstart : contains region start = true) :
    contains region (clipSegment byEntry start stop region) = true ∧
      ∃ u, 0 ≤ u ∧ u ≤ max (reach byEntry start stop region) 0 ∧
        clipSegment byEntry start stop region = along start stop u := by
  have hstay : ∃ u, 0 ≤ u ∧ u ≤ max (reach byEntry start stop region) 0 ∧ start = along start stop u :=
    ⟨0, le_rfl, le_max_right _ _, by simp [along]⟩
  unfold clipSegment
  rw [if_neg (not_not.mpr hstart)]
  dsimp only
  split
  · next hreached =>
      exact ⟨hreached.2, 1, zero_le_one, le_max_of_le_left hreached.1, by simp [along]⟩
  · split
    · exact ⟨hstart, hstay⟩
    · split
      · next hresult =>
          refine ⟨hresult, _, le_max_right _ _, max_le ?_ (le_max_right _ _), rfl⟩
          refine (sub_le_self _ (div_nonneg (by norm_num) ?_)).trans (min_le_left _ _)
          exact le_max_of_le_left (abs_nonneg _)
      · exact ⟨hstart, hstay⟩

theorem inClosed_leg (hstart : contains region start = true) (ht : 0 ≤ t) (htop : t ≤ 1) :
    InClosed region (along start (clipSegment byEntry start stop region) t) := by
  obtain ⟨-, u, hu, hreach, heq⟩ := clipSegment_spec byEntry stop hstart
  have hmul : along start (along start stop u) t = along start stop (u * t) := by
    simp only [along, InputPosition.mk.injEq]
    constructor <;> ring
  rw [heq, hmul]
  rcases le_max_iff.mp hreach with hreach | hzero
  · exact inClosed_along hstart (mul_nonneg hu ht) ((mul_le_of_le_one_right hu htop).trans hreach)
  · rw [le_antisymm hzero hu, zero_mul]
    simpa [along] using inClosed_of_contains hstart

theorem clipSegment_inside (hinside : ∀ t, 0 ≤ t → t ≤ 1 → contains region (along start stop t) = true) :
    clipSegment byEntry start stop region = stop := by
  have hstart : contains region start = true := by simpa [along] using hinside 0 le_rfl zero_le_one
  have hstop : contains region stop = true := by simpa [along] using hinside 1 zero_le_one le_rfl
  unfold clipSegment
  rw [if_neg (not_not.mpr hstart), if_pos ⟨one_le_reach hinside, hstop⟩]

/-- A pointer that starts in the region ends in it, after three straight legs that lie in the closed
rectangles.  Motion whose whole segment is in the region ends where it was meant to.  A pointer outside
the region does not move. -/
theorem confinement_keeps_to_the_region (byEntry : UnstableSort) (region : List Rectangle)
    (start stop : InputPosition) :
    let stopped := clipSegment byEntry start stop region
    let horizontal := clipSegment byEntry stopped ⟨stop.x, stopped.y⟩ region
    let result := confine byEntry start stop region
    (contains region start = true → contains region result = true ∧ ∀ t, 0 ≤ t → t ≤ 1 →
      InClosed region (along start stopped t) ∧ InClosed region (along stopped horizontal t) ∧
        InClosed region (along horizontal result t)) ∧
    ((∀ t, 0 ≤ t → t ≤ 1 → contains region (along start stop t) = true) → result = stop) ∧
    (contains region start = false → result = start) := by
  refine ⟨fun hstart => ?_, fun hinside => ?_, fun houtside => ?_⟩
  · have hstopped := (clipSegment_spec byEntry stop hstart).1
    have hhorizontal := (clipSegment_spec byEntry ⟨stop.x, (clipSegment byEntry start stop region).y⟩ hstopped).1
    exact ⟨(clipSegment_spec _ _ hhorizontal).1, fun t ht htop =>
      ⟨inClosed_leg hstart ht htop, inClosed_leg hstopped ht htop, inClosed_leg hhorizontal ht htop⟩⟩
  · have hstop : contains region stop = true := by simpa [along] using hinside 1 zero_le_one le_rfl
    have hstill : clipSegment byEntry stop stop region = stop :=
      clipSegment_inside fun t _ _ => by simpa [along] using hstop
    simp only [confine, clipSegment_inside hinside]
    rw [show (⟨stop.x, stop.y⟩ : InputPosition) = stop from rfl, hstill]
    exact hstill
  · simp only [confine, clipSegment_outside houtside]

end PointerConfinement
