/-
**Bounded walks.**

Whoever follows references that an untrusted party wrote down bounds the walk: references may form a
cycle.  A walk follows `next` until `stop` holds, for a limited number of steps.

Main definitions: `walk`, `Path`.

Main results:

* `walk_eq_some_iff` — a walk finds the end of every short path;
* `walk_elsewhere` — walks that do not meet an element do not depend on it.
-/

import Mathlib.Data.Nat.Basic
import Mathlib.Data.Option.Basic

namespace BoundedWalk

variable {α : Type*} (stop : α → Bool) (next : α → Option α)

/-- Follow `next` to the first element at which `stop` holds, looking at `n` elements at most. -/
def walk : ℕ → α → Option α
  | 0, _ => none
  | n + 1, a => if stop a then some a else (next a).bind (walk n)

/-- A path of `n` steps whose end is the first element at which `stop` holds. -/
inductive Path : ℕ → α → α → Prop
  | here {a : α} (h : stop a = true) : Path 0 a a
  | step {n : ℕ} {a b c : α} (ha : stop a = false) (hnext : next a = some b) (h : Path n b c) :
      Path (n + 1) a c

variable {stop next} {n m : ℕ} {a c : α}

/-- **A walk finds the end of every short path.** -/
theorem walk_eq_some_iff : walk stop next n a = some c ↔ ∃ k < n, Path stop next k a c := by
  induction n generalizing a with
  | zero => simp [walk]
  | succ n ih =>
      rw [walk]
      constructor
      · intro h
        split_ifs at h with hstop
        · cases h
          exact ⟨0, Nat.succ_pos n, Path.here hstop⟩
        · obtain ⟨b, hb, hwalk⟩ := Option.bind_eq_some_iff.mp h
          obtain ⟨k, hk, hpath⟩ := ih.mp hwalk
          exact ⟨k + 1, Nat.succ_lt_succ hk, Path.step (by simpa using hstop) hb hpath⟩
      · rintro ⟨k, hk, hpath⟩
        cases hpath with
        | here hstop => rw [if_pos hstop]
        | @step k _ b _ hstop hnext hrest =>
            rw [if_neg (by simp [hstop]), hnext]
            exact ih.mpr ⟨k, Nat.lt_of_succ_lt_succ hk, hrest⟩

theorem walk_mono (h : walk stop next n a = some c) (hnm : n ≤ m) :
    walk stop next m a = some c := by
  obtain ⟨k, hk, hpath⟩ := walk_eq_some_iff.mp h
  exact walk_eq_some_iff.mpr ⟨k, Nat.lt_of_lt_of_le hk hnm, hpath⟩

theorem Path.stops (h : Path stop next n a c) : stop c = true := by
  induction h with
  | here hstop => exact hstop
  | step _ _ _ ih => exact ih

theorem walk_stops (h : walk stop next n a = some c) : stop c = true := by
  obtain ⟨k, -, hpath⟩ := walk_eq_some_iff.mp h
  exact hpath.stops

theorem walk_of_stop (h : stop a = true) : walk stop next (n + 1) a = some a := by
  rw [walk, if_pos h]

theorem walk_of_stuck (h : stop a = false) (hnext : next a = none) : walk stop next n a = none := by
  cases n with
  | zero => rfl
  | succ n => rw [walk, if_neg (by simp [h]), hnext, Option.bind_none]

/-- **Walks that do not meet an element do not depend on it.** -/
theorem walk_elsewhere {stop' : α → Bool} {next' : α → Option α} {x : α}
    (hstop : ∀ y, y ≠ x → stop' y = stop y) (hnext : ∀ y, y ≠ x → next' y = next y)
    (hx : walk stop next n x ≠ some c) (h : walk stop next n a = some c) :
    walk stop' next' n a = some c := by
  induction n generalizing a with
  | zero => cases h
  | succ n ih =>
      have hne : a ≠ x := by
        rintro rfl
        exact hx h
      rw [walk] at h ⊢
      rw [hstop a hne, hnext a hne]
      split_ifs at h ⊢ with hend
      · exact h
      · obtain ⟨b, hb, hwalk⟩ := Option.bind_eq_some_iff.mp h
        rw [hb]
        exact ih (fun hshort => hx (walk_mono hshort (Nat.le_succ n))) hwalk

end BoundedWalk
