/-
**Handlers that call themselves on the dependents they find.**

Unmapping a window unmaps its popups, mapping it maps them, and a presentation preference spreads
to them: a handler does its own work on the state, collects some dependents, and calls itself on
each in turn, every call meeting the state the previous one left.  The recursion is not on the
structure of anything, so it is cut after a number of levels.

Main definitions: `run`.

Main results:

* `run_invariant` — what one call of the body preserves, the whole recursion preserves;
* `run_rel` — how one call relates the states around it, so does the whole recursion.
-/

import Mathlib.Data.List.Basic
import Mathlib.Order.Nat

namespace Cascade

variable {σ α : Type*}

/-! ### Loops over a list -/

variable {s : σ} {P : σ → Prop}

theorem foldl_invariant {f : σ → α → σ} {l : List α} (h : ∀ s, ∀ x ∈ l, P s → P (f s x))
    (hs : P s) : P (l.foldl f s) := by
  induction l generalizing s with
  | nil => exact hs
  | cons x l ih =>
      refine ih (fun s y hy => h s y (List.mem_cons_of_mem x hy)) ?_
      exact h s x List.mem_cons_self hs

theorem foldl_rel {f : σ → α → σ} {R : σ → σ → Prop} (hrefl : ∀ s, R s s)
    (htrans : ∀ {a b c}, R a b → R b c → R a c) {l : List α}
    (h : ∀ s, ∀ x ∈ l, R s (f s x)) (s : σ) : R s (l.foldl f s) := by
  induction l generalizing s with
  | nil => exact hrefl s
  | cons x l ih =>
      have hx := h s x List.mem_cons_self
      exact htrans hx (ih (fun s y hy => h s y (List.mem_cons_of_mem x hy)) (f s x))

/-! ### The recursion -/

variable (body : σ → α → σ × List α)

/-- Call the handler on `x`, at most `n` levels deep. -/
def run : ℕ → σ → α → σ
  | 0, s, _ => s
  | n + 1, s, x => (body s x).2.foldl (run n) (body s x).1

@[simp] theorem run_zero (s : σ) (x : α) : run body 0 s x = s := rfl

theorem run_succ (n : ℕ) (s : σ) (x : α) :
    run body (n + 1) s x = (body s x).2.foldl (run body n) (body s x).1 := rfl

variable {body}

/-- **What one call preserves, the recursion preserves.**  `Q` is what the calls know of their
arguments. -/
theorem run_invariant_of {Q : α → Prop}
    (h : ∀ s x, P s → Q x → P (body s x).1 ∧ ∀ y ∈ (body s x).2, Q y) (n : ℕ) {x : α} (hs : P s)
    (hx : Q x) : P (run body n s x) := by
  induction n generalizing s x with
  | zero => exact hs
  | succ n ih =>
      obtain ⟨hbody, hdeps⟩ := h s x hs hx
      exact foldl_invariant (fun s y hy hs => ih hs (hdeps y hy)) hbody

theorem run_invariant (h : ∀ s x, P s → P (body s x).1) (n : ℕ) (x : α) (hs : P s) :
    P (run body n s x) :=
  run_invariant_of (Q := fun _ => True)
    (fun s x hs _ => ⟨h s x hs, fun _ _ => trivial⟩) n hs trivial

/-- **How one call relates the states around it, so does the recursion.** -/
theorem run_rel {R : σ → σ → Prop} (hrefl : ∀ s, R s s)
    (htrans : ∀ {a b c}, R a b → R b c → R a c) (h : ∀ s x, R s (body s x).1)
    (n : ℕ) (s : σ) (x : α) : R s (run body n s x) := by
  induction n generalizing s x with
  | zero => exact hrefl s
  | succ n ih => exact htrans (h s x) (foldl_rel hrefl htrans (fun s y _ => ih s y) _)

/-! ### Enough levels -/

section Measure

variable {μ : σ → ℕ} {P : σ → Prop} (hP : ∀ s x, P s → P (body s x).1)
  (hle : ∀ s x, P s → μ (body s x).1 ≤ μ s)
  (hlt : ∀ s x, P s → (body s x).2 ≠ [] → μ (body s x).1 < μ s)

include hP hle

include hlt

end Measure

end Cascade
