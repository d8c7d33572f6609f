/-
**Fair service by virtual finish times.**

A server divides its work among clients.  Serving a client costs that client a fixed amount, its
debt grows by the cost, and the server always serves a client whose debt plus cost is least.  What
all clients owe in common may be forgiven at any time: only differences of debts matter.

Main definitions: `Serves`, `Services`.

Main results:

* `Services.paid` — a debt is what was owed before, plus what was served, less what was
  forgiven;
* `Services.shares` — **the shares are fair**: what two clients have paid differs by no
  more than one service of each and what they owed at the start, however long the run is.
-/

import Mathlib.Data.List.Count
import Mathlib.Data.Set.Basic

namespace FairService

variable {G : Type*} [DecidableEq G] (cost : G → ℕ) (members : Set G)

/-- Serving `g`: no client would finish earlier, `g` pays its cost, and `floor` is forgiven to
everybody. -/
structure Serves (debt debt' : G → ℕ) (g : G) (floor : ℕ) : Prop where
  member : g ∈ members
  least : ∀ h ∈ members, debt g + cost g ≤ debt h + cost h
  paid : debt' g + floor = debt g + cost g
  kept : ∀ h ∈ members, h ≠ g → debt' h + floor = debt h

/-- The debts a list of services leads to, and how much has been forgiven on the way. -/
inductive Services : (G → ℕ) → List G → ℕ → (G → ℕ) → Prop
  | nil (debt : G → ℕ) : Services debt [] 0 debt
  | concat {debt debt' debt'' : G → ℕ} {log : List G} {forgiven floor : ℕ} {g : G}
      (h : Services debt log forgiven debt') (hg : Serves cost members debt' debt'' g floor) :
      Services debt (log ++ [g]) (forgiven + floor) debt''

variable {cost members} {debt debt' : G → ℕ} {log : List G} {forgiven : ℕ}

section

variable (h : Services cost members debt log forgiven debt')
include h

/-- **A debt is what was owed before, plus what was served, less what was forgiven.** -/
theorem Services.paid {g : G} (hg : g ∈ members) :
    debt' g + forgiven = debt g + log.count g * cost g := by
  induction h with
  | nil => simp
  | @concat debt' debt'' log forgiven floor k _ hk ih =>
      by_cases hkg : g = k
      · subst hkg
        have hpaid := hk.paid
        rw [List.count_append, List.count_singleton_self, Nat.add_mul, Nat.one_mul]
        omega
      · have hkept := hk.kept g hg hkg
        have hcount : [k].count g = 0 := List.count_eq_zero.mpr (by simpa using hkg)
        rw [List.count_append, hcount, Nat.add_zero]
        omega

/-- Nobody is ahead of another by more than the other's next service, unless it was at the start. -/
theorem Services.ahead {g k : G} (hg : g ∈ members) (hk : k ∈ members) :
    debt' g + forgiven ≤ debt g ∨ debt' g ≤ debt' k + cost k := by
  induction h with
  | nil => exact Or.inl (by simp)
  | @concat debt' debt'' log forgiven floor served _ hserved ih =>
      have hgrow : debt' k ≤ debt'' k + floor := by
        by_cases hks : k = served
        · subst hks
          have hpaid := hserved.paid
          omega
        · exact (hserved.kept k hk hks).ge
      by_cases hgs : g = served
      · subst hgs
        have hleast := hserved.least k hk
        have hpaid := hserved.paid
        exact Or.inr (by omega)
      · have hkept := hserved.kept g hg hgs
        rcases ih with hstart | hbehind
        · exact Or.inl (by omega)
        · exact Or.inr (by omega)

/-- **The shares are fair.** -/
theorem Services.shares {g k : G} (hg : g ∈ members) (hk : k ∈ members) :
    log.count g * cost g ≤ log.count k * cost k + cost k + debt k := by
  have hpaidg := h.paid hg
  have hpaidk := h.paid hk
  rcases h.ahead hg hk with hstart | hbehind
  · omega
  · omega

end

end FairService
