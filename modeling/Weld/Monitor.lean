/-
**Monitors.**

A monitor reads a log from its beginning and says of every entry whether it may come now.  What a
component does is safe if its monitor accepts the log; the proof keeps the state of the monitor in
step with the state of the component.

Main definitions: `Monitor`, `Accepts`, `Follows`.

Main results:

* `Follows.concat` — one more entry;
* `Follows.ignore` — entries that are none of the monitor's business.
-/

import Weld.History

structure Monitor (ρ σ : Type*) where
  init : σ
  next : σ → ρ → σ
  allows : σ → ρ → Prop

namespace Monitor

variable {ρ σ : Type*} (m : Monitor ρ σ)

/-- The state after a log. -/
def state (log : List ρ) : σ := log.foldl m.next m.init

@[simp] theorem state_nil : m.state [] = m.init := rfl

@[simp] theorem state_concat (log : List ρ) (r : ρ) :
    m.state (log ++ [r]) = m.next (m.state log) r := by
  simp [state]

/-- Every entry was allowed when it came. -/
def Accepts (log : List ρ) : Prop := History.Each (fun earlier r => m.allows (m.state earlier) r) log

/-- An entry that is always allowed and changes nothing. -/
def Ignores (r : ρ) : Prop := ∀ s, m.next s r = s ∧ m.allows s r

/-- The log is accepted, and the state it leads to satisfies the condition. -/
def Follows (holds : σ → Prop) (log : List ρ) : Prop := m.Accepts log ∧ holds (m.state log)

variable {m} {holds holds' : σ → Prop} {log : List ρ}

theorem follows_nil (h : holds m.init) : m.Follows holds [] := ⟨History.each_nil, h⟩

theorem Follows.imp (h : m.Follows holds log) (himp : holds (m.state log) → holds' (m.state log)) :
    m.Follows holds' log :=
  ⟨h.1, himp h.2⟩

theorem Follows.concat (h : m.Follows holds log) {r : ρ} (hallows : m.allows (m.state log) r)
    (hnext : holds' (m.next (m.state log) r)) : m.Follows holds' (log ++ [r]) :=
  ⟨h.1.concat hallows, by rwa [state_concat]⟩

/-- **Entries that are none of the monitor's business.** -/
theorem Follows.ignore (h : m.Follows holds log) {more : List ρ} (hmore : ∀ r ∈ more, m.Ignores r) :
    m.Follows holds (log ++ more) := by
  induction more generalizing log with
  | nil => rwa [List.append_nil]
  | cons r more ih =>
      obtain ⟨hsame, hallows⟩ := hmore r List.mem_cons_self (m.state log)
      have hone : m.Follows holds (log ++ [r]) := h.concat hallows (hsame.symm ▸ h.2)
      rw [List.append_cons]
      exact ih hone fun q hq => hmore q (List.mem_cons_of_mem r hq)

end Monitor
