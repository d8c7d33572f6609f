/-
**Runs of a deterministic transition system.**

The components of this development are state machines: an event arrives, a handler runs to
completion, and the next event meets the state it left behind.  What an event cannot do in a state
is modelled as leaving that state alone, so a system is a function `δ : σ → ε → σ` and a run is
a list of events.

Main definitions: `exec`, `Reachable`, `Meets`.

Main results:

* `Reachable.induct` — an invariant that holds initially and is preserved by every step
  holds of every reachable state;
* `Meets.invariant` — the same for the runs whose steps all meet a condition.
-/

import Mathlib.Data.List.Basic

namespace Transition

variable {σ ε : Type*} (δ : σ → ε → σ)

/-! ### Runs -/

/-- The state reached from `s` by the events of a run, in order. -/
def exec (s : σ) (es : List ε) : σ := es.foldl δ s

@[simp] theorem exec_nil (s : σ) : exec δ s [] = s := rfl

@[simp] theorem exec_cons (s : σ) (e : ε) (es : List ε) :
    exec δ s (e :: es) = exec δ (δ s e) es := rfl

theorem exec_append (s : σ) (es fs : List ε) : exec δ s (es ++ fs) = exec δ (exec δ s es) fs := by
  simp [exec, List.foldl_append]

/-- The states some run leads to. -/
def Reachable (init s : σ) : Prop := ∃ es, exec δ init es = s

variable {δ}

/-! ### Invariants -/

variable {P : σ → Prop} {s : σ} {ok : σ → ε → Prop} {es : List ε}

theorem exec_invariant (hstep : ∀ s e, P s → P (δ s e)) (h : P s)
    (es : List ε) : P (exec δ s es) := by
  induction es generalizing s with
  | nil => exact h
  | cons e es ih => exact ih (hstep s e h)

/-- **The invariant rule**: what holds initially and is preserved by every step holds of every
reachable state. -/
theorem Reachable.induct {init : σ} (h0 : P init) (hstep : ∀ s e, P s → P (δ s e))
    (h : Reachable δ init s) : P s := by
  obtain ⟨es, rfl⟩ := h
  exact exec_invariant hstep h0 es

/-! ### Runs whose steps meet a condition -/

variable (δ)

/-- Every event of the run arrives in a state in which `ok` allows it. -/
def Meets (ok : σ → ε → Prop) : σ → List ε → Prop
  | _, [] => True
  | s, e :: es => ok s e ∧ Meets ok (δ s e) es

variable {δ}

@[simp] theorem meets_nil : Meets δ ok s [] := trivial

@[simp] theorem meets_cons {e : ε} :
    Meets δ ok s (e :: es) ↔ ok s e ∧ Meets δ ok (δ s e) es := Iff.rfl

/-- The states passed on the way meet the condition as well, so a statement about the end of every
such run is a statement about every state it passes. -/
theorem Meets.take {fs : List ε} (h : Meets δ ok s (es ++ fs)) : Meets δ ok s es := by
  induction es generalizing s with
  | nil => exact trivial
  | cons e es ih => exact ⟨h.1, ih h.2⟩

/-- A condition may be strengthened by what is known of the events of the run. -/
theorem Meets.imp_mem {ok' : σ → ε → Prop} (h : Meets δ ok s es)
    (himp : ∀ s, ∀ e ∈ es, ok s e → ok' s e) : Meets δ ok' s es := by
  induction es generalizing s with
  | nil => exact trivial
  | cons e es ih =>
      refine ⟨himp s e List.mem_cons_self h.1, ih h.2 ?_⟩
      intro s f hf
      exact himp s f (List.mem_cons_of_mem e hf)

/-- **The invariant rule for conditional runs.** -/
theorem Meets.invariant (hstep : ∀ s e, P s → ok s e → P (δ s e)) (h0 : P s) (h : Meets δ ok s es) :
    P (exec δ s es) := by
  induction es generalizing s with
  | nil => exact h0
  | cons e es ih => exact ih (hstep s e h0 h.1) h.2

/-! ### Operations that may fail -/

theorem bind_eq_ok {ε α β : Type} {first : Except ε α} {next : α → Except ε β} {result : β} :
    first.bind next = .ok result ↔ ∃ a, first = .ok a ∧ next a = .ok result := by
  cases first with
  | error | ok => simp [Except.bind]

theorem map_eq_ok {ε α β : Type} {first : Except ε α} {f : α → β} {result : β} :
    first.map f = .ok result ↔ ∃ a, first = .ok a ∧ f a = result := by
  cases first with
  | error | ok => simp [Except.map]

end Transition
