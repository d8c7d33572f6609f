/-
**Histories.**

A log grows at its end, and whether an entry was allowed depends on the entries before it.

Main definitions: `Each`, `Since`.

Main results:

* `Each.concat`, `Each.of_append` — one more entry, and an earlier part;
* `Since.concat` — one more entry;
* `mem_suffix_of_not` — an entry that may not follow has come before.
-/

import Mathlib.Data.List.Basic

namespace History

variable {α : Type*} {P : List α → α → Prop}

/-- Every entry satisfies `P` of the entries before it. -/
def Each (P : List α → α → Prop) (log : List α) : Prop :=
  ∀ earlier e later, log = earlier ++ e :: later → P earlier e

theorem each_nil : Each P [] := by
  intro earlier e later h
  simp at h

variable {log : List α} {e : α}

theorem Each.concat (h : Each P log) (he : P log e) : Each P (log ++ [e]) := by
  intro earlier d later heq
  rcases List.eq_nil_or_concat' later with rfl | ⟨later, x, rfl⟩
  · obtain ⟨rfl, hd⟩ := List.append_inj' heq rfl
    obtain rfl : e = d := by simpa using hd
    exact he
  · have heq' : log ++ [e] = (earlier ++ d :: later) ++ [x] := by simpa using heq
    exact h earlier d later (List.append_inj' heq' rfl).1

theorem Each.of_append {more : List α} (h : Each P (log ++ more)) : Each P log := by
  intro earlier e later hlog
  exact h earlier e (later ++ more) (by simp [hlog])

theorem Each.last (h : Each P (log ++ [e])) : P log e :=
  h log e [] rfl

/-! ### What happened since -/

variable {Q R : α → Prop}

/-- `e` is an entry of the log, and every later one satisfies `Q`. -/
def Since (Q : α → Prop) (e : α) (log : List α) : Prop :=
  ∃ earlier later, log = earlier ++ e :: later ∧ ∀ x ∈ later, Q x

theorem Since.here (log : List α) (e : α) : Since Q e (log ++ [e]) :=
  ⟨log, [], rfl, fun _ hx => absurd hx List.not_mem_nil⟩

theorem Since.concat {x : α} (h : Since Q e log) (hx : Q x) : Since Q e (log ++ [x]) := by
  obtain ⟨earlier, later, rfl, hlater⟩ := h
  refine ⟨earlier, later ++ [x], by simp, fun y hy => ?_⟩
  rcases List.mem_append.mp hy with hy | hy
  · exact hlater y hy
  · rw [List.mem_singleton.mp hy]
    exact hx

/-- Of two entries, one that may not follow the other has come before it, unless they are one. -/
theorem mem_suffix_of_not {earlier later earlier' later' : List α} {x : α}
    (heq : earlier ++ e :: later = earlier' ++ x :: later') (hlater : ∀ y ∈ later, Q y)
    (hx : ¬ Q x) : (earlier = earlier' ∧ x = e ∧ later = later') ∨
      ∃ between, later' = between ++ e :: later := by
  rcases List.append_eq_append_iff.mp heq with ⟨front, rfl, hrest⟩ | ⟨front, rfl, hrest⟩
  · cases front with
    | nil =>
        obtain ⟨rfl, rfl⟩ := List.cons_eq_cons.mp hrest
        exact Or.inl ⟨by simp, rfl, rfl⟩
    | cons y front =>
        -- the other entry would follow
        obtain ⟨-, rfl⟩ := List.cons_eq_cons.mp hrest
        exact absurd (hlater x (by simp)) hx
  · cases front with
    | nil =>
        obtain ⟨rfl, rfl⟩ := List.cons_eq_cons.mp hrest
        exact Or.inl ⟨by simp, rfl, rfl⟩
    | cons y front =>
        obtain ⟨-, rfl⟩ := List.cons_eq_cons.mp hrest
        exact Or.inr ⟨front, rfl⟩

end History
