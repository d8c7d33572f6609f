/-
**Recognizers.**

A recognizer takes a prefix off its input or refuses it.  Those of a parser library are put together
from a few combinators: one after the other, one or else another, as many as there are.  A repetition
of a recognizer that accepts without taking anything would not end, and is refused.

Main definitions: `Recognizer`, `alt`, `many`, `repeat0`, `repeat1`, `takeWhile1`, `Follows`.

Main results:

* `many_follows`, `repeat1_follows` — a repetition of such a recognizer ends
  where it is refused, keeps the measure, and never fails for want of progress.
-/

import Mathlib.Data.List.Basic

/-- What is left of an input that was accepted. -/
abbrev Recognizer := List Char → Option (List Char)

namespace Recognizer

/-! ### Combinators -/

/-- One character of a kind. -/
def satisfy (p : Char → Bool) : Recognizer
  | [] => none
  | c :: input => if p c then some input else none

/-- The first of the alternatives that accepts. -/
def alt : List Recognizer → Recognizer
  | [], _ => none
  | first :: others, input =>
      match first input with
      | some rest => some rest
      | none => alt others input

/-- Accept in any case. -/
def opt (first : Recognizer) : Recognizer := fun input =>
  match first input with
  | some rest => some rest
  | none => some input

def andThen (first second : Recognizer) : Recognizer := fun input => (first input).bind second

/-- The longest prefix of characters of a kind, which must not be empty. -/
def takeWhile1 (p : Char → Bool) : Recognizer
  | [] => none
  | c :: input => if p c then some (input.dropWhile p) else none

/-- Repeat until refused; an acceptance that takes nothing is a failure. -/
def many (p : Recognizer) : ℕ → Recognizer
  | 0, _ => none
  | fuel + 1, input =>
      match p input with
      | none => some input
      | some rest => if rest.length < input.length then many p fuel rest else none

/-- Any number of times. -/
def repeat0 (p : Recognizer) : Recognizer := fun input => many p (input.length + 1) input

/-- At least once. -/
def repeat1 (p : Recognizer) : Recognizer := fun input => (p input).bind (repeat0 p)

/-! ### Repetitions that end -/

/-- The recognizer keeps a measure of what is left, and takes something. -/
def Follows {α : Type} (μ : List Char → α) (p : Recognizer) : Prop :=
  ∀ input rest, p input = some rest → rest.length < input.length ∧ μ rest = μ input

variable {α : Type} {μ : List Char → α} {p : Recognizer} {alternatives : List Recognizer}

theorem alt_follows (h : ∀ p ∈ alternatives, Follows μ p) : Follows μ (alt alternatives) := by
  intro input rest haccepted
  induction alternatives with
  | nil => cases haccepted
  | cons first others ih =>
      rw [alt] at haccepted
      split at haccepted
      · rename_i found hfirst
        cases haccepted
        exact h first List.mem_cons_self input rest hfirst
      · exact ih (fun p hp => h p (List.mem_cons_of_mem _ hp)) haccepted

variable {input : List Char}

theorem alt_eq_none : alt alternatives input = none ↔ ∀ p ∈ alternatives, p input = none := by
  induction alternatives with
  | nil => simp [alt]
  | cons first others ih =>
      rw [alt]
      cases hfirst : first input with
      | some rest => simp [hfirst]
      | none => simp [hfirst, ih]

/-- A repetition with enough fuel ends where the recognizer refuses. -/
theorem many_follows (h : Follows μ p) {fuel : ℕ} (hfuel : input.length < fuel) :
    ∃ rest, many p fuel input = some rest ∧ rest.length ≤ input.length ∧ μ rest = μ input ∧
      p rest = none := by
  induction fuel generalizing input with
  | zero => exact absurd hfuel (Nat.not_lt_zero _)
  | succ fuel ih =>
      rw [many]
      cases haccepted : p input with
      | none => exact ⟨input, rfl, Nat.le_refl _, rfl, haccepted⟩
      | some next =>
          obtain ⟨hshorter, hmeasure⟩ := h input next haccepted
          obtain ⟨rest, hrest, hle, hsame, hrefused⟩ := ih (by omega : next.length < fuel)
          refine ⟨rest, ?_, by omega, hsame.trans hmeasure, hrefused⟩
          show (if next.length < input.length then many p fuel next else none) = some rest
          rw [if_pos hshorter, hrest]

theorem repeat0_follows (h : Follows μ p) (input : List Char) :
    ∃ rest, repeat0 p input = some rest ∧ rest.length ≤ input.length ∧ μ rest = μ input ∧
      p rest = none :=
  many_follows h (Nat.lt_succ_self _)

/-- A repetition that begins goes on to where the recognizer refuses. -/
theorem repeat1_follows (h : Follows μ p) (hstarts : p input ≠ none) :
    ∃ rest, repeat1 p input = some rest ∧ rest.length < input.length ∧ μ rest = μ input ∧
      p rest = none := by
  cases haccepted : p input with
  | none => exact absurd haccepted hstarts
  | some next =>
      obtain ⟨hshorter, hmeasure⟩ := h input next haccepted
      obtain ⟨rest, hrest, hle, hsame, hrefused⟩ := repeat0_follows h next
      refine ⟨rest, ?_, by omega, hsame.trans hmeasure, hrefused⟩
      rw [repeat1, haccepted, Option.bind_some, hrest]

/-- Taking characters that leave the measure alone. -/
theorem takeWhile1_follows {kind : Char → Bool}
    (h : ∀ c input, kind c = true → μ (c :: input) = μ input) : Follows μ (takeWhile1 kind) := by
  intro input rest haccepted
  cases input with
  | nil => cases haccepted
  | cons c input =>
      rw [takeWhile1] at haccepted
      by_cases hkind : kind c = true
      · rw [if_pos hkind] at haccepted
        cases haccepted
        have hsuffix := (List.dropWhile_suffix kind (l := input)).length_le
        refine ⟨?_, ?_⟩
        · rw [List.length_cons]
          omega
        · rw [h c input hkind]
          clear hsuffix
          induction input with
          | nil => rfl
          | cons d input ih =>
              by_cases hd : kind d = true
              · rw [List.dropWhile_cons_of_pos hd, ih, h d input hd]
              · rw [List.dropWhile_cons_of_neg hd]
      · rw [if_neg hkind] at haccepted
        cases haccepted

theorem takeWhile1_eq_none {kind : Char → Bool} :
    takeWhile1 kind input = none ↔ ∀ c ∈ input.head?, kind c = false := by
  cases input with
  | nil | cons => simp [takeWhile1]

end Recognizer
