/-
**Logs whose adjacent entries are merged.**

Whoever writes to a queue may merge what it writes with the last entry that is still there.  What is
read is then the log, cut into runs, each of them merged into one entry.  This module says so without
naming the entries: `merge old new` is the entry that the two become, if they may be merged.

Main definitions: `Run`, `Merged`.

Main results:

* `Merged.runs` — the log is cut into runs;
* `Merged.filter_eq` — what is never merged is kept as it is, in order;
* `Merged.transitions_eq` — a value that merging keeps changes the same way.
-/

import Mathlib.Data.List.Forall2
import Weld.Thinning

namespace Merging

open Thinning (change transitions change_again)

variable {α : Type*} (merge : α → α → Option α)

/-- A run of entries, each merged with what the earlier ones have become. -/
inductive Run : List α → α → Prop
  | single (a : α) : Run [a] a
  | extend {run : List α} {old new both : α} (h : Run run old) (hmerge : merge old new = some both) :
      Run (run ++ [new]) both

/-- What may become of a log: an entry is appended, or merged with the last one. -/
inductive Merged : List α → List α → Prop
  | nil : Merged [] []
  | append {log kept : List α} (h : Merged log kept) (a : α) : Merged (log ++ [a]) (kept ++ [a])
  | merge {log kept : List α} {old new both : α} (h : Merged log (kept ++ [old]))
      (hmerge : merge old new = some both) : Merged (log ++ [new]) (kept ++ [both])

variable {merge} {log kept : List α} {β : Type*}

theorem forall₂_concat {R : α → β → Prop} {l : List α} {m : List β} {a : α} {b : β}
    (h : List.Forall₂ R l m) (hlast : R a b) : List.Forall₂ R (l ++ [a]) (m ++ [b]) := by
  induction h with
  | nil => exact .cons hlast .nil
  | cons hhead _ ih => exact .cons hhead ih

theorem exists_of_forall₂_concat {R : α → β → Prop} {l : List α} {m : List β} {b : β}
    (h : List.Forall₂ R l (m ++ [b])) :
    ∃ front a, l = front ++ [a] ∧ List.Forall₂ R front m ∧ R a b := by
  induction m generalizing l with
  | nil =>
      obtain ⟨a, rest, hhead, hrest, rfl⟩ := List.forall₂_cons_right_iff.mp h
      obtain rfl := List.forall₂_nil_right_iff.mp hrest
      exact ⟨[], a, rfl, .nil, hhead⟩
  | cons c m ih =>
      obtain ⟨d, rest, hhead, hrest, rfl⟩ := List.forall₂_cons_right_iff.mp h
      obtain ⟨front, a, rfl, hfront, hlast⟩ := ih hrest
      exact ⟨d :: front, a, rfl, .cons hhead hfront, hlast⟩

/-- **The log is cut into runs, each of which is merged into one entry.** -/
theorem Merged.runs (h : Merged merge log kept) :
    ∃ runs : List (List α), runs.flatten = log ∧ List.Forall₂ (Run merge) runs kept := by
  induction h with
  | nil => exact ⟨[], rfl, .nil⟩
  | @append log kept _ a ih =>
      obtain ⟨runs, rfl, hruns⟩ := ih
      refine ⟨runs ++ [[a]], ?_, forall₂_concat hruns (.single a)⟩
      rw [List.flatten_append, List.flatten_singleton]
  | @merge log kept old new both _ hmerge ih =>
      obtain ⟨runs, rfl, hruns⟩ := ih
      obtain ⟨front, run, rfl, hfront, hrun⟩ := exists_of_forall₂_concat hruns
      refine ⟨front ++ [run ++ [new]], ?_, forall₂_concat hfront (hrun.extend hmerge)⟩
      rw [List.flatten_append, List.flatten_append, List.flatten_singleton, List.flatten_singleton,
        List.append_assoc]

/-- Entries that are never merged are kept as they are, in order. -/
theorem Merged.filter_eq {p : α → Bool}
    (hp : ∀ old new both, merge old new = some both → p old = false ∧ p new = false ∧ p both = false)
    (h : Merged merge log kept) : kept.filter p = log.filter p := by
  induction h with
  | nil => rfl
  | append _ a ih => rw [List.filter_append, List.filter_append, ih]
  | @merge log kept old new both _ hmerge ih =>
      obtain ⟨hold, hnew, hboth⟩ := hp old new both hmerge
      have hsingle : ∀ a, p a = false → [a].filter p = [] := by
        intro a ha
        rw [List.filter_cons_of_neg (Bool.eq_false_iff.mp ha), List.filter_nil]
      rw [List.filter_append, hsingle old hold, List.append_nil] at ih
      rw [List.filter_append, List.filter_append, hsingle both hboth, hsingle new hnew,
        List.append_nil, List.append_nil, ih]

/-- A value that merging keeps changes the same way. -/
theorem Merged.transitions_eq [DecidableEq β] {f : α → Option β}
    (hf : ∀ old new both, merge old new = some both → f old = f new ∧ f both = f new)
    (h : Merged merge log kept) :
    transitions (kept.filterMap f) = transitions (log.filterMap f) := by
  have hconcat : ∀ (l : List α) (a : α), transitions ((l ++ [a]).filterMap f) =
      (f a).elim (transitions (l.filterMap f)) (change (transitions (l.filterMap f))) := by
    intro l a
    rw [List.filterMap_append]
    cases hfa : f a with
    | none => rw [List.filterMap_cons_none hfa, List.filterMap_nil, List.append_nil, Option.elim_none]
    | some b =>
        rw [List.filterMap_cons_some hfa, List.filterMap_nil, transitions, List.foldl_append]
        rfl
  induction h with
  | nil => rfl
  | append _ a ih => rw [hconcat, hconcat, ih]
  | @merge log kept old new both _ hmerge ih =>
      obtain ⟨hold, hboth⟩ := hf old new both hmerge
      rw [hconcat, hold] at ih
      rw [hconcat, hconcat, hboth, ← ih]
      cases f new with
      | none => rfl
      | some b => exact (change_again _ _).symm

end Merging
