/-
**Logs that are thinned out.**

Whoever falls behind may skip some of what was logged, if a later entry takes over what the skipped
one would have done.  This module says what that means without naming the entries: `compatible old
new` says that `new` may take over from `old`, and `merge new old` is `new` with what it took over.

Main definitions: `Thinned`, `transitions`.

Main results:

* `Thinned.sublist` — what is kept is kept in order;
* `Thinned.getLast?_eq` — the last entry is kept;
* `Thinned.foldl_eq`, `Thinned.trace_sublist` — replaying what is kept leads to the
  same state, and what is kept shows at each entry the state of the log at that entry;
* `Thinned.split` — nothing is taken over across entries that are not compatible;
* `Thinned.transitions_eq` — a value that entries keep when merged changes the same way.
-/

import Mathlib.Data.List.Basic

namespace Thinning

variable {α : Type*}

section Thinned

variable (compatible : α → α → Prop) (merge : α → α → α)

/-- The entry has taken over from the one before it. -/
def Follows (old new : α) : Prop := ∃ a, compatible old a ∧ new = merge a old

/-- What may be kept of a log: a new entry may take over from the last one that is kept, and what
another has taken over from may be dropped. -/
inductive Thinned : List α → List α → Prop
  | nil : Thinned [] []
  | append {log kept : List α} (a : α) (h : Thinned log kept) : Thinned (log ++ [a]) (kept ++ [a])
  | extend {log kept : List α} {old new : α} (h : Thinned log (kept ++ [old]))
      (hnew : compatible old new) : Thinned (log ++ [new]) (kept ++ [old, merge new old])
  | drop {log front back : List α} {old new : α} (h : Thinned log (front ++ old :: new :: back))
      (hnew : Follows compatible merge old new) : Thinned log (front ++ new :: back)

end Thinned

variable {compatible : α → α → Prop} {merge : α → α → α} {log kept : List α}

/-- A new entry takes the place of the last one that is kept. -/
theorem Thinned.replace {old new : α} (h : Thinned compatible merge log (kept ++ [old]))
    (hnew : compatible old new) : Thinned compatible merge (log ++ [new]) (kept ++ [merge new old]) :=
  (h.extend hnew).drop ⟨new, hnew, rfl⟩

theorem Thinned.drop_head {back : List α} {old new : α}
    (h : Thinned compatible merge log (old :: new :: back))
    (hnew : Follows compatible merge old new) : Thinned compatible merge log (new :: back) := by
  have hdrop : Thinned compatible merge log ([] ++ new :: back) := Thinned.drop h hnew
  exact hdrop

/-! ### What is kept of an entry -/

section Stripped

variable {β : Type*} {strip : α → β}

/-- What merging leaves alone is kept in order. -/
theorem Thinned.sublist (hmerge : ∀ new old, strip (merge new old) = strip new)
    (h : Thinned compatible merge log kept) : (kept.map strip).Sublist (log.map strip) := by
  induction h with
  | nil => exact List.Sublist.slnil
  | append a _ ih =>
      simp only [List.map_append]
      exact ih.append (List.Sublist.refl _)
  | @extend log kept old new _ _ ih =>
      have heq : (kept ++ [old, merge new old]).map strip =
          (kept ++ [old]).map strip ++ [strip new] := by
        simp [hmerge]
      have hlog : (log ++ [new]).map strip = log.map strip ++ [strip new] := by simp
      rw [heq, hlog]
      exact ih.append (List.Sublist.refl _)
  | @drop log front back old new _ _ ih =>
      have hsub : (front ++ new :: back).Sublist (front ++ old :: new :: back) :=
        (List.Sublist.refl front).append (List.sublist_cons_self _ _)
      exact (hsub.map strip).trans ih

/-- The last entry is kept. -/
theorem Thinned.getLast?_eq (hmerge : ∀ new old, strip (merge new old) = strip new)
    (h : Thinned compatible merge log kept) :
    kept.getLast?.map strip = log.getLast?.map strip := by
  induction h with
  | nil => rfl
  | append a _ _ => simp
  | extend _ _ _ => simp [hmerge]
  | @drop log front back old new _ _ ih =>
      rw [← ih]
      simp

/-- Nothing is kept of an empty log, and something of any other. -/
theorem Thinned.eq_nil_iff (h : Thinned compatible merge log kept) : kept = [] ↔ log = [] := by
  induction h with
  | nil | append | extend => simp
  | drop _ _ ih =>
      rw [← ih]
      simp

end Stripped

/-! ### Replaying -/

section Replay

variable {σ : Type*} {act : σ → α → σ}

/-- An entry that has taken over shows the same, whether or not the other was seen. -/
theorem act_of_follows
    (hmerge : ∀ old new, compatible old new → ∀ x, act x (merge new old) = act (act x old) new)
    (hagain : ∀ x a, act (act x a) a = act x a) {old new : α}
    (h : Follows compatible merge old new) (x : σ) : act (act x old) new = act x new := by
  obtain ⟨a, ha, rfl⟩ := h
  rw [hmerge old a ha, hmerge old a ha, hagain]

/-- Replaying what is kept leads to the same state. -/
theorem Thinned.foldl_eq
    (hmerge : ∀ old new, compatible old new → ∀ x, act x (merge new old) = act (act x old) new)
    (hagain : ∀ x a, act (act x a) a = act x a) (h : Thinned compatible merge log kept) (x : σ) :
    kept.foldl act x = log.foldl act x := by
  induction h with
  | nil => rfl
  | append a _ ih => rw [List.foldl_append, List.foldl_append, ih]
  | @extend log kept old new _ hnew ih =>
      rw [List.foldl_append, List.foldl_append, ← ih, List.foldl_append]
      simp only [List.foldl_cons, List.foldl_nil]
      rw [hmerge old new hnew, hagain]
  | @drop log front back old new _ hnew ih =>
      rw [← ih, List.foldl_append, List.foldl_append]
      simp only [List.foldl_cons]
      rw [act_of_follows hmerge hagain hnew]

/-- Each entry with the state after it. -/
def trace {β : Type*} (act : σ → α → σ) (strip : α → β) : σ → List α → List (β × σ)
  | _, [] => []
  | x, a :: l => (strip a, act x a) :: trace act strip (act x a) l

theorem trace_append {β : Type*} {strip : α → β} (x : σ) (l m : List α) :
    trace act strip x (l ++ m) = trace act strip x l ++ trace act strip (l.foldl act x) m := by
  induction l generalizing x with
  | nil => rfl
  | cons a l ih => simp [trace, ih]

/-- What is kept is kept in order, and shows at each entry the state of the log at that entry. -/
theorem Thinned.trace_sublist {β : Type*} {strip : α → β}
    (hstrip : ∀ new old, strip (merge new old) = strip new)
    (hmerge : ∀ old new, compatible old new → ∀ x, act x (merge new old) = act (act x old) new)
    (hagain : ∀ x a, act (act x a) a = act x a) (h : Thinned compatible merge log kept) (x : σ) :
    (trace act strip x kept).Sublist (trace act strip x log) := by
  induction h with
  | nil => exact List.Sublist.slnil
  | @append log kept a h ih =>
      rw [trace_append, trace_append, h.foldl_eq hmerge hagain]
      exact ih.append (List.Sublist.refl _)
  | @extend log kept old new h hnew ih =>
      -- the new entry shows the state of the whole log
      have hall : act ((kept ++ [old]).foldl act x) (merge new old) = act (log.foldl act x) new := by
        have hfold := (h.extend hnew).foldl_eq hmerge hagain x
        rw [List.append_cons, List.foldl_append (l := kept ++ [old]),
          List.foldl_append (l := log)] at hfold
        exact hfold
      have hlast : trace act strip ((kept ++ [old]).foldl act x) [merge new old] =
          trace act strip (log.foldl act x) [new] := by
        simp only [trace, hstrip, hall]
      rw [List.append_cons kept old, trace_append x (kept ++ [old]), trace_append x log, hlast]
      exact ih.append (List.Sublist.refl _)
  | @drop log front back old new h hnew ih =>
      refine List.Sublist.trans ?_ ih
      rw [trace_append, trace_append]
      refine (List.Sublist.refl _).append ?_
      simp only [trace]
      rw [act_of_follows hmerge hagain hnew]
      exact List.sublist_cons_self _ _

end Replay

/-! ### Where nothing is taken over -/

section Split

variable {κ : Type*} {key : α → Option κ}

/-- The first entry that is kept has the key of the first one. -/
theorem Thinned.head?_key (hkey : ∀ old new, compatible old new → key old = key new)
    (hmerge : ∀ new old, key (merge new old) = key new) (h : Thinned compatible merge log kept) :
    kept.head?.map key = log.head?.map key := by
  induction h with
  | nil => rfl
  | @append log kept a h ih =>
      cases log with
      | nil =>
          rw [h.eq_nil_iff.mpr rfl]
      | cons b log =>
          cases kept with
          | nil => exact absurd (h.eq_nil_iff.mp rfl) (List.cons_ne_nil _ _)
          | cons c kept => exact ih
  | @extend log kept old new h hnew ih =>
      cases log with
      | nil => exact absurd (h.eq_nil_iff.mpr rfl) (by simp)
      | cons b log =>
          cases kept with
          | nil | cons => exact ih
  | @drop log front back old new h hnew ih =>
      obtain ⟨a, ha, rfl⟩ := hnew
      cases front with
      | nil =>
          rw [← ih]
          simp [hmerge, hkey old a ha]
      | cons c front => exact ih

/-- Nothing is taken over between entries whose keys differ, or that have no key. -/
theorem Thinned.split
    (hkey : ∀ old new, compatible old new → key old = key new ∧ key new ≠ none)
    (hmerge : ∀ new old, key (merge new old) = key new) (h : Thinned compatible merge log kept)
    {first second : List α} (hlog : log = first ++ second)
    (hapart : ∀ x ∈ first.getLast?, ∀ y ∈ second.head?, key x = key y → key y = none) :
    ∃ front back, kept = front ++ back ∧ Thinned compatible merge first front ∧
      Thinned compatible merge second back := by
  induction h generalizing first second with
  | nil =>
      obtain ⟨rfl, rfl⟩ := List.append_eq_nil_iff.mp hlog.symm
      exact ⟨[], [], rfl, Thinned.nil, Thinned.nil⟩
  | @append log kept a h ih =>
      rcases List.eq_nil_or_concat' second with rfl | ⟨second, b, rfl⟩
      · refine ⟨kept ++ [a], [], by simp, ?_, Thinned.nil⟩
        rw [List.append_nil] at hlog
        rw [← hlog]
        exact h.append a
      · have hlog' : log ++ [a] = (first ++ second) ++ [b] := by simpa using hlog
        obtain ⟨rfl, hb⟩ := List.append_inj' hlog' rfl
        obtain rfl : a = b := by simpa using hb
        obtain ⟨front, back, rfl, hfront, hback⟩ := ih rfl fun x hx y hy =>
          hapart x hx y (by simp [Option.mem_def.mp hy])
        exact ⟨front, back ++ [a], by simp, hfront, hback.append a⟩
  | @extend log kept old new h hnew ih =>
      rcases List.eq_nil_or_concat' second with rfl | ⟨second, b, rfl⟩
      · refine ⟨kept ++ [old, merge new old], [], by simp, ?_, Thinned.nil⟩
        rw [List.append_nil] at hlog
        rw [← hlog]
        exact h.extend hnew
      · have hlog' : log ++ [new] = (first ++ second) ++ [b] := by simpa using hlog
        obtain ⟨rfl, hb⟩ := List.append_inj' hlog' rfl
        obtain rfl : new = b := by simpa using hb
        obtain ⟨front, back, hkept, hfront, hback⟩ := ih rfl fun x hx y hy =>
          hapart x hx y (by simp [Option.mem_def.mp hy])
        rcases List.eq_nil_or_concat' back with rfl | ⟨back, d, rfl⟩
        · -- the new entry would take over across the split
          obtain rfl := hback.eq_nil_iff.mp rfl
          have hlast := hfront.getLast?_eq hmerge
          rw [List.append_nil] at hkept
          rw [← hkept, List.getLast?_concat] at hlast
          cases hfirst : first.getLast? with
          | none => simp [hfirst] at hlast
          | some x =>
              obtain ⟨hsame, hsome⟩ := hkey old new hnew
              have hx : key old = key x := by simpa [hfirst] using hlast
              exact absurd (hapart x (by simp [hfirst]) new (by simp) (hx.symm.trans hsame)) hsome
        · have hkept' : kept ++ [old] = (front ++ back) ++ [d] := by simpa using hkept
          obtain ⟨rfl, hd⟩ := List.append_inj' hkept' rfl
          obtain rfl : old = d := by simpa using hd
          exact ⟨front, back ++ [old, merge new old], by simp, hfront, hback.extend hnew⟩
  | @drop log before after old new h hnew ih =>
      obtain ⟨front, back, hkept, hfront, hback⟩ := ih hlog hapart
      rcases List.append_eq_append_iff.mp hkept with ⟨middle, rfl, hrest⟩ | ⟨middle, rfl, hrest⟩
      · -- the split comes after the entries before the two
        cases middle with
        | nil =>
            obtain rfl : old :: new :: after = back := hrest
            exact ⟨before, new :: after, rfl, by simpa using hfront, hback.drop_head hnew⟩
        | cons z middle =>
            obtain ⟨rfl, htail⟩ := List.cons_eq_cons.mp hrest
            cases middle with
            | nil =>
                -- the split would come between the two
                obtain ⟨a, ha, rfl⟩ := hnew
                obtain ⟨hsame, hsome⟩ := hkey old a ha
                obtain rfl : merge a old :: after = back := htail
                have hlast := hfront.getLast?_eq hmerge
                have hhead := hback.head?_key (fun o n hon => (hkey o n hon).1) hmerge
                cases hfirst : first.getLast? with
                | none => simp [hfirst] at hlast
                | some x =>
                    cases hsecond : second.head? with
                    | none => simp [hsecond] at hhead
                    | some y =>
                        have hx : key old = key x := by simpa [hfirst] using hlast
                        have hy : key a = key y := by simpa [hsecond, hmerge] using hhead
                        have hnone := hapart x (by simp [hfirst]) y (by simp [hsecond])
                          (hx.symm.trans (hsame.trans hy))
                        exact absurd (hy.trans hnone) hsome
            | cons w middle =>
                obtain ⟨rfl, rfl⟩ := List.cons_eq_cons.mp htail
                exact ⟨before ++ new :: middle, back, by simp, hfront.drop hnew, hback⟩
      · exact ⟨front, middle ++ new :: after, by simp, hfront, by
          rw [hrest] at hback
          exact hback.drop hnew⟩

end Split

/-! ### Transitions -/

section Transitions

variable {β : Type*} [DecidableEq β]

/-- One more value, unless it is the last one. -/
def change (seen : List β) (b : β) : List β := if seen.getLast? = some b then seen else seen ++ [b]

/-- The values of a log without immediate repetitions. -/
def transitions (values : List β) : List β := values.foldl change []

theorem change_again (seen : List β) (b : β) : change (change seen b) b = change seen b := by
  unfold change
  by_cases h : seen.getLast? = some b
  · rw [if_pos h, if_pos h]
  · rw [if_neg h, if_pos List.getLast?_concat]

/-- A value that entries keep when they are merged changes the same way. -/
theorem Thinned.transitions_eq {f : α → β} (hkey : ∀ old new, compatible old new → f old = f new)
    (hmerge : ∀ new old, f (merge new old) = f new) (h : Thinned compatible merge log kept) :
    transitions (kept.map f) = transitions (log.map f) := by
  unfold transitions
  rw [List.foldl_map, List.foldl_map]
  refine Thinned.foldl_eq ?_ ?_ h []
  · intro old new hnew seen
    simp only [hmerge, hkey old new hnew]
    exact (change_again _ _).symm
  · intro seen a
    exact change_again _ _

end Transitions

end Thinning
