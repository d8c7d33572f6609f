/-
**Finite maps with an unspecified iteration order.**

A hash map is a finite map whose entries come out in an order nobody promised.  Its contents are
Mathlib's association lists, `AList`; this module adds the operations of a hash map that `AList`
lacks and keeps the order apart from the contents: whoever iterates asks an `IterationOrder` for a
permutation of the keys, a different one at every call if it likes.

Main definitions: `Dict`, `IterationOrder`.

Main results:

* `lookup_insert_eq`, `lookup_erase_eq`, `lookup_modify`, `lookup_retain`,
  `lookup_mapValues` — each operation as an update of the lookup function;
* `IterationOrder.mem_arrange`, `IterationOrder.nodup_arrange` — iterating visits every key once.
-/

import Mathlib.Algebra.GroupWithZero.Nat
import Mathlib.Algebra.Order.BigOperators.Group.List
import Mathlib.Algebra.Order.Group.Nat
import Mathlib.Data.List.AList

/-- A finite map from `K` to `V`. -/
abbrev Dict (K V : Type) := AList (fun _ : K => V)

namespace AList

open AList

variable {K V : Type}

/-! ### The operations `AList` lacks -/

/-- The number of entries. -/
def size (d : Dict K V) : ℕ := d.keys.length

/-- The sum of a weight over all entries. -/
def total (d : Dict K V) (w : K → V → ℕ) : ℕ := (d.entries.map fun e => w e.1 e.2).sum

/-- Keep the entries that satisfy `p`. -/
def retain (d : Dict K V) (p : K → V → Bool) : Dict K V :=
  ⟨d.entries.filter fun e => p e.1 e.2, d.nodupKeys.sublist List.filter_sublist⟩

/-- Change every value. -/
def mapValues (d : Dict K V) (f : K → V → V) : Dict K V :=
  ⟨d.entries.map fun e => ⟨e.1, f e.1 e.2⟩, by
    have h := d.nodupKeys
    simpa [List.NodupKeys, List.keys, List.map_map, Function.comp_def] using h⟩

@[simp] theorem keys_mapValues (d : Dict K V) (f : K → V → V) : (d.mapValues f).keys = d.keys := by
  simp [mapValues, keys, List.keys, Function.comp_def]

variable [DecidableEq K]

/-- Change the value of one key, if it is there. -/
def modify (d : Dict K V) (k : K) (f : V → V) : Dict K V :=
  d.mapValues fun k' v => if k' = k then f v else v

/-- Insert unless the key is there. -/
def insertNew (d : Dict K V) (k : K) (v : V) : Dict K V :=
  if k ∈ d then d else d.insert k v

/-! ### Lookup after an update -/

@[simp] theorem lookup_insert_eq (d : Dict K V) (k k' : K) (v : V) :
    (d.insert k v).lookup k' = if k' = k then some v else d.lookup k' := by
  by_cases h : k' = k
  · rw [h, if_pos rfl]
    exact lookup_insert d
  · rw [if_neg h]
    exact lookup_insert_ne h

@[simp] theorem lookup_erase_eq (d : Dict K V) (k k' : K) :
    (d.erase k).lookup k' = if k' = k then none else d.lookup k' := by
  by_cases h : k' = k
  · rw [h, if_pos rfl]
    exact lookup_erase k d
  · rw [if_neg h]
    exact lookup_erase_ne h

variable {d : Dict K V} {k : K} {v : V}

theorem mem_entries_iff : (⟨k, v⟩ : Σ _ : K, V) ∈ d.entries ↔ d.lookup k = some v :=
  (List.mem_dlookup_iff d.nodupKeys).symm

@[simp] theorem lookup_retain (d : Dict K V) (p : K → V → Bool) (k : K) :
    (d.retain p).lookup k = (d.lookup k).filter (p k) := by
  refine Option.ext fun v => ?_
  rw [← mem_entries_iff, Option.filter_eq_some_iff, ← mem_entries_iff]
  simp [retain, List.mem_filter]

@[simp] theorem lookup_mapValues (d : Dict K V) (f : K → V → V) (k : K) :
    (d.mapValues f).lookup k = (d.lookup k).map (f k) := by
  refine Option.ext fun v => ?_
  rw [← mem_entries_iff, Option.map_eq_some_iff]
  simp only [mapValues, List.mem_map]
  constructor
  · rintro ⟨⟨a, b⟩, hmem, heq⟩
    cases heq
    exact ⟨b, mem_entries_iff.mp hmem, rfl⟩
  · rintro ⟨b, hb, rfl⟩
    exact ⟨⟨k, b⟩, mem_entries_iff.mpr hb, rfl⟩

@[simp] theorem keys_modify (d : Dict K V) (k : K) (f : V → V) : (d.modify k f).keys = d.keys :=
  keys_mapValues d _

@[simp] theorem lookup_modify (d : Dict K V) (k k' : K) (f : V → V) :
    (d.modify k f).lookup k' = if k' = k then (d.lookup k').map f else d.lookup k' := by
  by_cases h : k' = k
  · simp [modify, h]
  · simp [modify, h]

@[simp] theorem lookup_insertNew (d : Dict K V) (k k' : K) (v : V) :
    (d.insertNew k v).lookup k' = if k' = k then some ((d.lookup k').getD v) else d.lookup k' := by
  unfold insertNew
  by_cases h : k ∈ d
  · obtain ⟨w, hw⟩ := Option.isSome_iff_exists.mp (lookup_isSome.mpr h)
    by_cases hk : k' = k
    · subst hk
      simp [h, hw]
    · simp [h, hk]
  · have hnone : d.lookup k = none := lookup_eq_none.mpr h
    by_cases hk : k' = k
    · subst hk
      simp [h, hnone]
    · simp [h, hk]

/-! ### Totals -/

/-- The total is the weight of one entry and that of the others. -/
theorem total_of_lookup (h : d.lookup k = some v) (w : K → V → ℕ) :
    d.total w = w k v + (d.erase k).total w := by
  have hkey : k ∈ d.keys := mem_keys.mp (lookup_isSome.mp (by rw [h]; rfl))
  obtain ⟨found, before, after, -, hentries, herased⟩ := List.exists_of_kerase hkey
  have hfound : found = v := by
    have hmem : (⟨k, found⟩ : Σ _ : K, V) ∈ d.entries := by
      rw [hentries]
      exact List.mem_append_right _ List.mem_cons_self
    rw [mem_entries_iff, h] at hmem
    exact (Option.some.inj hmem).symm
  have herase : (d.erase k).entries = before ++ after := herased
  rw [total, total, hentries, herase, hfound]
  simp only [List.map_append, List.map_cons, List.sum_append, List.sum_cons]
  omega

theorem erase_of_lookup_none (h : d.lookup k = none) : d.erase k = d := by
  have hkey : k ∉ d.entries.keys := lookup_eq_none.mp h
  exact ext (List.kerase_of_notMem_keys hkey)

@[simp] theorem erase_erase_self (d : Dict K V) (k : K) : (d.erase k).erase k = d.erase k :=
  erase_of_lookup_none (by simp)

theorem total_insert (d : Dict K V) (k : K) (v : V) (w : K → V → ℕ) :
    (d.insert k v).total w = w k v + (d.erase k).total w := by
  simp only [total, entries_insert, List.map_cons, List.sum_cons]
  rfl

/-- Erasing takes at most the weight of the entry away. -/
theorem total_erase_le (d : Dict K V) (k : K) (w : K → V → ℕ) :
    (d.erase k).total w ≤ d.total w := by
  cases h : d.lookup k with
  | none => rw [erase_of_lookup_none h]
  | some v =>
      rw [total_of_lookup h w]
      omega

omit [DecidableEq K] in
theorem total_retain_le (d : Dict K V) (p : K → V → Bool) (w : K → V → ℕ) :
    (d.retain p).total w ≤ d.total w :=
  (List.filter_sublist.map _).sum_le_sum fun _ _ => Nat.zero_le _

theorem total_eq_zero {w : K → V → ℕ}
    (h : ∀ k v, d.lookup k = some v → w k v = 0) : d.total w = 0 := by
  refine List.sum_eq_zero fun n hn => ?_
  obtain ⟨⟨k, v⟩, hmem, rfl⟩ := List.mem_map.mp hn
  exact h k v (mem_entries_iff.mp hmem)

omit [DecidableEq K] in
/-- What weighs nothing may go. -/
theorem total_retain_of_zero (d : Dict K V) (p : K → V → Bool) (w : K → V → ℕ)
    (h : ∀ k v, p k v = false → w k v = 0) : (d.retain p).total w = d.total w := by
  have hlist : ∀ l : List (Σ _ : K, V), ((l.filter fun e => p e.1 e.2).map fun e => w e.1 e.2).sum =
      (l.map fun e => w e.1 e.2).sum := by
    intro l
    induction l with
    | nil => rfl
    | cons e l ih =>
        cases hp : p e.1 e.2 with
        | true => simp [hp, ih]
        | false => simp [hp, ih, h e.1 e.2 hp]
  exact hlist d.entries

omit [DecidableEq K] in
/-- The number of entries is the total of a constant. -/
theorem size_eq_total (d : Dict K V) : d.size = d.total fun _ _ => 1 := by
  simp [size, total, keys, List.keys]

theorem size_erase_of_lookup (h : d.lookup k = some v) : (d.erase k).size + 1 = d.size := by
  have htotal := total_of_lookup h fun _ _ => 1
  rw [size_eq_total, size_eq_total]
  omega

theorem size_erase_le (d : Dict K V) (k : K) : (d.erase k).size ≤ d.size := by
  rw [size_eq_total, size_eq_total]
  exact total_erase_le d k _

theorem size_insert (d : Dict K V) (k : K) (v : V) :
    (d.insert k v).size = (d.erase k).size + 1 := by
  rw [size_eq_total, size_eq_total, total_insert]
  omega

/-! ### Keys -/

theorem mem_keys_iff : k ∈ d.keys ↔ ∃ v, d.lookup k = some v := by
  rw [← mem_keys, ← lookup_isSome, Option.isSome_iff_exists]

theorem notMem_keys_iff : k ∉ d.keys ↔ d.lookup k = none := by
  rw [← mem_keys, lookup_eq_none]

theorem mem_keys_of_lookup (h : d.lookup k = some v) : k ∈ d.keys :=
  mem_keys_iff.mpr ⟨v, h⟩

theorem mem_of_lookup (h : d.lookup k = some v) : k ∈ d := mem_keys.mpr (mem_keys_of_lookup h)

theorem exists_lookup (h : k ∈ d) : ∃ v, d.lookup k = some v := mem_keys_iff.mp (mem_keys.mp h)

/-- If only the entry of one key contributes to a list that is collected from all of them, it is
what that entry contributes. -/
theorem flatMap_entries {β : Type} {f : V → List β}
    (h : ∀ k' v, d.lookup k' = some v → k' ≠ k → f v = []) :
    d.entries.flatMap (fun e => f e.2) = (d.lookup k).elim [] f := by
  have hentry : ∀ e ∈ d.entries, e.1 ≠ k → f e.2 = [] := by
    intro e he hne
    exact h e.1 e.2 (mem_entries_iff.mp he) hne
  have hnodup := d.nodupKeys
  unfold lookup
  generalize d.entries = l at hentry hnodup
  induction l with
  | nil => rfl
  | cons e l ih =>
      obtain ⟨hfresh, hrest⟩ := List.nodupKeys_cons.mp hnodup
      have hl : ∀ e' ∈ l, e'.1 ≠ k → f e'.2 = [] := by
        intro e' he'
        exact hentry e' (List.mem_cons_of_mem _ he')
      rw [List.flatMap_cons]
      by_cases hk : k = e.1
      · have hnone : List.dlookup k l = none := by
          rw [List.dlookup_eq_none, hk]
          exact hfresh
        subst hk
        rw [ih hl hrest, hnone, List.dlookup_cons_eq]
        simp
      · rw [ih hl hrest, List.dlookup_cons_ne l e hk, hentry e List.mem_cons_self (Ne.symm hk),
          List.nil_append]

theorem size_erase_lt (h : k ∈ d.keys) : size (d.erase k) < size d := by
  have hpos := List.length_pos_of_mem h
  simp only [size, keys_erase, List.length_erase_of_mem h]
  omega

end AList

/-! ### Iterating -/

/-- The order in which the keys of a map come out, call by call. -/
structure IterationOrder (K : Type) where
  arrange : ℕ → List K → List K
  perm : ∀ i l, (arrange i l).Perm l

namespace IterationOrder

variable {K : Type}

/-- The order in which the keys are stored, at every call. -/
def stored (K : Type) : IterationOrder K := ⟨fun _ l => l, fun _ l => List.Perm.refl l⟩

@[simp] theorem mem_arrange (o : IterationOrder K) (i : ℕ) (l : List K) (k : K) :
    k ∈ o.arrange i l ↔ k ∈ l :=
  (o.perm i l).mem_iff

theorem nodup_arrange (o : IterationOrder K) (i : ℕ) {l : List K} (h : l.Nodup) :
    (o.arrange i l).Nodup :=
  (o.perm i l).nodup_iff.mpr h

end IterationOrder
