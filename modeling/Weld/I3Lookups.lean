/-
**Names and lookups.**

Whatever is looked up among the workspaces and the outputs is there, and what is not found is not.  A
name begins with one number at most, so a workspace or an assignment stands in the way of one bare
number, and among more bare numbers than there are workspaces and assignments one is free: an output
always finds a name for its first workspace.

Main definitions: `leading`.

Main results:

* `mem_workspaces`, `currentOutput_mem`, `preferredOutput_mem` — what is found is there;
* `find_fresh` — a name under which nothing is found is nobody's name;
* `bootstrapName_isSome`, `bootstrapName_suits` — there is always a name for a new workspace.
-/

import Mathlib.Data.List.TakeWhile
import Weld.I3Workspaces
import Weld.WorkspaceCores

namespace I3

open Desktop

open Workspaces (Entity World Workspace Core)

/-! ### Numbers in names -/

/-- The number that a name begins with. -/
def leading (name : String) : ℕ := Nat.ofDigitChars 10 (name.toList.takeWhile Char.isDigit) 0

variable {name : String} {c : Char}

theorem leading_of_number {n : ℕ} (h : number name = some n) : leading name = n := by
  simp only [number] at h
  split_ifs at h
  exact Option.some.inj h

theorem isUpper_iff_val : c.isUpper = true ↔ 'A'.val ≤ c.val ∧ c.val ≤ 'Z'.val :=
  decide_eq_true_iff

theorem isUpper_iff : c.isUpper = true ↔ 65 ≤ c.toNat ∧ c.toNat ≤ 90 :=
  isUpper_iff_val.trans (by simp [UInt32.le_iff_toNat_le, ← Char.toNat_val])

/-- Only letters have a case. -/
theorem toLower_of_isUpper (h : c.isUpper = false) : c.toLower = c :=
  dif_neg fun hand => Bool.eq_false_iff.mp h (isUpper_iff_val.mpr hand)

theorem toNat_toLower (h : c.isUpper = true) : c.toLower.toNat = c.toNat + 32 := by
  have hbounds := isUpper_iff.mp h
  have hlower : c.toLower = _ := dif_pos (isUpper_iff_val.mp h)
  have hdiff : ('a'.val - 'A'.val).toNat = 32 := rfl
  rw [hlower, Char.toNat, UInt32.toNat_add, hdiff]
  exact Nat.mod_eq_of_lt (by rw [← Char.toNat]; omega)

theorem isUpper_of_isDigit (h : c.isDigit = true) : c.isUpper = false := by
  rw [← Bool.not_eq_true, isUpper_iff]
  have hdigit := Char.isDigit_iff_toNat.mp h
  have hnine : ('9' : Char).toNat = 57 := rfl
  omega

theorem isDigit_toLower (c : Char) : c.toLower.isDigit = c.isDigit := by
  cases hupper : c.isUpper with
  | false => rw [toLower_of_isUpper hupper]
  | true =>
      have hbounds := isUpper_iff.mp hupper
      have hnine : ('9' : Char).toNat = 57 := rfl
      rw [Bool.eq_iff_iff, Char.isDigit_iff_toNat, Char.isDigit_iff_toNat, toNat_toLower hupper]
      omega

/-- The digits that a name begins with do not depend on the case of its letters. -/
theorem takeWhile_folded (name : String) :
    (folded name).takeWhile Char.isDigit = name.toList.takeWhile Char.isDigit := by
  have hall : ∀ l : List Char,
      (l.map Char.toLower).takeWhile Char.isDigit = l.takeWhile Char.isDigit := by
    intro l
    induction l with
    | nil => rfl
    | cons c l ih =>
        rw [List.map_cons, List.takeWhile_cons, List.takeWhile_cons, isDigit_toLower]
        split
        · rename_i hdigit
          rw [ih, toLower_of_isUpper (isUpper_of_isDigit hdigit)]
        · rfl
  exact hall name.toList

theorem leading_congr {other : String} (h : folded name = folded other) :
    leading name = leading other := by
  rw [leading, leading, ← takeWhile_folded name, h, takeWhile_folded]

theorem number_congr {other : String} (h : folded name = folded other) :
    number name = number other := by
  rw [number, number, ← takeWhile_folded name, h, takeWhile_folded]

theorem leading_toString (n : ℕ) : leading (toString n) = n := by
  have hdigits : (toString n).toList.takeWhile Char.isDigit = Nat.toDigits 10 n := by
    rw [Nat.toString_eq_repr, Nat.toList_repr]
    exact List.takeWhile_eq_self_iff.mpr fun c hc =>
      Nat.isDigit_of_mem_toDigits (by decide) (by decide) hc
  rw [leading, hdigits, Nat.ofDigitChars_ten_toDigits]

theorem toString_ne_empty (n : ℕ) : toString n ≠ "" := by
  rw [Nat.toString_eq_repr]
  exact Nat.repr_ne_empty

/-! ### What is found -/

section
variable {order : IterationOrder Entity} {s : Desktop} {workspace output : Entity}

theorem mem_workspaces {order : IterationOrder Entity} {state : Workspace} :
    (workspace, state) ∈ s.workspaces order ↔ s.world.workspaces.lookup workspace = some state := by
  rw [workspaces, List.mem_filterMap]
  constructor
  · rintro ⟨found, -, hfound⟩
    obtain ⟨state', hstate, heq⟩ := Option.map_eq_some_iff.mp hfound
    cases heq
    exact hstate
  · intro hstate
    refine ⟨workspace, ?_, ?_⟩
    · rw [IterationOrder.mem_arrange]
      exact AList.mem_keys_of_lookup hstate
    · rw [hstate]
      rfl

theorem leastOutput_mem {kind : Entity → Bool} (h : s.leastOutput order kind = some output) :
    output ∈ s.world.outputs := by
  have hmem := List.mem_of_mem_filter (List.argmin_mem h)
  rw [outputs, IterationOrder.mem_arrange] at hmem
  exact (Finset.mem_sort _).mp hmem

/-- There is a current output if there is an output. -/
theorem currentOutput_eq_none : s.currentOutput order = none ↔ s.world.outputs = ∅ := by
  constructor
  · intro h
    rw [currentOutput, Option.or_eq_none_iff] at h
    rw [Finset.eq_empty_iff_forall_notMem]
    intro output houtput
    have hnone := List.argmin_eq_none.mp h.2
    have hmem : output ∈ (s.outputs order).filter fun _ => true := by
      rw [List.mem_filter, outputs, IterationOrder.mem_arrange, Finset.mem_sort]
      exact ⟨houtput, rfl⟩
    rw [hnone] at hmem
    exact List.not_mem_nil hmem
  · intro h
    have hleast : ∀ kind, s.leastOutput order kind = none := by
      intro kind
      by_contra hsome
      obtain ⟨output, houtput⟩ := Option.ne_none_iff_exists'.mp hsome
      have hmem := leastOutput_mem houtput
      rw [h] at hmem
      exact Finset.notMem_empty output hmem
    rw [currentOutput, hleast, hleast, Option.or_none, Option.or_none, Option.filter_eq_none_iff]
    intro output _ hlive
    rw [h] at hlive
    exact Finset.notMem_empty output (of_decide_eq_true hlive)

theorem currentOutput_mem (h : s.currentOutput order = some output) : output ∈ s.world.outputs := by
  rcases Option.or_eq_some_iff.mp h with hnear | ⟨-, hleast⟩
  · rcases Option.or_eq_some_iff.mp hnear with hselected | ⟨-, hprimary⟩
    · exact of_decide_eq_true (Option.filter_eq_some_iff.mp hselected).2
    · exact leastOutput_mem hprimary
  · exact leastOutput_mem hleast

variable {kind : Entity → Workspace → Bool}

theorem leastWorkspace_eq_none :
    s.leastWorkspace order kind = none ↔
      ∀ workspace state, s.world.workspaces.lookup workspace = some state →
        kind workspace state = false := by
  rw [leastWorkspace, Option.map_eq_none_iff, List.argmin_eq_none, List.filter_eq_nil_iff]
  constructor
  · intro h workspace state hstate
    exact Bool.eq_false_iff.mpr (h (workspace, state) (mem_workspaces.mpr hstate))
  · intro h ⟨workspace, state⟩ hmem
    exact Bool.eq_false_iff.mp (h workspace state (mem_workspaces.mp hmem))

theorem leastWorkspace_mem (h : s.leastWorkspace order kind = some workspace) :
    ∃ state, s.world.workspaces.lookup workspace = some state ∧ kind workspace state = true := by
  obtain ⟨⟨found, state⟩, hfound, rfl⟩ := Option.map_eq_some_iff.mp h
  obtain ⟨hmem, hkind⟩ := List.mem_filter.mp (List.argmin_mem hfound)
  exact ⟨state, mem_workspaces.mp hmem, hkind⟩

/-- No workspace has the name in any case of its letters. -/
def Fresh (s : World) (name : String) : Prop :=
  ∀ workspace core, s.coreOf workspace = some core → folded core.name ≠ folded name

variable {name : String}

theorem findName_fresh (h : s.findName order name = none) : Fresh s.world name := by
  intro workspace core hcore heq
  obtain ⟨state, hstate, rfl⟩ := World.lookup_of_coreOf hcore
  have hfalse := leastWorkspace_eq_none.mp h workspace state hstate
  rw [eqIgnoreAsciiCase, decide_eq_false_iff_not] at hfalse
  exact hfalse heq

/-- **A name is created only if it is nobody's.** -/
theorem find_fresh {target : WorkspaceTarget} (h : s.find order target = none)
    (hname : s.creationName target = some name) : Fresh s.world name := by
  cases target with
  | name found =>
      cases hname
      exact findName_fresh h
  | number found =>
      cases hname
      intro workspace core hcore heq
      obtain ⟨state, hstate, rfl⟩ := World.lookup_of_coreOf hcore
      have hnone : s.leastWorkspace order (fun _ state => number state.name = number name) = none := h
      have hfalse := leastWorkspace_eq_none.mp hnone workspace state hstate
      rw [decide_eq_false_iff_not] at hfalse
      exact hfalse (number_congr heq)
  | backAndForth =>
      have hprevious : s.previous = some name := hname
      rw [find, hprevious] at h
      exact findName_fresh h
  | next | previous | nextOnOutput | previousOnOutput | current => cases hname

/-! ### A name for a new workspace -/

theorem unused_fresh (h : s.unused order name = true) : Fresh s.world name := by
  intro workspace core hcore heq
  obtain ⟨state, hstate, rfl⟩ := World.lookup_of_coreOf hcore
  rw [unused, Bool.not_eq_true', ← Bool.not_eq_true, List.any_eq_true] at h
  refine h ⟨(workspace, state), mem_workspaces.mpr hstate, ?_⟩
  rw [Bool.or_eq_true]
  exact .inl (decide_eq_true heq)

/-- A workspace stands in the way of one bare number. -/
theorem leading_of_used {n : ℕ} (h : s.unused order (toString n) = false) :
    ∃ entry ∈ s.workspaces order, leading entry.2.name = n := by
  rw [unused, Bool.not_eq_false', List.any_eq_true] at h
  obtain ⟨entry, hmem, hblocks⟩ := h
  refine ⟨entry, hmem, ?_⟩
  rcases Bool.or_eq_true_iff.mp hblocks with hname | hnumber
  · rw [leading_congr (of_decide_eq_true hname), leading_toString]
  · obtain ⟨k, hk, heq⟩ := (Option.any_eq_true _ _).mp hnumber
    rw [leading_of_number (of_decide_eq_true heq), ← leading_of_number hk, leading_toString]

/-- An assignment stands in the way of one bare number. -/
theorem leading_of_preferred {n : ℕ} (h : s.preferredOutput order (toString n) ≠ none) :
    ∃ assignment ∈ s.settings.assignments, leading assignment.workspace = n := by
  obtain ⟨output, houtput⟩ := Option.ne_none_iff_exists'.mp h
  rcases Option.or_eq_some_iff.mp houtput with hexact | ⟨-, hnumbered⟩
  · obtain ⟨assignment, hmem, -⟩ := List.exists_of_findSome?_eq_some hexact
    obtain ⟨hmem, hname⟩ := List.mem_filter.mp hmem
    refine ⟨assignment, hmem, ?_⟩
    rw [of_decide_eq_true hname, leading_toString]
  · obtain ⟨assignment, hmem, -⟩ := List.exists_of_findSome?_eq_some hnumbered
    obtain ⟨hmem, hnumber⟩ := List.mem_filter.mp hmem
    refine ⟨assignment, hmem, ?_⟩
    rw [numbered, Bool.and_eq_true_iff] at hnumber
    obtain ⟨k, hk, heq⟩ := (Option.any_eq_true _ _).mp hnumber.2
    rw [leading_of_number (of_decide_eq_true heq), ← leading_of_number hk, leading_toString]

/-- **Among the bare numbers one suits the output.** -/
theorem exists_candidate (order : IterationOrder Entity) (s : Desktop) (output : Entity) :
    ∃ name ∈ s.candidates order, s.suits order output name = true := by
  by_contra hnone
  push Not at hnone
  have hsub : List.range' 1 ((s.workspaces order).length + s.settings.assignments.length + 1) ⊆
      (s.workspaces order).map (fun entry => leading entry.2.name) ++
        s.settings.assignments.map fun assignment => leading assignment.workspace := by
    intro n hn
    have hunsuited := hnone (toString n) (List.mem_map.mpr ⟨n, hn, rfl⟩)
    rw [suits, Ne, Bool.and_eq_true_iff, not_and_or, Bool.not_eq_true] at hunsuited
    rw [List.mem_append]
    rcases hunsuited with hused | hpreferred
    · obtain ⟨entry, hmem, heq⟩ := leading_of_used hused
      exact .inl (List.mem_map.mpr ⟨entry, hmem, heq⟩)
    · have hsome : s.preferredOutput order (toString n) ≠ none := by
        intro heq
        rw [heq] at hpreferred
        exact hpreferred rfl
      obtain ⟨assignment, hmem, heq⟩ := leading_of_preferred hsome
      exact .inr (List.mem_map.mpr ⟨assignment, hmem, heq⟩)
  have hle := ((List.nodup_range' (s := 1)).subperm hsub).length_le
  rw [List.length_range', List.length_append, List.length_map, List.length_map] at hle
  omega

/-- **A bootstrap always finds a name.** -/
theorem bootstrapName_isSome (order : IterationOrder Entity) (s : Desktop) (output : Entity) :
    ∃ name, s.bootstrapName order output = some name := by
  obtain ⟨name, hmem, hsuits⟩ := exists_candidate order s output
  obtain ⟨found, hfound⟩ := Option.isSome_iff_exists.mp (List.find?_isSome.mpr ⟨name, hmem, hsuits⟩)
  rw [bootstrapName, hfound]
  generalize ((((s.settings.assignments.filter fun assignment =>
      decide (s.preferredOutput order assignment.workspace = some output)).map (·.workspace)) ++
        s.settings.initialNames).find? (s.suits order output)) = first
  cases first with
  | none => exact ⟨found, rfl⟩
  | some first => exact ⟨first, rfl⟩

/-- **The name is a name, nobody has it, and it is not assigned to another output.** -/
theorem bootstrapName_suits (h : s.bootstrapName order output = some name) :
    name ≠ "" ∧ s.suits order output name = true := by
  rcases Option.or_eq_some_iff.mp h with hlisted | ⟨-, hnumber⟩
  · refine ⟨?_, List.find?_some hlisted⟩
    rcases List.mem_append.mp (List.mem_of_find?_eq_some hlisted) with hassigned | hinitial
    · obtain ⟨assignment, hmem, rfl⟩ := List.mem_map.mp hassigned
      exact s.settings.assignments_named assignment (List.mem_of_mem_filter hmem)
    · exact s.settings.initialNames_named name hinitial
  · refine ⟨?_, List.find?_some hnumber⟩
    obtain ⟨n, -, rfl⟩ := List.mem_map.mp (List.mem_of_find?_eq_some hnumber)
    exact toString_ne_empty n

end

end I3
