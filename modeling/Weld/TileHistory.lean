/-
**The history of the focus.**

The history is one list for all levels, and an edit changes it by index.  This module says what the
changes do to the list, and to the active one of some siblings: the first sibling in the list, or the
first sibling.  A branch that is expanded hands its rank to its children, and the child that was active
below it comes first.  A branch that is replaced by one child, or wrapped around one, is a case of this.

Main definitions: `activeOf`.

Main results:

* `filter_wrapHistory`, `filter_replaceHistory`, `filter_expandHistory` — the order of other nodes;
* `activeOf_expandHistory` — the active sibling, after a branch is expanded;
* `nodup_wrapHistory`, `nodup_expandHistory` — no node occurs twice.
-/

import Weld.TileForest

namespace Tile

/-! ### Indices -/

section Indices

variable {α : Type*}

theorem findIdx?_split {p : α → Bool} {front back : List α} {x : α} (hx : p x = true)
    (hfront : ∀ y ∈ front, p y = false) : (front ++ x :: back).findIdx? p = some front.length := by
  induction front with
  | nil => rw [List.nil_append, List.findIdx?_cons, if_pos hx, List.length_nil]
  | cons y front ih =>
      rw [List.cons_append, List.findIdx?_cons, hfront y List.mem_cons_self, if_neg Bool.false_ne_true,
        ih fun z hz => hfront z (List.mem_cons_of_mem y hz), Option.map_some, List.length_cons]

theorem insertIdx_split (front back : List α) (x : α) :
    (front ++ back).insertIdx front.length x = front ++ x :: back := by
  induction front with
  | nil => rfl
  | cons y front ih => rw [List.cons_append, List.length_cons, List.insertIdx_succ_cons, ih, List.cons_append]

end Indices

variable {front back history children : List Entity} {n child g old : Entity} {p : Entity → Bool}

theorem findIdx?_eq (hn : n ∉ front) :
    (front ++ n :: back).findIdx? (fun m => m = n) = some front.length :=
  findIdx?_split (decide_eq_true rfl) fun _ hm => decide_eq_false fun heq => hn (heq ▸ hm)

theorem findIdx?_none (hn : n ∉ history) : history.findIdx? (fun m => m = n) = none :=
  List.findIdx?_eq_none_iff.mpr fun _ hm => decide_eq_false fun heq => hn (heq ▸ hm)

/-! ### What the changes do -/

theorem wrapHistory_split (hchild : child ∉ front) :
    wrapHistory (front ++ child :: back) child g = front ++ g :: child :: back := by
  rw [wrapHistory, findIdx?_eq hchild]
  exact insertIdx_split front (child :: back) g

theorem wrapHistory_of_notMem (hchild : child ∉ history) :
    wrapHistory history child g = history := by
  rw [wrapHistory, findIdx?_none hchild]

/-- The recorded children, and then the others. -/
def orderedChildren (history children : List Entity) : List Entity :=
  children.foldl (fun ordered child => if child ∈ ordered then ordered else ordered ++ [child])
    (history.filter (· ∈ children))

theorem foldl_push {P : List Entity → Prop}
    (hpush : ∀ ordered, ∀ child ∈ children, child ∉ ordered → P ordered → P (ordered ++ [child]))
    {ordered : List Entity} (h : P ordered) :
    P (children.foldl (fun ordered child =>
      if child ∈ ordered then ordered else ordered ++ [child]) ordered) := by
  induction children generalizing ordered with
  | nil => exact h
  | cons child children ih =>
      rw [List.foldl_cons]
      refine ih (fun ordered other hother => hpush ordered other (List.mem_cons_of_mem child hother)) ?_
      split_ifs with hmem
      · exact h
      · exact hpush ordered child List.mem_cons_self hmem h

theorem nodup_orderedChildren (h : history.Nodup) (children : List Entity) :
    (orderedChildren history children).Nodup := by
  refine foldl_push (fun ordered child _ hchild hordered => ?_) (h.filter _)
  exact List.nodup_append'.mpr ⟨hordered, List.nodup_singleton child,
    fun x hx heq => hchild (List.mem_singleton.mp heq ▸ hx)⟩

theorem mem_of_mem_orderedChildren (h : n ∈ orderedChildren history children) : n ∈ children := by
  have hall : ∀ m ∈ orderedChildren history children, m ∈ children :=
    foldl_push (P := fun ordered => ∀ m ∈ ordered, m ∈ children)
      (fun ordered child hchild _ hordered m hm => by
        rcases List.mem_append.mp hm with hm | hm
        · exact hordered m hm
        · exact List.mem_singleton.mp hm ▸ hchild)
      fun m hm => of_decide_eq_true (List.mem_filter.mp hm).2
  exact hall n h

theorem head?_foldl_push (children ordered : List Entity) : (children.foldl (fun ordered child =>
      if child ∈ ordered then ordered else ordered ++ [child]) ordered).head? =
      ordered.head?.or children.head? := by
  induction children generalizing ordered with
  | nil => rw [List.foldl_nil, List.head?_nil, Option.or_none]
  | cons child children ih =>
      rw [List.foldl_cons, ih]
      cases ordered with
      | nil => rw [if_neg List.not_mem_nil]; rfl
      | cons first rest =>
          split_ifs
          · rfl
          · rfl

theorem filter_split (hold : old ∉ front) (back : List Entity) (p : Entity → Bool) :
    (front ++ old :: back).filter (fun node => node ≠ old ∧ p node = true) =
      front.filter p ++ back.filter fun node => node ≠ old ∧ p node = true := by
  rw [List.filter_append, List.filter_cons_of_neg (by simp)]
  congr 1
  refine List.filter_congr fun node hnode => ?_
  have hne : node ≠ old := fun heq => hold (heq ▸ hnode)
  simp [hne]

theorem expandHistory_split (hold : old ∉ front) :
    expandHistory (front ++ old :: back) old children =
      front.filter (· ∉ children) ++ orderedChildren (front ++ old :: back) children ++
        back.filter fun node => node ≠ old ∧ node ∉ children := by
  rw [expandHistory, findIdx?_eq hold]
  have hkept := filter_split hold back fun node => decide (node ∉ children)
  simp only [decide_eq_true_eq] at hkept
  dsimp only
  rw [List.take_left, hkept, List.take_left, List.drop_left]
  rfl

theorem expandHistory_of_notMem
    (hold : old ∉ history) : expandHistory history old children = history := by
  rw [expandHistory, findIdx?_none hold]

theorem replaceHistory_none_split (hold : old ∉ front) :
    replaceHistory (front ++ old :: back) old none = front ++ back.filter (· ≠ old) := by
  rw [replaceHistory, findIdx?_eq hold]
  dsimp only
  rw [List.filter_append, List.filter_cons_of_neg (by simp)]
  congr 1
  · exact List.filter_eq_self.mpr fun node hnode => decide_eq_true
      ⟨fun heq => hold (heq ▸ hnode), nofun⟩
  · refine List.filter_congr fun node _ => ?_
    simp

variable {replacement : Option Entity}

theorem replaceHistory_of_notMem (hold : old ∉ history) :
    replaceHistory history old replacement = history := by
  rw [replaceHistory, findIdx?_none hold]

/-- A replacement is an expansion to one child. -/
theorem replaceHistory_eq_expandHistory (hne : child ≠ old) (hnodup : history.Nodup) :
    replaceHistory history old (some child) = expandHistory history old [child] := by
  by_cases hold : old ∈ history
  · obtain ⟨front, back, rfl, hfront⟩ := List.eq_append_cons_of_mem hold
    have hordered : orderedChildren (front ++ old :: back) [child] = [child] := by
      have hall : ∀ n ∈ orderedChildren (front ++ old :: back) [child], n = child :=
        fun n hn => List.mem_singleton.mp (mem_of_mem_orderedChildren hn)
      have hhead : (orderedChildren (front ++ old :: back) [child]).head? ≠ none := by
        rw [orderedChildren, head?_foldl_push]
        cases ((front ++ old :: back).filter (· ∈ [child])).head? with
        | none | some => nofun
      have hone : (orderedChildren (front ++ old :: back) [child]).Nodup :=
        nodup_orderedChildren hnodup [child]
      cases hcases : orderedChildren (front ++ old :: back) [child] with
      | nil => exact absurd (by rw [hcases]; rfl) hhead
      | cons first rest =>
          rw [hcases] at hall hone
          obtain rfl := hall first List.mem_cons_self
          have hrest : rest = [] := List.eq_nil_iff_forall_not_mem.mpr fun n hn =>
            (List.nodup_cons.mp hone).1 (hall n (List.mem_cons_of_mem first hn) ▸ hn)
          rw [hrest]
    rw [expandHistory_split hfront, hordered, replaceHistory, findIdx?_eq hfront]
    have hkept := filter_split hfront back fun node => decide (node ≠ child)
    simp only [decide_eq_true_eq] at hkept
    simp only [Option.some.injEq, List.take_left, ne_eq, List.mem_singleton] at hkept ⊢
    rw [hkept, insertIdx_split, List.append_assoc]
    rfl
  · rw [replaceHistory_of_notMem hold, expandHistory_of_notMem hold]

/-- Wrapping a node, and expanding the wrapper again. -/
theorem expandHistory_wrapHistory (hg : g ∉ history) (hne : child ≠ g) (hnodup : history.Nodup) :
    expandHistory (wrapHistory history child g) g [child] = history := by
  by_cases hchild : child ∈ history
  · obtain ⟨front, back, rfl, hfront⟩ := List.eq_append_cons_of_mem hchild
    have hgfront : g ∉ front := fun hmem => hg (List.mem_append_left _ hmem)
    have hback : child ∉ back := (List.nodup_cons.mp (List.nodup_append'.mp hnodup).2.1).1
    rw [wrapHistory_split hfront, ← replaceHistory_eq_expandHistory hne, replaceHistory,
      findIdx?_eq hgfront]
    · have hkept : (front ++ g :: child :: back).filter
          (fun node => node ≠ g ∧ some node ≠ some child) = front ++ back := by
        rw [List.filter_append, List.filter_cons_of_neg (by simp), List.filter_cons_of_neg (by simp)]
        congr 1
        · refine List.filter_eq_self.mpr fun n hn => decide_eq_true ⟨?_, fun heq => ?_⟩
          · exact fun heq => hgfront (heq ▸ hn)
          · exact hfront (Option.some.inj heq ▸ hn)
        · refine List.filter_eq_self.mpr fun n hn => decide_eq_true ⟨?_, fun heq => ?_⟩
          · exact fun heq => hg (List.mem_append_right _ (List.mem_cons_of_mem _ (heq ▸ hn)))
          · exact hback (Option.some.inj heq ▸ hn)
      have hfilter : front.filter (fun node => some node ≠ some child) = front :=
        List.filter_eq_self.mpr fun n hn => decide_eq_true fun heq =>
          hfront (Option.some.inj heq ▸ hn)
      dsimp only
      rw [hkept, List.take_left, hfilter, insertIdx_split]
    · rw [List.nodup_append'] at hnodup ⊢
      obtain ⟨hnf, hnb, hdisjoint⟩ := hnodup
      refine ⟨hnf, List.nodup_cons.mpr ⟨fun hmem => hg (List.mem_append_right _ hmem), hnb⟩, ?_⟩
      intro n hn hmem
      rcases List.mem_cons.mp hmem with rfl | hmem
      · exact hgfront hn
      · exact hdisjoint hn hmem
  · rw [wrapHistory_of_notMem hchild, expandHistory_of_notMem hg]

/-! ### The order of other nodes -/

theorem filter_wrapHistory
    (hg : p g = false) : (wrapHistory history child g).filter p = history.filter p := by
  by_cases hchild : child ∈ history
  · obtain ⟨front, back, rfl, hfront⟩ := List.eq_append_cons_of_mem hchild
    rw [wrapHistory_split hfront, List.filter_append, List.filter_append,
      List.filter_cons_of_neg (by rw [hg]; exact Bool.false_ne_true)]
  · rw [wrapHistory_of_notMem hchild]

theorem filter_expandHistory
    (hold : p old = false) (hchildren : ∀ child ∈ children, p child = false) :
    (expandHistory history old children).filter p = history.filter p := by
  by_cases hmem : old ∈ history
  · obtain ⟨front, back, rfl, hfront⟩ := List.eq_append_cons_of_mem hmem
    have hother : ∀ n, p n = true → n ∉ children ∧ n ≠ old := by
      intro n hn
      refine ⟨fun hin => ?_, ?_⟩
      · exact absurd (hn.symm.trans (hchildren n hin)) nofun
      · rintro rfl
        exact absurd (hn.symm.trans hold) nofun
    have hordered : (orderedChildren (front ++ old :: back) children).filter p = [] :=
      List.filter_eq_nil_iff.mpr fun n hn => by
        rw [hchildren n (mem_of_mem_orderedChildren hn)]
        exact Bool.false_ne_true
    rw [expandHistory_split hfront, List.filter_append, List.filter_append, hordered, List.append_nil,
      List.filter_append, List.filter_cons_of_neg (by rw [hold]; exact Bool.false_ne_true),
      List.filter_filter, List.filter_filter]
    congr 1
    · refine List.filter_congr fun n _ => ?_
      cases hn : p n with
      | false => rfl
      | true => simp [(hother n hn).1]
    · refine List.filter_congr fun n _ => ?_
      cases hn : p n with
      | false => rfl
      | true => simp [(hother n hn).1, (hother n hn).2]
  · rw [expandHistory_of_notMem hmem]

theorem filter_ne_self (h : old ∉ history) : history.filter (· ≠ old) = history :=
  List.filter_eq_self.mpr fun n hn => decide_eq_true fun heq : n = old => h (heq ▸ hn)

theorem replaceHistory_none : replaceHistory history old none = history.filter (· ≠ old) := by
  by_cases hmem : old ∈ history
  · obtain ⟨front, back, rfl, hfront⟩ := List.eq_append_cons_of_mem hmem
    rw [replaceHistory_none_split hfront, List.filter_append, List.filter_cons_of_neg (by simp)]
    rw [filter_ne_self hfront]
  · rw [replaceHistory_of_notMem hmem, filter_ne_self hmem]

theorem filter_replaceHistory_none
    (hold : p old = false) : (replaceHistory history old none).filter p = history.filter p := by
  rw [replaceHistory_none, List.filter_filter]
  refine List.filter_congr fun n _ => ?_
  cases hn : p n with
  | false => rfl
  | true =>
      have hne : n ≠ old := by
        rintro rfl
        exact absurd (hn.symm.trans hold) nofun
      simp [hne]

/-! ### The active sibling -/

/-- The first sibling that is recorded, or the first one. -/
def activeOf (history siblings : List Entity) : Option Entity :=
  (history.find? (· ∈ siblings)).or siblings.head?

theorem activeChild_eq (history : List Entity) (c : TileContainer) :
    activeChild history c = activeOf history c.entities := rfl

theorem activeOf_congr {history' siblings : List Entity}
    (h : history'.filter (· ∈ siblings) = history.filter (· ∈ siblings)) :
    activeOf history' siblings = activeOf history siblings := by
  rw [activeOf, activeOf, ← List.head?_filter, ← List.head?_filter, h]

theorem head?_orderedChildren (history children : List Entity) :
    (orderedChildren history children).head? = activeOf history children := by
  rw [orderedChildren, head?_foldl_push, List.head?_filter, activeOf]

/-- **The active sibling, after a branch is expanded**: if the branch was active, then what was active
below it. -/
theorem activeOf_expandHistory (front back : List Entity)
    (hrecorded : old ∉ history → ∀ child ∈ children, child ∉ history) (hchildren : children ≠ [])
    (hself : old ∉ children) (hold : old ∉ front) (hfront : ∀ child ∈ children, child ∉ front)
    (hback : ∀ child ∈ children, child ∉ back) :
    activeOf (expandHistory history old children) (front ++ children ++ back) =
      (activeOf history (front ++ old :: back)).bind fun n =>
        if n = old then activeOf history children else some n := by
  -- siblings other than the branch and its children are siblings before and after
  have hsame : ∀ n, n ≠ old → n ∉ children →
      (n ∈ front ++ children ++ back ↔ n ∈ front ++ old :: back) := by
    intro n hn hnc
    simp only [List.mem_append, List.mem_cons, hn, hnc, false_or, or_false]
  have hnotbefore : ∀ child ∈ children, child ∉ front ++ old :: back := by
    intro child hchild hmem
    rcases List.mem_append.mp hmem with hmem | hmem
    · exact hfront child hchild hmem
    · rcases List.mem_cons.mp hmem with rfl | hmem
      · exact hself hchild
      · exact hback child hchild hmem
  by_cases hmem : old ∈ history
  · obtain ⟨newer, older, rfl, hnewer⟩ := List.eq_append_cons_of_mem hmem
    have hfind : (newer.filter (· ∉ children)).find? (· ∈ front ++ children ++ back) =
        newer.find? (· ∈ front ++ old :: back) := by
      rw [← List.head?_filter, ← List.head?_filter, List.filter_filter]
      refine congrArg List.head? (List.filter_congr fun n hn => ?_)
      have hne : n ≠ old := fun heq => hnewer (heq ▸ hn)
      by_cases hnc : n ∈ children
      · rw [decide_eq_false (hnotbefore n hnc), decide_eq_false (not_not.mpr hnc), Bool.and_false]
      · rw [decide_eq_true hnc, Bool.and_true]
        exact decide_eq_decide.mpr (hsame n hne hnc)
    have hordered : (orderedChildren (newer ++ old :: older) children).find?
        (· ∈ front ++ children ++ back) = activeOf (newer ++ old :: older) children := by
      rw [← head?_orderedChildren, ← List.head?_filter]
      refine congrArg List.head? (List.filter_eq_self.mpr fun n hn => decide_eq_true ?_)
      exact List.mem_append_left back (List.mem_append_right front (mem_of_mem_orderedChildren hn))
    have hsome : activeOf (newer ++ old :: older) children ≠ none := by
      rw [activeOf]
      intro hnone
      exact hchildren (List.head?_eq_none_iff.mp (Option.or_eq_none_iff.mp hnone).2)
    have hbefore : activeOf (newer ++ old :: older) (front ++ old :: back) =
        (newer.find? (· ∈ front ++ old :: back)).or (some old) := by
      have hcons : (old :: older).find? (· ∈ front ++ old :: back) = some old :=
        List.find?_cons_of_pos (decide_eq_true (List.mem_append_right front List.mem_cons_self))
      rw [activeOf, List.find?_append, hcons, Option.or_assoc, Option.some_or]
    have hafter : activeOf (expandHistory (newer ++ old :: older) old children)
        (front ++ children ++ back) = (newer.find? (· ∈ front ++ old :: back)).or
          (activeOf (newer ++ old :: older) children) := by
      obtain ⟨n, hn⟩ := Option.ne_none_iff_exists'.mp hsome
      rw [expandHistory_split hnewer, activeOf, List.find?_append, List.find?_append, hfind, hordered,
        Option.or_assoc, Option.or_assoc, hn, Option.some_or]
    rw [hbefore, hafter]
    cases hfound : newer.find? (· ∈ front ++ old :: back) with
    | some n =>
        have hne : n ≠ old := fun heq => hnewer (heq ▸ List.mem_of_find?_eq_some hfound)
        simp only [Option.some_or, Option.bind_some, if_neg hne]
    | none => simp only [Option.none_or, Option.bind_some, if_true]
  · have hnone := hrecorded hmem
    have hfind : history.find? (· ∈ front ++ children ++ back) =
        history.find? (· ∈ front ++ old :: back) := by
      rw [← List.head?_filter, ← List.head?_filter]
      refine congrArg List.head? (List.filter_congr fun n hn => decide_eq_decide.mpr ?_)
      exact hsame n (fun heq => hmem (heq ▸ hn)) fun hnc => hnone n hnc hn
    have hunder : history.find? (· ∈ children) = none :=
      List.find?_eq_none.mpr fun n hn hnc => hnone n (of_decide_eq_true hnc) hn
    rw [expandHistory_of_notMem hmem, activeOf, activeOf, hfind]
    cases hfound : history.find? (· ∈ front ++ old :: back) with
    | some n =>
        have hne : n ≠ old := fun heq => hmem (heq ▸ List.mem_of_find?_eq_some hfound)
        simp only [Option.some_or, Option.bind_some, if_neg hne]
    | none =>
        rw [Option.none_or, Option.none_or, activeOf, hunder, Option.none_or]
        cases front with
        | nil =>
            obtain ⟨child, rest, rfl⟩ := List.exists_cons_of_ne_nil hchildren
            simp only [List.nil_append, List.cons_append, List.head?_cons, Option.bind_some, if_true]
        | cons first rest =>
            have hne : first ≠ old := fun heq => hold (heq ▸ List.mem_cons_self)
            simp only [List.cons_append, List.head?_cons, Option.bind_some, if_neg hne]

/-! ### No node occurs twice -/

theorem nodup_wrapHistory (hg : g ∉ history)
    (h : history.Nodup) : (wrapHistory history child g).Nodup := by
  by_cases hchild : child ∈ history
  · obtain ⟨front, back, rfl, hfront⟩ := List.eq_append_cons_of_mem hchild
    rw [wrapHistory_split hfront]
    obtain ⟨hnf, hnb, hdisjoint⟩ := List.nodup_append'.mp h
    refine List.nodup_append'.mpr ⟨hnf, List.nodup_cons.mpr
      ⟨fun hmem => hg (List.mem_append_right _ hmem), hnb⟩, fun n hn hmem => ?_⟩
    rcases List.mem_cons.mp hmem with rfl | hmem
    · exact hg (List.mem_append_left _ hn)
    · exact hdisjoint hn hmem
  · rw [wrapHistory_of_notMem hchild]
    exact h

theorem nodup_expandHistory (h : history.Nodup) : (expandHistory history old children).Nodup := by
  by_cases hmem : old ∈ history
  · obtain ⟨front, back, rfl, hfront⟩ := List.eq_append_cons_of_mem hmem
    have hordered := nodup_orderedChildren h children
    obtain ⟨hnf, hnb, hdisjoint⟩ := List.nodup_append'.mp h
    rw [expandHistory_split hfront]
    refine List.nodup_append'.mpr ⟨List.nodup_append'.mpr ⟨hnf.filter _, hordered, ?_⟩,
      (List.nodup_cons.mp hnb).2.filter _, ?_⟩
    · intro n hn hother
      exact of_decide_eq_true (List.mem_filter.mp hn).2 (mem_of_mem_orderedChildren hother)
    · intro n hn hother
      obtain ⟨hback, hkept⟩ := List.mem_filter.mp hother
      rcases List.mem_append.mp hn with hn | hn
      · exact hdisjoint (List.mem_filter.mp hn).1 (List.mem_cons_of_mem old hback)
      · exact (of_decide_eq_true hkept).2 (mem_of_mem_orderedChildren hn)
  · rw [expandHistory_of_notMem hmem]
    exact h

/-! ### What is recorded afterwards -/

theorem mem_of_mem_replaceHistory (h : n ∈ replaceHistory history old replacement) :
    n ∈ history ∨ replacement = some n := by
  rw [replaceHistory] at h
  split at h
  · exact .inl h
  · split at h
    · rcases List.eq_or_mem_of_mem_insertIdx h with rfl | hmem
      · exact .inr rfl
      · exact .inl (List.mem_of_mem_filter hmem)
    · exact .inl (List.mem_of_mem_filter h)

theorem mem_of_mem_wrapHistory (h : n ∈ wrapHistory history child g) : n ∈ history ∨ n = g := by
  rw [wrapHistory] at h
  split at h
  · exact (List.eq_or_mem_of_mem_insertIdx h).symm
  · exact .inl h

theorem mem_of_mem_expandHistory
    (h : n ∈ expandHistory history old children) : n ∈ history ∨ n ∈ children := by
  by_cases hmem : old ∈ history
  · obtain ⟨front, back, rfl, hfront⟩ := List.eq_append_cons_of_mem hmem
    rw [expandHistory_split hfront] at h
    rcases List.mem_append.mp h with h | h
    · rcases List.mem_append.mp h with h | h
      · exact .inl (List.mem_append_left _ (List.mem_filter.mp h).1)
      · exact .inr (mem_of_mem_orderedChildren h)
    · exact .inl (List.mem_append_right _ (List.mem_cons_of_mem old (List.mem_filter.mp h).1))
  · rw [expandHistory_of_notMem hmem] at h
    exact .inl h

end Tile
