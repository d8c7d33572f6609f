/-
**Where the spelling of a configuration comes from.**

Text that was assembled from several segments of the source is cut by logical offsets, and the cut is
mapped back to segments.  Nothing may be lost on the way: a cut of a faithful spelling is a faithful
spelling of the cut.

Main definitions: `Spelled`, `RawText.Faithful`, `RawText.Exact`.

Main results:

* `Spelled.pick` — the segments that a logical range picks spell that part of the text;
* `RawText.slice_faithful` — mapping a range back never fails, and is faithful.
-/

import Weld.ConfigSyntax

namespace SwayConfig

open SourceText

/-- Segments of the source that spell a text, from a logical offset on. -/
inductive Spelled (source : Text) : ℕ → List Range → List ℕ → Text → Prop
  | nil (base : ℕ) : Spelled source base [] [] []
  | cons {base : ℕ} {segment : Range} {piece : Text} {segments : List Range} {starts : List ℕ}
      {text : Text} (hslice : SourceText.slice source segment = some piece)
      (rest : Spelled source (base + byteLength piece) segments starts text) :
      Spelled source base (segment :: segments) (base :: starts) (piece ++ text)

/-- One segment lies behind the other. -/
def Before (earlier later : Range) : Prop := earlier.stop ≤ later.start

/-- **A spelling is the concatenation of its segments**, which exist, lie one behind the other and do
not overlap. -/
def RawText.Exact (source : Text) (raw : RawText) : Prop :=
  raw.segments.Pairwise Before ∧
    ∃ pieces, List.Forall₂ (fun segment piece => SourceText.slice source segment = some piece)
      raw.segments pieces ∧ raw.text = pieces.flatten

/-- A spelling whose logical offsets are right as well, and none of whose segments is empty. -/
structure RawText.Faithful (source : Text) (raw : RawText) : Prop where
  spelled : Spelled source 0 raw.segments raw.logicalStarts raw.text
  ordered : raw.segments.Pairwise Before
  extents : ∀ segment ∈ raw.segments, segment.start < segment.stop

open RawText

section
variable {source text before piece after : Text} {base : ℕ} {segments : List Range}
  {starts : List ℕ} {range : Range}

/-! ### Building a spelling -/

variable (h : Spelled source base segments starts text)
include h

theorem assemble_of_spelled (sofar : Text) (noted : List ℕ) (hbase : base = byteLength sofar) :
    assemble source segments sofar noted = some (sofar ++ text, noted ++ starts) := by
  induction h generalizing sofar noted with
  | nil base => simp [assemble]
  | @cons base segment piece segments starts text hslice rest ih =>
      rw [assemble, hslice, Option.bind_some,
        ih (sofar ++ piece) _ (by rw [hbase, byteLength_append]), hbase]
      simp only [List.append_assoc, List.singleton_append]

omit h in
theorem new_of_spelled (h : Spelled source 0 segments starts text) :
    new source segments = some ⟨text, segments, starts⟩ := by
  rw [new, assemble_of_spelled h [] [] rfl]
  rfl

theorem Spelled.forall₂ :
    ∃ pieces, List.Forall₂ (fun segment piece => SourceText.slice source segment = some piece)
      segments pieces ∧ text = pieces.flatten := by
  induction h with
  | nil base => exact ⟨[], .nil, rfl⟩
  | @cons base segment piece segments starts text hslice rest ih =>
      obtain ⟨pieces, hpieces, rfl⟩ := ih
      exact ⟨piece :: pieces, .cons hslice hpieces, rfl⟩

variable {raw : RawText} {pairs : List (Range × ℕ)}

omit h in
theorem RawText.Faithful.exact (h : raw.Faithful source) : raw.Exact source :=
  ⟨h.ordered, h.spelled.forall₂⟩

/-- Spell a further segment. -/
theorem Spelled.snoc {segment : Range} (hslice : SourceText.slice source segment = some piece) :
    Spelled source base (segments ++ [segment]) (starts ++ [base + byteLength text])
      (text ++ piece) := by
  induction h with
  | nil base =>
      have hone : Spelled source base [segment] [base] (piece ++ []) := .cons hslice (.nil _)
      rwa [List.append_nil] at hone
  | @cons base first found segments starts text hfirst rest ih =>
      rw [byteLength_append, ← Nat.add_assoc, List.append_assoc]
      exact .cons hfirst ih

/-! ### Picking segments -/

/-- Nothing is picked at or behind the end of the range. -/
theorem pick_eq_nil (hstop : range.stop ≤ base) : pick range (segments.zip starts) = [] := by
  cases h with
  | nil base => rfl
  | cons hslice rest =>
      rw [List.zip_cons_cons, pick, if_pos hstop]

omit h in
/-- A segment that ends before the range is not picked. -/
theorem pick_of_stop_le_start {segment : Range} {others : List (Range × ℕ)} {start : ℕ}
    (h : start + segment.length ≤ range.start) (hstop : start < range.stop) :
    pick range ((segment, start) :: others) = pick range others := by
  rw [pick, if_neg (by omega)]
  rw [if_neg (by omega)]

omit h in
/-- A range without extent picks nothing. -/
theorem pick_of_stop_le (h : range.stop ≤ range.start) : pick range pairs = [] := by
  induction pairs with
  | nil => rfl
  | cons pair pairs ih =>
      obtain ⟨segment, start⟩ := pair
      rw [pick]
      by_cases hstop : range.stop ≤ start
      · rw [if_pos hstop]
      · rw [if_neg hstop]
        rw [if_neg (by omega), ih]

/-- From the start of the range on, the segments are picked up to its end. -/
theorem spelled_pick_to (htext : text = piece ++ after) (hstart : range.start ≤ base)
    (hstop : range.stop = base + byteLength piece) (logical : ℕ) :
    ∃ starts', Spelled source logical (pick range (segments.zip starts)) starts' piece := by
  induction h generalizing piece logical with
  | nil base =>
      obtain ⟨rfl, -⟩ := List.append_eq_nil_iff.mp htext.symm
      exact ⟨[], .nil _⟩
  | @cons base segment found segments starts text hslice rest ih =>
      obtain ⟨hle, hlength⟩ := byteLength_of_slice hslice
      rw [Range.length] at hlength
      rcases List.eq_nil_or_concat piece with rfl | ⟨init, last, hpiece⟩
      · rw [pick_eq_nil (.cons hslice rest) (by rw [hstop, byteLength_nil]; exact Nat.le_refl _)]
        exact ⟨[], .nil _⟩
      have hpos : 0 < byteLength piece := byteLength_pos (by rw [hpiece]; simp)
      rw [List.zip_cons_cons, pick, if_neg (by omega), Range.length]
      rw [Nat.max_eq_right hstart]
      rcases List.append_eq_append_iff.mp htext with ⟨tail, htail, htext'⟩ | ⟨tail, htail, hafter⟩
      · -- the segment lies within the range
        have hsum : byteLength piece = byteLength found + byteLength tail := by
          rw [htail, byteLength_append]
        rw [Nat.min_eq_right (by omega)]
        obtain ⟨starts', hstarts'⟩ := ih htext' (by omega) (by omega) (logical + byteLength found)
        by_cases hempty : base < base + (segment.stop - segment.start)
        · rw [if_pos hempty, Nat.sub_self, Nat.add_zero, Nat.add_sub_cancel_left,
            Nat.add_sub_cancel' hle, htail]
          exact ⟨_, .cons hslice hstarts'⟩
        · have hfound : found = [] := byteLength_eq_zero.mp (by omega)
          rw [if_neg hempty, htail, hfound, List.nil_append]
          rw [hfound, byteLength_nil, Nat.add_zero] at hstarts'
          exact ⟨_, hstarts'⟩
      · -- the range ends within the segment
        have hsum : byteLength found = byteLength piece + byteLength tail := by
          rw [htail, byteLength_append]
        rw [Nat.min_eq_left (by omega), if_pos (by omega), Nat.sub_self, Nat.add_zero, hstop,
          Nat.add_sub_cancel_left, pick_eq_nil rest (by omega)]
        have hcut : SourceText.slice source ⟨segment.start, segment.start + byteLength piece⟩ =
            some piece := slice_of_slice [] tail (by rw [hslice, htail]; rfl)
        have hone : Spelled source logical _ [logical] (piece ++ []) := .cons hcut (.nil _)
        rw [List.append_nil] at hone
        exact ⟨_, hone⟩

/-- **The segments that a logical range picks spell that part of the text.** -/
theorem Spelled.pick (htext : text = before ++ (piece ++ after))
    (hstart : range.start = base + byteLength before)
    (hstop : range.stop = range.start + byteLength piece) (logical : ℕ) :
    ∃ starts', Spelled source logical (pick range (segments.zip starts)) starts' piece := by
  rcases List.eq_nil_or_concat piece with rfl | ⟨init, last, hpiece⟩
  · rw [pick_of_stop_le (by rw [hstop, byteLength_nil]; exact Nat.le_refl _)]
    exact ⟨[], .nil _⟩
  have hpos : 0 < byteLength piece := byteLength_pos (by rw [hpiece]; simp)
  induction h generalizing before logical with
  | nil base =>
      obtain ⟨-, hrest⟩ := List.append_eq_nil_iff.mp htext.symm
      obtain ⟨rfl, -⟩ := List.append_eq_nil_iff.mp hrest
      exact ⟨[], .nil _⟩
  | @cons base segment found segments starts text hslice rest ih =>
      obtain ⟨hle, hlength⟩ := byteLength_of_slice hslice
      rcases List.append_eq_append_iff.mp htext with ⟨tail, htail, htext'⟩ | ⟨tail, htail, hafter⟩
      · -- the segment lies before the range
        have hsum : byteLength before = byteLength found + byteLength tail := by
          rw [htail, byteLength_append]
        rw [List.zip_cons_cons, pick_of_stop_le_start (by omega) (by omega)]
        exact ih htext' (by omega) logical
      · have hsum : byteLength found = byteLength before + byteLength tail := by
          rw [htail, byteLength_append]
        rw [Range.length] at hlength
        rw [List.zip_cons_cons, pick, if_neg (by omega), Range.length]
        rw [Nat.max_eq_left (by omega)]
        rcases List.append_eq_append_iff.mp hafter with ⟨excess, hover, -⟩ | ⟨excess, hover, hrest⟩
        · -- the range ends within this segment
          have hextent : byteLength tail = byteLength piece + byteLength excess := by
            rw [hover, byteLength_append]
          have hcut : SourceText.slice source ⟨segment.start + byteLength before,
              segment.start + byteLength before + byteLength piece⟩ = some piece :=
            slice_of_slice before excess (by rw [hslice, htail, hover, List.append_assoc])
          have hleft : range.start - base = byteLength before := by omega
          have hright : segment.start + (range.stop - base) =
              segment.start + byteLength before + byteLength piece := by omega
          rw [Nat.min_eq_left (by omega), if_pos (by omega), hleft, hright,
            pick_eq_nil rest (by omega)]
          have hone : Spelled source logical _ [logical] (piece ++ []) := .cons hcut (.nil _)
          rw [List.append_nil] at hone
          exact ⟨_, hone⟩
        · -- the range goes from this segment into the next
          have hextent : byteLength piece = byteLength tail + byteLength excess := by
            rw [hover, byteLength_append]
          rw [Nat.min_eq_right (by omega)]
          have hnext : ∃ starts', Spelled source (logical + byteLength tail)
              (pick range (segments.zip starts)) starts' excess :=
            spelled_pick_to rest hrest (by omega) (by omega) _
          obtain ⟨starts', hstarts'⟩ := hnext
          by_cases hempty : range.start < base + (segment.stop - segment.start)
          · have hcut : SourceText.slice source ⟨segment.start + byteLength before,
                segment.start + byteLength before + byteLength tail⟩ = some tail :=
              slice_of_slice before [] (by rw [hslice, htail, List.append_nil])
            have hleft : range.start - base = byteLength before := by omega
            have hright : segment.start + (base + (segment.stop - segment.start) - base) =
                segment.start + byteLength before + byteLength tail := by omega
            rw [if_pos hempty, hleft, hright, hover]
            exact ⟨_, .cons hcut hstarts'⟩
          · have htailnil : tail = [] := byteLength_eq_zero.mp (by omega)
            rw [if_neg hempty, hover, htailnil, List.nil_append]
            rw [htailnil, byteLength_nil, Nat.add_zero] at hstarts'
            exact ⟨_, hstarts'⟩

omit h

/-! ### Skipping segments -/

/-- The segments that are skipped would not have been picked. -/
theorem pick_drop (range : Range) (h : Spelled source base segments starts text) {skipped : ℕ}
    (hskipped : skipped = (starts.takeWhile (· ≤ range.start)).length - 1) :
    pick range ((segments.drop skipped).zip (starts.drop skipped)) =
      pick range (segments.zip starts) := by
  rcases Nat.lt_or_ge range.start range.stop with hextent | hextent
  swap
  · rw [pick_of_stop_le hextent, pick_of_stop_le hextent]
  induction h generalizing skipped with
  | nil base => simp
  | @cons base segment found segments starts text hslice rest ih =>
      obtain ⟨hle, hlength⟩ := byteLength_of_slice hslice
      by_cases hbase : base ≤ range.start
      · rw [List.takeWhile_cons_of_pos (by simpa using hbase), List.length_cons,
          Nat.add_sub_cancel] at hskipped
        cases skipped with
        | zero => rfl
        | succ skipped =>
            rw [List.drop_succ_cons, List.drop_succ_cons, @ih skipped (by omega),
              List.zip_cons_cons, pick_of_stop_le_start ?_ (by omega)]
            -- the next segment starts within reach, so this one ends there
            cases rest with
            | nil base => simp at hskipped
            | @cons _ _ next segments starts text hnext rest =>
                by_cases hreach : base + byteLength found ≤ range.start
                · omega
                · rw [List.takeWhile_cons_of_neg (by simpa using hreach)] at hskipped
                  simp at hskipped
      · rw [List.takeWhile_cons_of_neg (by simpa using hbase)] at hskipped
        rw [hskipped]
        rfl

/-! ### Order -/

/-- What is picked lies within the segments. -/
theorem mem_pick {cut : Range} (h : cut ∈ pick range pairs)
    (hsound : ∀ pair ∈ pairs, pair.1.start ≤ pair.1.stop) :
    ∃ pair ∈ pairs, pair.1.start ≤ cut.start ∧ cut.stop ≤ pair.1.stop := by
  induction pairs with
  | nil => cases h
  | cons pair pairs ih =>
      obtain ⟨segment, start⟩ := pair
      have hothers : cut ∈ pick range pairs →
          ∃ pair ∈ (segment, start) :: pairs,
            pair.1.start ≤ cut.start ∧ cut.stop ≤ pair.1.stop := by
        intro hmem
        obtain ⟨other, hother, hwithin⟩ :=
          ih hmem fun pair hpair => hsound pair (List.mem_cons_of_mem _ hpair)
        exact ⟨other, List.mem_cons_of_mem _ hother, hwithin⟩
      rw [pick] at h
      by_cases hstop : range.stop ≤ start
      · rw [if_pos hstop] at h
        cases h
      rw [if_neg hstop] at h
      dsimp only at h
      split at h
      · rcases List.mem_cons.mp h with rfl | h
        · refine ⟨_, List.mem_cons_self, ?_, ?_⟩
          · exact Nat.le_add_right _ _
          · dsimp only [Range.length] at *
            omega
        · exact hothers h
      · exact hothers h

/-- What is picked is not empty. -/
theorem pick_extents : ∀ cut ∈ pick range pairs, cut.start < cut.stop := by
  induction pairs with
  | nil => simp [pick]
  | cons pair pairs ih =>
      obtain ⟨segment, start⟩ := pair
      intro cut hcut
      rw [pick] at hcut
      by_cases hstop : range.stop ≤ start
      · rw [if_pos hstop] at hcut
        cases hcut
      rw [if_neg hstop] at hcut
      dsimp only at hcut
      split at hcut
      · rcases List.mem_cons.mp hcut with rfl | hcut
        · dsimp only
          omega
        · exact ih cut hcut
      · exact ih cut hcut

/-- What is picked keeps the order of the segments. -/
theorem pick_ordered (h : (pairs.map Prod.fst).Pairwise Before)
    (hsound : ∀ pair ∈ pairs, pair.1.start ≤ pair.1.stop) :
    (pick range pairs).Pairwise Before := by
  induction pairs with
  | nil => exact .nil
  | cons pair pairs ih =>
      obtain ⟨segment, start⟩ := pair
      obtain ⟨hfirst, hothers⟩ := List.pairwise_cons.mp h
      have hrest := ih hothers fun pair hpair => hsound pair (List.mem_cons_of_mem _ hpair)
      rw [pick]
      by_cases hstop : range.stop ≤ start
      · rw [if_pos hstop]
        exact .nil
      rw [if_neg hstop]
      dsimp only
      split
      · refine List.pairwise_cons.mpr ⟨fun cut hcut => ?_, hrest⟩
        obtain ⟨other, hother, hwithin, -⟩ :=
          mem_pick hcut fun pair hpair => hsound pair (List.mem_cons_of_mem _ hpair)
        have hbefore : segment.stop ≤ other.1.start := hfirst _ (List.mem_map_of_mem hother)
        show _ ≤ _
        dsimp only [Range.length] at *
        omega
      · exact hrest

theorem Spelled.sound (h : Spelled source base segments starts text) :
    segments.length = starts.length ∧ ∀ segment ∈ segments, segment.start ≤ segment.stop := by
  induction h with
  | nil base => exact ⟨rfl, by simp⟩
  | cons hslice rest ih =>
      refine ⟨by rw [List.length_cons, List.length_cons, ih.1], ?_⟩
      intro segment hmem
      rcases List.mem_cons.mp hmem with rfl | hmem
      · exact (byteLength_of_slice hslice).1
      · exact ih.2 segment hmem

/-! ### Slices of a spelling -/

/-- **Mapping a range back never fails, and is faithful.** -/
theorem RawText.slice_faithful (h : raw.Faithful source) (range : Range)
    (htext : raw.text = before ++ (piece ++ after)) (hstart : range.start = byteLength before)
    (hstop : range.stop = range.start + byteLength piece) :
    ∃ cut, raw.slice source range = some cut ∧ cut.text = piece ∧ cut.Faithful source := by
  have hdrop := pick_drop range h.spelled (rfl : raw.first range = _)
  obtain ⟨starts, hstarts⟩ := h.spelled.pick htext (by omega) hstop 0
  obtain ⟨hlength, hsound⟩ := h.spelled.sound
  refine ⟨⟨piece, _, starts⟩, ?_, rfl, ⟨hstarts, ?_, pick_extents⟩⟩
  · rw [slice, hdrop, new_of_spelled hstarts]
  · refine pick_ordered ?_ ?_
    · rw [List.map_fst_zip (by omega)]
      exact h.ordered
    · intro pair hpair
      exact hsound _ (List.of_mem_zip hpair).1

/-- One character of the source is spelled by one segment, which is its extent. -/
theorem RawText.Faithful.envelope {c : Char} (h : raw.Faithful source)
    (htext : raw.text = [c]) : SourceText.slice source (envelope raw) = some [c] := by
  obtain ⟨text, segments, starts⟩ := raw
  obtain ⟨hspelled, -, hextents⟩ := h
  have hnonempty : ∀ {segment : Range} {piece : Text}, segment ∈ segments →
      SourceText.slice source segment = some piece → piece ≠ [] := by
    rintro segment piece hmem hslice rfl
    have hlength := byteLength_of_slice hslice
    have hextent := hextents segment hmem
    rw [Range.length, byteLength_nil] at hlength
    omega
  cases hspelled with
  | nil => cases htext
  | @cons _ segment piece segments starts text hslice rest =>
      have hpiece := hnonempty List.mem_cons_self hslice
      obtain ⟨d, tail, rfl⟩ := List.exists_cons_of_ne_nil hpiece
      obtain ⟨rfl, hnil⟩ := List.cons.inj htext
      obtain ⟨rfl, rfl⟩ := List.append_eq_nil_iff.mp hnil
      cases hrest : segments with
      | nil => exact hslice
      | cons next others =>
          generalize hmore : ([] : Text) = more at rest
          subst hrest
          cases rest with
          | @cons _ _ found _ _ _ hnext _ =>
              obtain ⟨rfl, -⟩ := List.append_eq_nil_iff.mp hmore.symm
              exact absurd rfl (hnonempty (List.mem_cons_of_mem _ List.mem_cons_self) hnext)

end

end SwayConfig
