/-
**Text that is addressed by bytes.**

A string holds characters and is sliced by byte offsets in their encoding.  A slice whose ends are not
on boundaries of characters does not exist, and asking for one stops the program.

Main definitions: `byteLength`, `splitBytes`, `slice`, `find`, `rfind`, `splitInclusive`.

Main results:

* `slice_eq_some_iff` — a slice is a piece of the text, at its place;
* `flatten_splitInclusive` — cutting into lines loses nothing.
-/

import Mathlib.Algebra.GroupWithZero.Nat
import Mathlib.Algebra.Order.BigOperators.Group.List

namespace SourceText

abbrev Text := List Char

/-- A half-open range of byte offsets. -/
structure Range where
  start : ℕ
  stop : ℕ
  deriving DecidableEq, Repr

def Range.length (range : Range) : ℕ := range.stop - range.start

/-! ### Bytes -/

def byteLength (text : Text) : ℕ := (text.map Char.utf8Size).sum

@[simp] theorem byteLength_nil : byteLength [] = 0 := rfl

@[simp] theorem byteLength_cons (c : Char) (text : Text) :
    byteLength (c :: text) = c.utf8Size + byteLength text := rfl

@[simp] theorem byteLength_append (text more : Text) :
    byteLength (text ++ more) = byteLength text + byteLength more := by
  simp [byteLength]

variable {text piece : Text} {range : Range}

theorem byteLength_pos (h : text ≠ []) : 0 < byteLength text := by
  cases text with
  | nil => exact absurd rfl h
  | cons c text =>
      have hsize := c.utf8Size_pos
      rw [byteLength_cons]
      omega

theorem byteLength_eq_zero : byteLength text = 0 ↔ text = [] := by
  constructor
  · intro h
    by_contra hne
    have hpos := byteLength_pos hne
    omega
  · rintro rfl
    rfl

/-! ### Slices -/

/-- Cut a text at a byte offset, which has to be on a boundary. -/
def splitBytes : Text → ℕ → Option (Text × Text)
  | text, 0 => some ([], text)
  | [], _ + 1 => none
  | c :: text, n + 1 =>
      if c.utf8Size ≤ n + 1 then
        (splitBytes text (n + 1 - c.utf8Size)).map fun parts => (c :: parts.1, parts.2)
      else
        none

/-- The piece of a text between two byte offsets. -/
def slice (text : Text) (range : Range) : Option Text :=
  if range.start ≤ range.stop then
    (splitBytes text range.start).bind fun parts =>
      (splitBytes parts.2 (range.stop - range.start)).map Prod.fst
  else
    none

@[simp] theorem splitBytes_zero (text : Text) : splitBytes text 0 = some ([], text) := by
  cases text <;> rfl

theorem splitBytes_append (before after : Text) :
    splitBytes (before ++ after) (byteLength before) = some (before, after) := by
  induction before with
  | nil => exact splitBytes_zero after
  | cons c before ih =>
      have hpos := c.utf8Size_pos
      obtain ⟨n, hn⟩ : ∃ n, c.utf8Size + byteLength before = n + 1 :=
        ⟨c.utf8Size + byteLength before - 1, by omega⟩
      have hrest : n + 1 - c.utf8Size = byteLength before := by omega
      rw [List.cons_append, byteLength_cons, hn, splitBytes, if_pos (by omega), hrest, ih]
      rfl

theorem splitBytes_spec {before after : Text} {n : ℕ} (h : splitBytes text n = some (before, after)) :
    text = before ++ after ∧ n = byteLength before := by
  induction text generalizing n before with
  | nil =>
      cases n with
      | zero =>
          cases h
          exact ⟨rfl, rfl⟩
      | succ n => cases h
  | cons c text ih =>
      cases n with
      | zero =>
          cases h
          exact ⟨rfl, rfl⟩
      | succ n =>
          rw [splitBytes] at h
          by_cases hfits : c.utf8Size ≤ n + 1
          · rw [if_pos hfits] at h
            obtain ⟨⟨first, second⟩, hrest, heq⟩ := Option.map_eq_some_iff.mp h
            cases heq
            obtain ⟨htext, hlength⟩ := ih hrest
            refine ⟨by rw [htext, List.cons_append], ?_⟩
            show n + 1 = byteLength (c :: first)
            rw [byteLength_cons]
            omega
          · rw [if_neg hfits] at h
            cases h

/-- **A slice is a piece of the text, at its place.** -/
theorem slice_eq_some_iff :
    slice text range = some piece ↔ ∃ before after, text = before ++ piece ++ after ∧
      range.start = byteLength before ∧ range.stop = byteLength before + byteLength piece := by
  constructor
  · intro h
    rw [slice] at h
    by_cases hle : range.start ≤ range.stop
    · rw [if_pos hle] at h
      obtain ⟨⟨before, rest⟩, hfirst, hsecond⟩ := Option.bind_eq_some_iff.mp h
      obtain ⟨⟨found, after⟩, hrest, heq⟩ := Option.map_eq_some_iff.mp hsecond
      cases heq
      obtain ⟨htext, hstart⟩ := splitBytes_spec hfirst
      obtain ⟨hparts, hlength⟩ := splitBytes_spec hrest
      have hparts' : rest = found ++ after := hparts
      refine ⟨before, after, ?_, hstart, ?_⟩
      · rw [htext, hparts', List.append_assoc]
      · show range.stop = byteLength before + byteLength found
        omega
    · rw [if_neg hle] at h
      cases h
  · rintro ⟨before, after, rfl, hstart, hstop⟩
    rw [slice, if_pos (by omega), hstart, List.append_assoc, splitBytes_append, Option.bind_some,
      hstop, Nat.add_sub_cancel_left, splitBytes_append]
    rfl

/-- A slice is as long as its range. -/
theorem byteLength_of_slice (h : slice text range = some piece) :
    range.start ≤ range.stop ∧ byteLength piece = range.length := by
  obtain ⟨before, after, -, hstart, hstop⟩ := slice_eq_some_iff.mp h
  rw [Range.length]
  omega

/-- A piece of a slice is a slice. -/
theorem slice_of_slice (before after : Text)
    (h : slice text range = some (before ++ piece ++ after)) :
    slice text ⟨range.start + byteLength before,
      range.start + byteLength before + byteLength piece⟩ = some piece := by
  obtain ⟨first, last, htext, hstart, -⟩ := slice_eq_some_iff.mp h
  refine slice_eq_some_iff.mpr ⟨first ++ before, after ++ last, ?_, ?_, ?_⟩
  · rw [htext]
    simp only [List.append_assoc]
  · rw [byteLength_append, hstart]
  · rw [byteLength_append, hstart]

/-! ### Places of a character -/

/-- The byte offset of the first place of a character. -/
def find (sought : Char) : Text → Option ℕ
  | [] => none
  | c :: text => if c = sought then some 0 else (find sought text).map (c.utf8Size + ·)

/-- The byte offset of the last place of a character. -/
def rfind (sought : Char) : Text → Option ℕ
  | [] => none
  | c :: text =>
      match rfind sought text with
      | some offset => some (c.utf8Size + offset)
      | none => if c = sought then some 0 else none

theorem find_eq_some {sought : Char} {offset : ℕ} (h : find sought text = some offset) :
    ∃ before after, text = before ++ sought :: after ∧ offset = byteLength before := by
  induction text generalizing offset with
  | nil => cases h
  | cons c text ih =>
      rw [find] at h
      by_cases hc : c = sought
      · rw [if_pos hc] at h
        cases h
        exact ⟨[], text, by rw [hc]; rfl, rfl⟩
      · rw [if_neg hc] at h
        obtain ⟨inner, hinner, rfl⟩ := Option.map_eq_some_iff.mp h
        obtain ⟨before, after, rfl, rfl⟩ := ih hinner
        exact ⟨c :: before, after, rfl, rfl⟩

theorem rfind_eq_some {sought : Char} {offset : ℕ} (h : rfind sought text = some offset) :
    ∃ before after, text = before ++ sought :: after ∧ offset = byteLength before := by
  induction text generalizing offset with
  | nil => cases h
  | cons c text ih =>
      rw [rfind] at h
      cases hinner : rfind sought text with
      | some inner =>
          rw [hinner] at h
          cases h
          obtain ⟨before, after, rfl, rfl⟩ := ih hinner
          exact ⟨c :: before, after, rfl, rfl⟩
      | none =>
          rw [hinner] at h
          by_cases hc : c = sought
          · simp only [if_pos hc] at h
            cases h
            exact ⟨[], text, by rw [hc]; rfl, rfl⟩
          · simp only [if_neg hc] at h
            cases h

/-! ### Lines -/

/-- Cut a text after each line feed. -/
def splitInclusive : Text → List Text
  | [] => []
  | c :: text =>
      if c = '\n' then
        [c] :: splitInclusive text
      else
        match splitInclusive text with
        | [] => [[c]]
        | line :: lines => (c :: line) :: lines

theorem flatten_splitInclusive (text : Text) : (splitInclusive text).flatten = text := by
  induction text with
  | nil => rfl
  | cons c text ih =>
      rw [splitInclusive]
      by_cases h : c = '\n'
      · rw [if_pos h, List.flatten_cons, ih]
        rfl
      · rw [if_neg h]
        cases hlines : splitInclusive text with
        | nil | cons =>
            rw [hlines] at ih
            rw [← ih]
            rfl

end SourceText
