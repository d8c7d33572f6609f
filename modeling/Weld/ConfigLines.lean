/-
**Logical lines of a configuration.**

A physical line that ends in a backslash is joined with the one behind it, unless it is a comment that
starts at column zero of its logical line.  The assembly keeps the segments that were joined, and a
logical line is trimmed by cutting them.

Main definitions: `Joins`, `LogicalTexts`, `Assembling`.

Main results:

* `assembleLine_joins` — the assembly joins what has to be joined;
* `logicalLines_spec` — the logical lines exist, say what the joined lines say, and are
  faithful.
-/

import Weld.ConfigArguments

namespace SwayConfig

open SourceText

/-! ### Joined lines -/

/-- The physical line is a comment: it starts its logical line, at column zero. -/
def IsComment (joined part : Text) : Prop := joined = [] ∧ part.head? = some '#'

/-- **Continuation joining.**  Behind the text that was joined so far, the physical lines continue it to
a logical line, tell whether there was a continuation, and leave the others. -/
inductive Joins : Text → List Text → Text → Bool → List Text → Prop
  | last {joined part : Text} {others : List Text}
      (h : IsComment joined part ∨ endsContinued part = false ∨ others = []) :
      Joins joined (part :: others) (joined ++ stripNewline part) false others
  | continued {joined body next text : Text} {had : Bool} {others left : List Text}
      (h : ¬IsComment joined (body ++ ['\\', '\n']))
      (rest : Joins (joined ++ body) (next :: others) text had left) :
      Joins joined ((body ++ ['\\', '\n']) :: next :: others) text true left

/-- A text without the space around it. -/
def trim (text : Text) : Text := trimEndMatches isSpace (text.dropWhile isSpace)

/-- The logical lines of physical lines: their trimmed text, and whether they were continued. -/
inductive LogicalTexts : List Text → List (Text × Bool) → Prop
  | nil : LogicalTexts [] []
  | cons {physical left : List Text} {text : Text} {had : Bool} {lines : List (Text × Bool)}
      (first : Joins [] physical text had left) (rest : LogicalTexts left lines) :
      LogicalTexts physical ((trim text, had) :: lines)

/-! ### Trimming -/

theorem trimEndMatches_append {kind : Char → Bool} {text more : Text}
    (h : trimEndMatches kind more ≠ []) :
    trimEndMatches kind (text ++ more) = text ++ trimEndMatches kind more := by
  have hsome : (more.reverse.dropWhile kind) ≠ [] := by
    intro hnil
    exact h (by rw [trimEndMatches, hnil]; rfl)
  rw [trimEndMatches, List.reverse_append, List.dropWhile_append]
  rw [if_neg (by simpa using hsome), List.reverse_append, List.reverse_reverse]
  rfl

theorem trimEndMatches_ne_nil {kind : Char → Bool} {c : Char} {text : Text}
    (h : kind c = false) : trimEndMatches kind (c :: text) ≠ [] := by
  rw [trimEndMatches, List.reverse_cons, List.dropWhile_append]
  split
  · simp [h]
  · simp

theorem exists_trimEnd (kind : Char → Bool) (text : Text) :
    ∃ gap, text = trimEndMatches kind text ++ gap := by
  refine ⟨(text.reverse.takeWhile kind).reverse, ?_⟩
  rw [trimEndMatches, ← List.reverse_append, List.takeWhile_append_dropWhile, List.reverse_reverse]

/-- Where the trimmed text stands. -/
theorem trim_place (text : Text) :
    ∃ gap rest, text = gap ++ (trim text ++ rest) ∧
      byteLength text - byteLength (text.dropWhile isSpace) = byteLength gap ∧
      max (byteLength (trimEndMatches isSpace text)) (byteLength gap) =
        byteLength gap + byteLength (trim text) := by
  obtain ⟨gap, htext, hgap⟩ := exists_gap text
  obtain ⟨rest, hrest⟩ := exists_trimEnd isSpace (text.dropWhile isSpace)
  have hlength : byteLength text = byteLength gap + byteLength (text.dropWhile isSpace) := by
    conv_lhs => rw [htext]
    rw [byteLength_append]
  refine ⟨gap, rest, ?_, by omega, ?_⟩
  · rw [trim, ← hrest]
    exact htext
  · cases hdropped : text.dropWhile isSpace with
    | nil =>
        rw [hdropped, List.append_nil] at htext
        obtain ⟨tail, htail⟩ := exists_trimEnd isSpace text
        have hle : byteLength (trimEndMatches isSpace text) ≤ byteLength gap := by
          rw [← htext]
          conv_rhs => rw [htail]
          rw [byteLength_append]
          omega
        have htrim : trim text = [] := by
          rw [trim, hdropped]
          rfl
        rw [Nat.max_eq_right hle, htrim]
        rfl
    | cons c dropped =>
        have hhead := List.head?_dropWhile_not isSpace text
        rw [hdropped] at hhead htext
        have hc : isSpace c = false := by simpa using hhead
        have htrim : trimEndMatches isSpace text = gap ++ trim text := by
          conv_lhs => rw [htext]
          rw [trimEndMatches_append (trimEndMatches_ne_nil hc), trim, hdropped]
        rw [htrim, byteLength_append]
        omega

/-- A trimmed text has no space at its start. -/
theorem trim_head (text : Text) : ∀ c ∈ (trim text).head?, isSpace c = false := by
  intro c hc
  obtain ⟨gap, hgap⟩ := exists_trimEnd isSpace (text.dropWhile isSpace)
  have hhead := List.head?_dropWhile_not isSpace text
  have htrim : (trim text).head? = some c := hc
  cases hcases : trim text with
  | nil =>
      rw [hcases] at htrim
      cases htrim
  | cons d rest =>
      rw [hcases] at htrim
      cases htrim
      rw [trim] at hcases
      rw [hgap, hcases] at hhead
      simpa using hhead

/-! ### Assembly -/

/-- Segments under assembly spell what was joined so far, in order, below the next physical line. -/
structure Assembling (source : Text) (offset : ℕ) (segments : List Range) (joined : Text) :
    Prop where
  spelled : ∃ starts, Spelled source 0 segments starts joined
  ordered : segments.Pairwise Before
  extents : ∀ segment ∈ segments, segment.start < segment.stop
  behind : ∀ segment ∈ segments, segment.stop ≤ offset
  empty : segments.isEmpty = joined.isEmpty

variable {source joined : Text} {offset : ℕ} {segments : List Range}

theorem Assembling.nil (source : Text) (offset : ℕ) : Assembling source offset [] [] where
  spelled := ⟨[], .nil 0⟩
  ordered := .nil
  extents := by simp
  behind := by simp
  empty := rfl

variable (h : Assembling source offset segments joined)
include h

theorem Assembling.mono (later : ℕ) (hle : offset ≤ later) : Assembling source later segments joined :=
  { h with behind := fun segment hmem => (h.behind segment hmem).trans hle }

theorem Assembling.push {piece : Text}
    (hslice : SourceText.slice source ⟨offset, offset + byteLength piece⟩ = some piece) :
    Assembling source (offset + byteLength piece)
      (pushSegment segments offset (byteLength piece)) (joined ++ piece) := by
  by_cases hempty : byteLength piece = 0
  · have hpiece : piece = [] := byteLength_eq_zero.mp hempty
    rw [pushSegment, if_neg (by omega), hpiece, List.append_nil]
    exact h.mono _ (Nat.le_add_right _ _)
  · obtain ⟨starts, hspelled⟩ := h.spelled
    rw [pushSegment, if_pos hempty]
    refine ⟨⟨_, hspelled.snoc hslice⟩, ?_, ?_, ?_, ?_⟩
    · refine List.pairwise_append.mpr ⟨h.ordered, List.pairwise_singleton _ _, ?_⟩
      intro segment hmem next hnext
      rw [List.mem_singleton.mp hnext]
      exact h.behind segment hmem
    · intro segment hmem
      rcases List.mem_append.mp hmem with hmem | hmem
      · exact h.extents segment hmem
      · rw [List.mem_singleton.mp hmem]
        exact Nat.lt_add_of_pos_right (Nat.pos_of_ne_zero hempty)
    · intro segment hmem
      rcases List.mem_append.mp hmem with hmem | hmem
      · exact (h.behind segment hmem).trans (Nat.le_add_right _ _)
      · rw [List.mem_singleton.mp hmem]
    · have hpiece : piece ≠ [] := fun hnil => hempty (by rw [hnil]; rfl)
      rw [Bool.eq_iff_iff, List.isEmpty_iff, List.isEmpty_iff]
      simp [hpiece]

variable {part : Text} {physical : List Text}

omit h in
theorem endsContinued_iff : endsContinued part = true ↔ ∃ body, part = body ++ ['\\', '\n'] := by
  rw [endsContinued, List.isSuffixOf_iff_suffix]
  constructor
  · rintro ⟨body, rfl⟩
    exact ⟨body, rfl⟩
  · rintro ⟨body, rfl⟩
    exact ⟨body, rfl⟩

omit h in
/-- What a physical line says without its line feed stands at its start. -/
theorem exists_stripNewline (part : Text) : ∃ rest, part = stripNewline part ++ rest := by
  rw [stripNewline]
  split
  · rename_i h
    refine ⟨['\n'], ?_⟩
    exact (List.dropLast_append_getLast? _ h).symm
  · exact ⟨[], (List.append_nil _).symm⟩

/-- The last physical line of a logical line. -/
theorem Assembling.stop {before : Text} (hsource : source = before ++ (part ++ physical.flatten))
    (hoffset : offset = byteLength before) :
    ∃ before', Assembling source (offset + byteLength part)
      (pushSegment segments offset (byteLength (stripNewline part))) (joined ++ stripNewline part) ∧
      source = before' ++ physical.flatten ∧ offset + byteLength part = byteLength before' := by
  obtain ⟨rest, hrest⟩ := exists_stripNewline part
  refine ⟨before ++ part, ?_, by rw [hsource, List.append_assoc],
    by rw [byteLength_append, hoffset]⟩
  have hslice : SourceText.slice source
      ⟨offset, offset + byteLength (stripNewline part)⟩ = some (stripNewline part) := by
    refine slice_eq_some_iff.mpr ⟨before, rest ++ physical.flatten, ?_, hoffset, by rw [hoffset]⟩
    rw [hsource]
    conv_lhs => rw [hrest]
    simp only [List.append_assoc]
  refine (h.push hslice).mono _ ?_
  conv_rhs => rw [hrest]
  rw [byteLength_append]
  omega

omit h in
/-- **The assembly joins what has to be joined.** -/
theorem assembleLine_joins {before : Text} {comment : Bool} (had : Bool)
    (h : Assembling source offset segments joined) (hcomment : comment = true ↔ IsComment joined part)
    (hsource : source = before ++ (part ++ physical.flatten)) (hoffset : offset = byteLength before) :
    ∃ text had' before',
      Joins joined (part :: physical) text had'
        (assembleLine offset part comment segments had physical).physical ∧
      (assembleLine offset part comment segments had physical).hadContinuation = (had || had') ∧
      Assembling source (assembleLine offset part comment segments had physical).offset
        (assembleLine offset part comment segments had physical).segments text ∧
      source = before' ++ (assembleLine offset part comment segments had physical).physical.flatten ∧
      (assembleLine offset part comment segments had physical).offset = byteLength before' := by
  induction physical generalizing offset part comment segments had joined before with
  | nil =>
      obtain ⟨before', hassembling, hleft, hbehind⟩ := h.stop hsource hoffset
      exact ⟨_, false, before', .last (.inr (.inr rfl)), (Bool.or_false had).symm, hassembling,
        hleft, hbehind⟩
  | cons next physical ih =>
      by_cases hcontinued : (!comment && endsContinued part) = true
      · rw [assembleLine, if_pos hcontinued]
        obtain ⟨hnot, hends⟩ := Bool.and_eq_true_iff.mp hcontinued
        obtain ⟨body, rfl⟩ := endsContinued_iff.mp hends
        have hfalse : comment = false := by simpa using hnot
        have hlength : byteLength (body ++ ['\\', '\n']) - 2 = byteLength body := by
          rw [byteLength_append]
          exact Nat.add_sub_cancel _ 2
        have hslice : SourceText.slice source ⟨offset, offset + byteLength body⟩ = some body := by
          refine slice_eq_some_iff.mpr
            ⟨before, ['\\', '\n'] ++ (next :: physical).flatten, ?_, hoffset, by rw [hoffset]⟩
          rw [hsource]
          simp only [List.append_assoc]
        have hpush := (h.push hslice).mono (offset + byteLength (body ++ ['\\', '\n']))
          (by rw [byteLength_append]; omega)
        have hnext : (if (pushSegment segments offset (byteLength body)).isEmpty then
            decide (next.head? = some '#') else comment) = true ↔ IsComment (joined ++ body) next := by
          rw [hpush.empty, hfalse, IsComment, ← List.isEmpty_iff]
          by_cases hempty : (joined ++ body).isEmpty = true
          · rw [if_pos hempty]
            simp [hempty]
          · rw [if_neg hempty]
            simp [hempty]
        rw [hlength]
        have hsource' : source =
            (before ++ (body ++ ['\\', '\n'])) ++ (next ++ physical.flatten) := by
          rw [hsource, List.flatten_cons]
          simp only [List.append_assoc]
        obtain ⟨text, had', before', hjoins, hhad, hassembling, hleft, hbehind⟩ :=
          ih true hpush hnext hsource' (by simp only [byteLength_append, hoffset])
        refine ⟨text, true, before', .continued ?_ hjoins, ?_, hassembling, hleft, hbehind⟩
        · rw [← hcomment, hfalse]
          exact Bool.false_ne_true
        · rw [hhad, Bool.true_or, Bool.or_true]
      · rw [assembleLine, if_neg hcontinued]
        obtain ⟨before', hassembling, hleft, hbehind⟩ := h.stop hsource hoffset
        refine ⟨_, false, before', .last ?_, (Bool.or_false had).symm, hassembling, hleft, hbehind⟩
        rw [Bool.and_eq_true_iff, not_and_or] at hcontinued
        rcases hcontinued with hcomment' | hends
        · exact .inl (hcomment.mp (by simpa using hcomment'))
        · exact .inr (.inl (by simpa using hends))

/-! ### Logical lines -/

/-- A trimmed line says what the joined text says, trimmed. -/
theorem Assembling.trimmedLine :
    ∃ raw, trimmedLine source segments = some raw ∧ raw.text = trim joined ∧
      raw.Faithful source := by
  obtain ⟨starts, hspelled⟩ := h.spelled
  obtain ⟨gap, rest, htext, hstart, hstop⟩ := trim_place joined
  rw [SwayConfig.trimmedLine, new_of_spelled hspelled, Option.bind_some]
  dsimp only
  rw [hstart, hstop]
  have hfaithful : RawText.Faithful source ⟨joined, segments, starts⟩ :=
    ⟨hspelled, h.ordered, h.extents⟩
  exact RawText.slice_faithful hfaithful _ htext rfl rfl

omit h

theorem linesFrom_spec (before : Text)
    (hsource : source = before ++ physical.flatten) (hoffset : offset = byteLength before) :
    ∃ lines, linesFrom source offset physical = some lines ∧
      LogicalTexts physical (lines.map fun line => (line.spelling.text, line.hadContinuation)) ∧
      ∀ line ∈ lines, line.spelling.Faithful source := by
  induction hlength : physical.length using Nat.strong_induction_on
    generalizing physical offset before with
  | h n ih =>
      cases physical with
      | nil => exact ⟨[], by rw [linesFrom], .nil, by simp⟩
      | cons part physical =>
          have hcomment : decide (part.head? = some '#') = true ↔ IsComment [] part := by
            simp [IsComment]
          obtain ⟨text, had, before', hjoins, hhad, hassembling, hleft, hbehind⟩ :=
            assembleLine_joins false (Assembling.nil source offset) hcomment hsource hoffset
          obtain ⟨spelling, hspelling, htext, hfaithful⟩ := hassembling.trimmedLine
          have hshorter := assembleLine_length offset part (part.head? = some '#') [] false physical
          rw [List.length_cons] at hlength
          obtain ⟨lines, hlines, htexts, hall⟩ := ih _ (by omega) before' hleft hbehind rfl
          refine ⟨⟨spelling, (false || had)⟩ :: lines, ?_, ?_, ?_⟩
          · rw [linesFrom]
            rw [hspelling, Option.bind_some, hlines, hhad]
            rfl
          · rw [List.map_cons, htext, Bool.false_or]
            exact .cons hjoins htexts
          · intro line hline
            rcases List.mem_cons.mp hline with rfl | hline
            · exact hfaithful
            · exact hall line hline

/-- **The logical lines exist, say what the joined lines say, and are faithful.** -/
theorem logicalLines_spec (source : Text) :
    ∃ lines, logicalLines source = some lines ∧
      LogicalTexts (splitInclusive source)
        (lines.map fun line => (line.spelling.text, line.hadContinuation)) ∧
      ∀ line ∈ lines, line.spelling.Faithful source :=
  linesFrom_spec [] (flatten_splitInclusive source).symm rfl

/-- A logical line does not begin with a space. -/
theorem LogicalTexts.head {lines : List (Text × Bool)} (h : LogicalTexts physical lines) :
    ∀ line ∈ lines, ∀ c ∈ line.1.head?, isSpace c = false := by
  induction h with
  | nil => simp
  | @cons physical left text had lines first rest ih =>
      intro line hline
      rcases List.mem_cons.mp hline with rfl | hline
      · exact trim_head text
      · exact ih line hline

end SwayConfig
