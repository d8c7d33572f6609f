/-
**Kinds of configuration lines.**

A logical line is classified by its words alone: the last word may be a brace, and a brace may stand on
a line of its own.  Two shapes of lines have no kind, and are reported at the brace.

Main definitions: `Reads`, `Kind`, `Unclassifiable`.

Main results:

* `report_diagnostic` — a report at a slice of the source does not panic;
* `classifyLine_spec` — a line is classified as its text says, or has no kind and is
  reported.
-/

import Weld.ConfigLines

namespace SwayConfig

open SourceText SourceText

/-! ### Reports -/

section
variable {source piece : Text} {span : Range}

/-- The line of a place starts behind a line feed. -/
theorem exists_lineStart (before : Text) :
    ∃ first last, before = first ++ last ∧
      (rfind '\n' before).elim 0 (· + 1) = byteLength first := by
  cases hfind : rfind '\n' before with
  | none => exact ⟨[], before, rfl, rfl⟩
  | some offset =>
      obtain ⟨first, last, rfl, rfl⟩ := rfind_eq_some hfind
      refine ⟨first ++ ['\n'], last, by simp, ?_⟩
      rw [byteLength_append]
      rfl

/-- The line of a place ends at a line feed, or with the source. -/
theorem exists_lineEnd (before after : Text) :
    ∃ first last, after = first ++ last ∧
      (find '\n' after).elim (byteLength (before ++ after)) (byteLength before + ·) =
        byteLength before + byteLength first := by
  cases hfind : find '\n' after with
  | none => exact ⟨after, [], (List.append_nil _).symm, byteLength_append _ _⟩
  | some offset =>
      obtain ⟨first, last, rfl, rfl⟩ := find_eq_some hfind
      exact ⟨first, '\n' :: last, rfl, rfl⟩

/-- **A diagnostic at a slice of the source exists.** -/
theorem diagnostic_new (h : slice source span = some piece) (sourceName : Text)
    (kind : DiagnosticKind) :
    ∃ diagnostic, Diagnostic.new sourceName source span kind = some diagnostic ∧
      diagnostic.kind = kind ∧ diagnostic.span = span := by
  obtain ⟨before, after, rfl, hstart, hstop⟩ := slice_eq_some_iff.mp h
  obtain ⟨first, last, hbefore, hlineStart⟩ := exists_lineStart before
  obtain ⟨inside, beyond, hafter, hlineEnd⟩ := exists_lineEnd before (piece ++ after)
  have hprefix : slice (before ++ piece ++ after) ⟨0, byteLength before⟩ = some before :=
    slice_eq_some_iff.mpr ⟨[], piece ++ after, by simp, rfl, (Nat.zero_add _).symm⟩
  have hrest : slice (before ++ piece ++ after)
      ⟨byteLength before, byteLength (before ++ piece ++ after)⟩ = some (piece ++ after) :=
    slice_eq_some_iff.mpr ⟨before, [], by simp, rfl, by rw [List.append_assoc, byteLength_append]⟩
  have hlinePrefix : slice (before ++ piece ++ after)
      ⟨byteLength first, byteLength before⟩ = some last :=
    slice_eq_some_iff.mpr ⟨first, piece ++ after, by rw [hbefore]; simp, rfl,
      by rw [hbefore, byteLength_append]⟩
  have hline : slice (before ++ piece ++ after)
      ⟨byteLength first, byteLength before + byteLength inside⟩ = some (last ++ inside) := by
    refine slice_eq_some_iff.mpr ⟨first, beyond, ?_, rfl, ?_⟩
    · rw [List.append_assoc before, hafter, hbefore]
      simp
    · rw [hbefore, byteLength_append, byteLength_append]
      exact Nat.add_assoc _ _ _
  -- the marked part ends with the span or with the line, whichever comes first
  have hmarked : ∃ marked, slice (before ++ piece ++ after)
      ⟨byteLength before, min (byteLength before + byteLength piece)
        (byteLength before + byteLength inside)⟩ = some marked := by
    rcases List.append_eq_append_iff.mp hafter with ⟨excess, hover, -⟩ | ⟨excess, hover, -⟩
    · refine ⟨piece, slice_eq_some_iff.mpr ⟨before, after, rfl, rfl, ?_⟩⟩
      rw [hover, byteLength_append]
      exact Nat.min_eq_left (by omega)
    · refine ⟨inside, slice_eq_some_iff.mpr ⟨before, excess ++ after, by rw [hover]; simp, rfl, ?_⟩⟩
      rw [hover, byteLength_append]
      exact Nat.min_eq_right (by omega)
  obtain ⟨marked, hmarked⟩ := hmarked
  obtain ⟨start, stop⟩ := span
  subst hstart hstop
  have hlineEnd' : (find '\n' (piece ++ after)).elim (byteLength (before ++ piece ++ after))
      (byteLength before + ·) = byteLength before + byteLength inside := by
    rw [List.append_assoc]
    exact hlineEnd
  rw [Diagnostic.new]
  simp only [Option.bind_eq_bind, hprefix, Option.bind_some, hrest, hlineStart, hlineEnd',
    hlinePrefix, hline, hmarked, Option.some.injEq, exists_eq_left', and_self]

/-- The failures that the parser may report. -/
def Reported (failure : Failure) : Prop :=
  ∃ diagnostic, failure = .diagnostic diagnostic ∧ diagnostic.kind ≠ .invalidArgument

/-- **A report at a slice of the source does not panic.** -/
theorem report_diagnostic {α : Type} (h : slice source span = some piece)
    (sourceName : Text) {kind : DiagnosticKind} (hkind : kind ≠ .invalidArgument) :
    ∃ failure, (report sourceName source span kind : Except Failure α) = .error failure ∧
      Reported failure := by
  obtain ⟨diagnostic, hnew, hof, -⟩ := diagnostic_new h sourceName kind
  refine ⟨.diagnostic diagnostic, ?_, diagnostic, rfl, ?_⟩
  · rw [report, hnew]
  · rw [hof]
    exact hkind

end

/-! ### Statements -/

/-- **The spelling of a statement.**  Every part of it is exact, and the name and the arguments are the
words of the header. -/
structure Reads (source : Text) (header name : RawText) (arguments : List RawText) : Prop where
  exact : header.Exact source
  words : ∀ word ∈ name :: arguments, word.Exact source
  covers : wordsOf header.text = (name :: arguments).map RawText.text

variable {source : Text}

/-- The words of a line up to one of them are a statement. -/
theorem statement_reads {line : RawText} {words front back : List Word} (h : line.Faithful source)
    (hcut : Cut 0 line.text (words.map fun word => (word.logicalRange, word.raw.text)))
    (hall : ∀ word ∈ words, word.raw.Faithful source) (hwords : words = front ++ back)
    (hfront : front ≠ []) :
    ∃ header name arguments, statement source line front =
        .ok (some (.mk header name arguments none)) ∧
      Reads source header name arguments ∧
      (name :: arguments).map RawText.text = front.map fun word => word.raw.text := by
  cases front with
  | nil => exact absurd rfl hfront
  | cons first front =>
      have hlast : ((first :: front).map fun word => (word.logicalRange, word.raw.text)).getLast? =
          some (((first :: front).getLast (List.cons_ne_nil _ _)).logicalRange,
            ((first :: front).getLast (List.cons_ne_nil _ _)).raw.text) := by
        rw [List.getLast?_map, List.getLast?_eq_some_getLast (List.cons_ne_nil _ _)]
        rfl
      obtain ⟨gap, extent, rest, htext, hgap, -, hstart, hstop, hof⟩ :=
        hcut.front (by rw [hwords, List.map_append]) rfl hlast
      obtain ⟨header, hheader, hheadertext, hfaithful⟩ := RawText.slice_faithful h
        (⟨first.logicalRange.start,
          ((first :: front).getLast (List.cons_ne_nil _ _)).logicalRange.stop⟩) htext
        (by rw [hstart, Nat.zero_add]) hstop
      refine ⟨header, first.raw, front.map Word.raw, ?_, ⟨hfaithful.exact, ?_, ?_⟩, ?_⟩
      · rw [statement, hheader]
        rfl
      · intro word hword
        rw [← List.map_cons (f := Word.raw)] at hword
        obtain ⟨found, hfound, rfl⟩ := List.mem_map.mp hword
        refine (hall found ?_).exact
        rw [hwords]
        exact List.mem_append_left _ hfound
      · rw [hheadertext, hof]
        simp
      · simp

/-! ### Kinds -/

abbrev openingBrace : Text := ['\x7b']

abbrev closingBrace : Text := ['\x7d']

/-- **The kind of a line**, by its text and by whether it was continued. -/
inductive Kind (source : Text) : Text → Bool → LineKind → Prop
  | blank : Kind source [] false .blank
  | continuedBlank : Kind source [] true .lookaheadBarrier
  | comment {text : Text} {had : Bool} (h : text.head? = some '#') :
      Kind source text had .lookaheadBarrier
  | statement {text : Text} {had : Bool} {header name : RawText} {arguments : List RawText}
      (hcomment : text.head? ≠ some '#')
      (hwords : wordsOf text = (name :: arguments).map RawText.text)
      (hlast : (wordsOf text).getLast? ≠ some openingBrace ∧
        (wordsOf text).getLast? ≠ some closingBrace)
      (hreads : Reads source header name arguments) :
      Kind source text had (.statement (.mk header name arguments none) (!endsInBrace text))
  | blockHeader {text : Text} {had : Bool} {header name : RawText} {arguments : List RawText}
      {opening : Range} (hcomment : text.head? ≠ some '#')
      (hwords : wordsOf text = (name :: arguments).map RawText.text ++ [openingBrace])
      (hreads : Reads source header name arguments)
      (hopening : slice source opening = some openingBrace) :
      Kind source text had (.blockHeader (.mk header name arguments none) opening)
  | openPrevious {text : Text} {opening : Range} (hwords : wordsOf text = [openingBrace])
      (hopening : slice source opening = some openingBrace) :
      Kind source text false (.openPrevious opening)
  | closeBlock {text : Text} {had : Bool} {closing : Range} (hwords : wordsOf text = [closingBrace])
      (hclosing : slice source closing = some closingBrace) :
      Kind source text had (.closeBlock closing)

/-- The lines without a kind: words before a closing brace, and a lone opening brace behind a
continuation. -/
def Unclassifiable (text : Text) (had : Bool) : Prop :=
  text.head? ≠ some '#' ∧
    ((∃ words, words ≠ [] ∧ wordsOf text = words ++ [closingBrace]) ∨
      (had = true ∧ wordsOf text = [openingBrace]))

/-- A line that is not empty has a word, unless it begins with a space. -/
theorem Cut.ne_nil {offset : ℕ} {text : Text} {words : List (Range × Text)}
    (h : Cut offset text words) (hne : text ≠ [])
    (hhead : ∀ c ∈ text.head?, isSpace c = false) : words ≠ [] := by
  rintro rfl
  cases h with
  | done hgap =>
      obtain ⟨c, text, rfl⟩ := List.exists_cons_of_ne_nil hne
      have hspace := hgap c List.mem_cons_self
      rw [hhead c rfl] at hspace
      cases hspace

/-- What the classification of a line comes to. -/
def Classified (source text : Text) (had : Bool) (result : Except Failure LineKind) : Prop :=
  (∃ kind, result = .ok kind ∧ Kind source text had kind) ∨
    (Unclassifiable text had ∧ ∃ failure, result = .error failure ∧ Reported failure)

/-- The words of a line decide its kind. -/
theorem classifyWords_spec {line : LogicalLine} {front : List Word} {last : Word}
    (h : line.spelling.Faithful source) (sourceName : Text) (hcut : Cut 0 line.spelling.text ((front
      ++ [last]).map fun word => (word.logicalRange, word.raw.text)))
    (hall : ∀ word ∈ front ++ [last], word.raw.Faithful source)
    (hcomment : line.spelling.text.head? ≠ some '#') :
    Classified source line.spelling.text line.hadContinuation
      (classifyWords sourceName source line (front ++ [last]) last) := by
  have hof : wordsOf line.spelling.text =
      (front.map fun word => word.raw.text) ++ [last.raw.text] := by
    rw [hcut.wordsOf_eq]
    simp
  have hlength : (front ++ [last]).length = 1 ↔ front = [] := by
    rw [List.length_append, List.length_singleton, Nat.add_eq_right, List.length_eq_zero_iff]
  have hlastraw := hall last (List.mem_append_right _ List.mem_cons_self)
  rw [classifyWords]
  by_cases hclosing : last.raw.text = closingBrace
  · have hslice := hlastraw.envelope hclosing
    rw [if_pos hclosing]
    rw [hclosing] at hof
    by_cases hone : front = []
    · rw [if_pos (hlength.mpr hone)]
      rw [hone] at hof
      exact .inl ⟨_, rfl, .closeBlock hof hslice⟩
    · rw [if_neg (mt hlength.mp hone)]
      refine .inr ⟨⟨hcomment, .inl ⟨_, ?_, hof⟩⟩, report_diagnostic hslice sourceName (by decide)⟩
      simpa using hone
  rw [if_neg hclosing]
  by_cases hopening : last.raw.text = openingBrace
  · have hslice := hlastraw.envelope hopening
    rw [if_pos hopening]
    rw [hopening] at hof
    by_cases hone : front = []
    · rw [if_pos (hlength.mpr hone)]
      rw [hone] at hof
      by_cases hhad : line.hadContinuation = true
      · rw [if_pos hhad]
        exact .inr ⟨⟨hcomment, .inr ⟨hhad, hof⟩⟩, report_diagnostic hslice sourceName (by decide)⟩
      · rw [if_neg hhad, Bool.eq_false_of_not_eq_true hhad]
        exact .inl ⟨_, rfl, .openPrevious hof hslice⟩
    · rw [if_neg (mt hlength.mp hone), List.dropLast_concat]
      obtain ⟨header, name, arguments, hstatement, hreads, htexts⟩ :=
        statement_reads h hcut hall rfl hone
      rw [hstatement]
      refine .inl ⟨_, rfl, .blockHeader hcomment ?_ hreads hslice⟩
      rw [hof, htexts]
  · rw [if_neg hopening]
    obtain ⟨header, name, arguments, hstatement, hreads, htexts⟩ :=
      statement_reads h hcut hall (List.append_nil _).symm (by simp)
    rw [hstatement]
    refine .inl ⟨_, rfl, .statement hcomment ?_ ?_ hreads⟩
    · rw [hof, htexts]
      simp
    · rw [hof, List.getLast?_concat]
      exact ⟨by simpa using hopening, by simpa using hclosing⟩

/-- **A line is classified as its text says, or has no kind and is reported.** -/
theorem classifyLine_spec {line : LogicalLine} (h : line.spelling.Faithful source)
    (hhead : ∀ c ∈ line.spelling.text.head?, isSpace c = false) (sourceName : Text) :
    Classified source line.spelling.text line.hadContinuation
      (classifyLine sourceName source line) := by
  rw [classifyLine]
  by_cases hempty : line.spelling.text = []
  · rw [hempty]
    by_cases hhad : line.hadContinuation = true
    · rw [hhad]
      exact .inl ⟨_, rfl, .continuedBlank⟩
    · rw [Bool.eq_false_of_not_eq_true hhad]
      exact .inl ⟨_, rfl, .blank⟩
  · have hfalse : line.spelling.text.isEmpty = false := by simpa using hempty
    rw [hfalse, Bool.false_and, if_neg Bool.false_ne_true]
    by_cases hcomment : line.spelling.text.head? = some '#'
    · rw [if_pos (by simpa using hcomment)]
      exact .inl ⟨_, rfl, .comment hcomment⟩
    · rw [if_neg (by simpa using hcomment)]
      obtain ⟨words, hwords, hcut, hall⟩ := arguments_cut h sourceName
      have hne : words ≠ [] := by
        have hmapped := hcut.ne_nil hempty hhead
        simpa using hmapped
      obtain ⟨front, last, rfl⟩ := List.eq_nil_or_concat words |>.resolve_left hne
      rw [List.concat_eq_append] at *
      rw [hwords]
      dsimp only [Except.bind]
      rw [List.getLast?_concat]
      exact classifyWords_spec h sourceName hcut hall hcomment

end SwayConfig
