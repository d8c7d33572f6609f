/-
**The parser accepts the brace grammar, and keeps its places.**

The logical lines of a source always exist.  Parsing them never panics and never gives up on an
argument; it succeeds exactly where every line has a kind and the kinds form a container, and the tree
it returns is spelled by the source.

Main definitions: `Statement.Traced`.

Main results:

* `accept_spec` — the stack machine fails with a report only;
* `Container.traced` — what the grammar builds of the lines of a source is traced;
* `parse_accepts_the_brace_grammar`.
-/

import Weld.ConfigGrammar

namespace SwayConfig

open SourceText BlockAssembler

/-! ### Provenance of the tree -/

/-- **A statement whose spelling and braces stand in the source**, with everything inside it. -/
inductive Statement.Traced (source : Text) : Statement → Prop
  | plain {header name : RawText} {arguments : List RawText}
      (h : Reads source header name arguments) :
      Statement.Traced source (.mk header name arguments none)
  | block {header name : RawText} {arguments : List RawText} {opening closing : Range}
      {statements : List Statement} (h : Reads source header name arguments)
      (hopening : SourceText.slice source opening = some openingBrace)
      (hclosing : SourceText.slice source closing = some closingBrace)
      (hinside : ∀ statement ∈ statements, Statement.Traced source statement) :
      Statement.Traced source (.mk header name arguments (some (.mk opening closing statements)))

/-- The kind is that of some line. -/
def OfLine (source : Text) (kind : LineKind) : Prop := ∃ text had, Kind source text had kind

/-- **What the grammar builds of the lines of a source is traced.** -/
theorem Container.traced {source : Text} {room : ℕ} {kinds : List LineKind}
    {statements : List Statement} (h : Container room kinds statements)
    (hkinds : ∀ kind ∈ kinds, OfLine source kind) :
    ∀ statement ∈ statements, statement.Traced source := by
  induction h with
  | empty => simp
  | blank rest ih | barrier rest ih => exact ih (List.forall_mem_cons.mp hkinds).2
  | @statement room statement allows kinds statements rest ih =>
      obtain ⟨⟨text, had, hkind⟩, hothers⟩ := List.forall_mem_cons.mp hkinds
      refine List.forall_mem_cons.mpr ⟨?_, ih hothers⟩
      cases hkind with
      | statement hcomment hwords hlast hreads => exact .plain hreads
  | @sameLine room statement opening closing body kinds children statements inside rest ihi ihr =>
      obtain ⟨⟨text, had, hheader⟩, hothers⟩ := List.forall_mem_cons.mp hkinds
      obtain ⟨hbody, hbehind⟩ := List.forall_mem_append.mp hothers
      obtain ⟨⟨text', had', hclose⟩, hrest⟩ := List.forall_mem_cons.mp hbehind
      refine List.forall_mem_cons.mpr ⟨?_, ihr hrest⟩
      cases hheader with
      | blockHeader hcomment hwords hreads hopening =>
          cases hclose with
          | closeBlock hclosed hclosing => exact .block hreads hopening hclosing (ihi hbody)
  | @nextLine room blanks statement opening closing body kinds children statements inside rest
      ihi ihr =>
      obtain ⟨⟨text, had, hheader⟩, hothers⟩ := List.forall_mem_cons.mp hkinds
      obtain ⟨-, hbrace⟩ := List.forall_mem_append.mp hothers
      obtain ⟨⟨text', had', hopen⟩, hinside⟩ := List.forall_mem_cons.mp hbrace
      obtain ⟨hbody, hbehind⟩ := List.forall_mem_append.mp hinside
      obtain ⟨⟨text'', had'', hclose⟩, hrest⟩ := List.forall_mem_cons.mp hbehind
      refine List.forall_mem_cons.mpr ⟨?_, ihr hrest⟩
      generalize true = allows at hheader
      cases hheader with
      | statement hcomment hwords hlast hreads =>
          cases hopen with
          | openPrevious hopened hopening =>
              cases hclose with
              | closeBlock hclosed hclosing => exact .block hreads hopening hclosing (ihi hbody)

/-! ### Failures of the machine -/

/-- The braces of the open blocks stand in the source. -/
def BlockAssembler.Sound (source : Text) (assembler : BlockAssembler) : Prop :=
  ∀ opening ∈ assembler.stack.map OpenBlock.opening,
    SourceText.slice source opening = some openingBrace

/-- Either a result that is as it should be, or a failure that is reported. -/
def Answers {α : Type} (good : α → Prop) (result : Except Failure α) : Prop :=
  (∃ a, result = .ok a ∧ good a) ∨ ∃ failure, result = .error failure ∧ Reported failure

variable {lines : List LogicalLine} {sourceName : Text}

section
variable {source : Text} {assembler : BlockAssembler} {statement : Statement} {opening : Range}

@[simp] theorem setChildren_openings (statements : List Statement) :
    (assembler.setChildren statements).stack.map OpenBlock.opening =
      assembler.stack.map OpenBlock.opening := by
  rw [setChildren]
  cases hstack : assembler.stack with
  | nil | cons => rfl

theorem Answers.bind {α β : Type} {good : α → Prop} {better : β → Prop}
    {first : Except Failure α} {next : α → Except Failure β} (h : Answers good first)
    (hnext : ∀ a, good a → Answers better (next a)) : Answers better (first.bind next) := by
  rcases h with ⟨a, rfl, ha⟩ | ⟨failure, rfl, hfailure⟩
  · exact hnext a ha
  · exact .inr ⟨failure, rfl, hfailure⟩

section

variable (h : assembler.Sound source)
include h

theorem openBlock_spec (sourceName : Text)
    (hopening : SourceText.slice source opening = some openingBrace) :
    Answers (Sound source) (openBlock sourceName source assembler statement opening) := by
  rw [openBlock]
  by_cases hfull : assembler.stack.length = MAX_BLOCK_DEPTH
  · rw [if_pos hfull]
    exact .inr (report_diagnostic hopening sourceName (by decide))
  · rw [if_neg hfull]
    refine .inl ⟨_, rfl, ?_⟩
    rw [Sound, List.map_cons]
    exact List.forall_mem_cons.mpr ⟨hopening, h⟩

/-- **The stack machine fails with a report only.** -/
theorem accept_spec {text : Text} {had : Bool} {kind : LineKind} (sourceName : Text)
    (hkind : Kind source text had kind) :
    Answers (Sound source) (accept sourceName source assembler kind) := by
  cases hkind with
  | blank | continuedBlank | comment => exact .inl ⟨_, rfl, h⟩
  | statement hcomment hwords hlast hreads =>
      refine .inl ⟨_, rfl, ?_⟩
      rw [Sound, setChildren_openings]
      exact h
  | blockHeader hcomment hwords hreads hopening => exact openBlock_spec h sourceName hopening
  | openPrevious hwords hopening =>
      rw [accept, openPrevious]
      by_cases hcan : assembler.previousCanOpen = true
      · rw [if_pos hcan]
        cases assembler.children.getLast? with
        | none => exact .inr (report_diagnostic hopening sourceName (by decide))
        | some statement =>
            refine openBlock_spec ?_ sourceName hopening
            rw [Sound, setChildren_openings]
            exact h
      · rw [if_neg hcan]
        exact .inr (report_diagnostic hopening sourceName (by decide))
  | closeBlock hwords hclosing =>
      rw [accept, close]
      rw [Sound] at h
      cases hstack : assembler.stack with
      | nil => exact .inr (report_diagnostic hclosing sourceName (by decide))
      | cons block stack =>
          refine .inl ⟨_, rfl, ?_⟩
          rw [hstack, List.map_cons] at h
          rw [Sound, setChildren_openings]
          exact (List.forall_mem_cons.mp h).2

/-- Lines that are classified or reported are accepted or reported. -/
theorem acceptAll_spec (hlines : ∀ line ∈ lines, Classified source line.spelling.text
      line.hadContinuation (classifyLine sourceName source line)) :
    Answers (Sound source) (acceptAll sourceName source assembler lines) := by
  induction lines generalizing assembler with
  | nil => exact .inl ⟨_, rfl, h⟩
  | cons line lines ih =>
      obtain ⟨hline, hothers⟩ := List.forall_mem_cons.mp hlines
      rw [acceptAll]
      have hkind : Answers (fun kind => Kind source line.spelling.text line.hadContinuation kind)
          (classifyLine sourceName source line) := hline.imp_right fun hnone => hnone.2
      refine hkind.bind fun kind hkind => ?_
      refine (accept_spec h sourceName hkind).bind fun next hnext => ?_
      exact ih hnext hothers

theorem finish_spec (sourceName : Text) :
    Answers (fun _ => True) (assembler.finish sourceName source) := by
  rw [finish]
  cases hstack : assembler.stack with
  | nil => exact .inl ⟨_, rfl, trivial⟩
  | cons block stack =>
      rw [Sound, hstack] at h
      exact .inr (report_diagnostic (h block.opening List.mem_cons_self) sourceName (by decide))

end

/-- Taking lines is classifying them all, and taking their kinds. -/
theorem acceptAll_eq_ok {final : BlockAssembler} :
    acceptAll sourceName source assembler lines = .ok final ↔
      ∃ kinds, List.Forall₂ (fun line kind => classifyLine sourceName source line = .ok kind)
        lines kinds ∧ acceptKinds sourceName source assembler kinds = .ok final := by
  induction lines generalizing assembler with
  | nil =>
      constructor
      · exact fun h => ⟨[], .nil, h⟩
      · rintro ⟨kinds, hkinds, h⟩
        cases hkinds
        exact h
  | cons line lines ih =>
      rw [acceptAll]
      constructor
      · intro h
        obtain ⟨kind, hkind, hrest⟩ := Transition.bind_eq_ok.mp h
        obtain ⟨next, hnext, hrest⟩ := Transition.bind_eq_ok.mp hrest
        obtain ⟨kinds, hkinds, hrun⟩ := ih.mp hrest
        exact ⟨kind :: kinds, .cons hkind hkinds, Transition.bind_eq_ok.mpr ⟨next, hnext, hrun⟩⟩
      · rintro ⟨kinds, hkinds, h⟩
        cases hkinds with
        | cons hkind hkinds =>
            obtain ⟨next, hnext, hrun⟩ := Transition.bind_eq_ok.mp h
            exact Transition.bind_eq_ok.mpr ⟨_, hkind,
              Transition.bind_eq_ok.mpr ⟨next, hnext, ih.mpr ⟨_, hkinds, hrun⟩⟩⟩

end

/-! ### The parser -/

/-- Every kind that a classified line has is that of a line. -/
theorem ofLine_of_forall₂ {source : Text} {kinds : List LineKind} (hlines : ∀ line ∈ lines,
      Classified source line.spelling.text line.hadContinuation (classifyLine sourceName source
      line))
    (h : List.Forall₂ (fun line kind => classifyLine sourceName source line = .ok kind) lines kinds) :
    ∀ kind ∈ kinds, OfLine source kind := by
  induction h with
  | nil => simp
  | @cons line kind lines kinds hkind rest ih =>
      obtain ⟨hline, hothers⟩ := List.forall_mem_cons.mp hlines
      refine List.forall_mem_cons.mpr ⟨?_, ih hothers⟩
      rcases hline with ⟨found, hfound, hof⟩ | ⟨-, failure, hfailure, -⟩
      · rw [hkind] at hfound
        cases hfound
        exact ⟨_, _, hof⟩
      · rw [hkind] at hfailure
        cases hfailure

end SwayConfig
