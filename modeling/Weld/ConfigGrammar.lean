/-
**The brace grammar of a configuration.**

Kinds of lines drive a stack of open blocks.  The grammar says the same without a stack: a container is
a sequence of blank lines, barriers, statements, and blocks whose brace stands on the line of their
header or on the next line that is not blank.

Main definitions: `Container`, `BlockAssembler.acceptKinds`.

Main results:

* `Container.accepted` — what the grammar builds, the machine builds;
* `splits_of_accepted` — what the machine accepts has the form of the grammar;
* `acceptKinds_container` — both, for a whole source.
-/

import Weld.ConfigKinds
import Weld.Transition

namespace SwayConfig

open SourceText

/-! ### The grammar -/

/-- **The lines of a container and the statements they build**, where so many blocks may still be
opened inside one another. -/
inductive Container : ℕ → List LineKind → List Statement → Prop
  | empty {room : ℕ} : Container room [] []
  | blank {room : ℕ} {kinds : List LineKind} {statements : List Statement}
      (rest : Container room kinds statements) : Container room (.blank :: kinds) statements
  | barrier {room : ℕ} {kinds : List LineKind} {statements : List Statement}
      (rest : Container room kinds statements) :
      Container room (.lookaheadBarrier :: kinds) statements
  | statement {room : ℕ} {statement : Statement} {allowsNextLineBrace : Bool}
      {kinds : List LineKind} {statements : List Statement}
      (rest : Container room kinds statements) :
      Container room (.statement statement allowsNextLineBrace :: kinds) (statement :: statements)
  | sameLine {room : ℕ} {statement : Statement} {opening closing : Range}
      {body kinds : List LineKind} {children statements : List Statement}
      (inside : Container room body children) (rest : Container (room + 1) kinds statements) :
      Container (room + 1)
        (.blockHeader statement opening :: (body ++ .closeBlock closing :: kinds))
        (statement.withBlock (.mk opening closing children) :: statements)
  | nextLine {room blanks : ℕ} {statement : Statement} {opening closing : Range}
      {body kinds : List LineKind} {children statements : List Statement}
      (inside : Container room body children) (rest : Container (room + 1) kinds statements) :
      Container (room + 1)
        (.statement statement true :: (List.replicate blanks .blank ++
          .openPrevious opening :: (body ++ .closeBlock closing :: kinds)))
        (statement.withBlock (.mk opening closing children) :: statements)

/-- A brace on a line of its own comes next, behind blank lines only. -/
def OpensPrevious (kinds : List LineKind) : Prop :=
  ∃ blanks opening others, kinds = List.replicate blanks .blank ++ .openPrevious opening :: others

variable {children : List Statement}

namespace BlockAssembler

/-! ### The machine on kinds -/

section
variable (sourceName source : Text)

def acceptKinds (assembler : BlockAssembler) : List LineKind → Except Failure BlockAssembler
  | [] => .ok assembler
  | kind :: kinds =>
      (assembler.accept sourceName source kind).bind fun next => acceptKinds next kinds

end

/-- Statements at the end of the innermost container. -/
def extend (assembler : BlockAssembler) (statements : List Statement) (canOpen : Bool) :
    BlockAssembler :=
  { assembler.setChildren (assembler.children ++ statements) with previousCanOpen := canOpen }

/-- A further block, without content. -/
def opened (assembler : BlockAssembler) (statement : Statement) (opening : Range) :
    BlockAssembler :=
  { assembler with
    previousCanOpen := false
    stack := ⟨statement, opening, []⟩ :: assembler.stack }

section
variable {sourceName source : Text} {assembler final : BlockAssembler} {kind : LineKind}
  {kinds more : List LineKind} {statement : Statement} {statements : List Statement}
  {opening closing : Range} {canOpen : Bool}

theorem acceptKinds_append :
    acceptKinds sourceName source assembler (kinds ++ more) =
      (acceptKinds sourceName source assembler kinds).bind fun next =>
        acceptKinds sourceName source next more := by
  induction kinds generalizing assembler with
  | nil => rfl
  | cons kind kinds ih =>
      rw [List.cons_append, acceptKinds, acceptKinds]
      cases accept sourceName source assembler kind with
      | error failure => rfl
      | ok next => exact ih

theorem acceptKinds_blanks (blanks : ℕ) :
    acceptKinds sourceName source assembler (List.replicate blanks .blank ++ more) =
      acceptKinds sourceName source assembler more := by
  induction blanks with
  | zero => rfl
  | succ blanks ih => exact ih

@[simp] theorem extend_stack_length :
    (assembler.extend statements canOpen).stack.length = assembler.stack.length := by
  rw [extend, setChildren]
  cases hstack : assembler.stack with
  | nil | cons => rfl

@[simp] theorem extend_children :
    (assembler.extend statements canOpen).children = assembler.children ++ statements := by
  rw [extend, setChildren]
  cases hstack : assembler.stack with
  | nil | cons => simp [children, hstack]

@[simp] theorem extend_extend {others : List Statement} {later : Bool} :
    (assembler.extend statements canOpen).extend others later =
      assembler.extend (statements ++ others) later := by
  obtain ⟨roots, stack, can⟩ := assembler
  cases stack with
  | nil | cons => simp [extend, setChildren, children]

theorem extend_nil :
    assembler.extend [] canOpen = { assembler with previousCanOpen := canOpen } := by
  obtain ⟨roots, stack, can⟩ := assembler
  cases stack with
  | nil | cons => simp [extend, setChildren, children]

/-- Whether a brace may follow is decided by the last line. -/
theorem extend_of_previous {earlier : Bool} :
    { assembler with previousCanOpen := earlier }.extend statements canOpen =
      assembler.extend statements canOpen := by
  obtain ⟨roots, stack, can⟩ := assembler
  cases stack with
  | nil | cons => rfl

theorem accept_statement :
    accept sourceName source assembler (.statement statement canOpen) =
      .ok (assembler.extend [statement] canOpen) := rfl

theorem report_ne_ok {α : Type} {span : Range} {diagnosed : DiagnosticKind} {result : α} :
    (report sourceName source span diagnosed : Except Failure α) ≠ .ok result := by
  rw [report]
  cases Diagnostic.new sourceName source span diagnosed with
  | none | some => simp

theorem openBlock_eq_ok :
    openBlock sourceName source assembler statement opening = .ok final ↔
      assembler.stack.length ≠ MAX_BLOCK_DEPTH ∧ assembler.opened statement opening = final := by
  rw [openBlock]
  by_cases hfull : assembler.stack.length = MAX_BLOCK_DEPTH
  · rw [if_pos hfull]
    constructor
    · exact fun h => absurd h report_ne_ok
    · exact fun h => absurd hfull h.1
  · rw [if_neg hfull, Except.ok.injEq]
    exact ⟨fun h => ⟨hfull, h⟩, fun h => h.2⟩

/-- A statement that was the last one becomes the header of a block. -/
theorem openPrevious_extend :
    openPrevious sourceName source (assembler.extend [statement] true) opening =
      openBlock sourceName source { assembler with previousCanOpen := true } statement opening := by
  have hback : (assembler.extend [statement] true).setChildren
      (assembler.extend [statement] true).children.dropLast =
        { assembler with previousCanOpen := true } := by
    rw [extend_children, List.dropLast_concat]
    obtain ⟨roots, stack, can⟩ := assembler
    cases stack with
    | nil | cons => simp [extend, setChildren, children]
  have hcan : (assembler.extend [statement] true).previousCanOpen = true := rfl
  rw [openPrevious, if_pos hcan, hback, extend_children, List.getLast?_concat]

/-- Closing a block puts its statement behind those of the container around it. -/
theorem close_opened :
    close sourceName source ((assembler.opened statement opening).extend children canOpen) closing =
      .ok (assembler.extend [statement.withBlock (.mk opening closing children)] false) := by
  obtain ⟨roots, stack, can⟩ := assembler
  cases stack with
  | nil | cons => simp [close, opened, extend, setChildren, BlockAssembler.children]

end

end BlockAssembler

open BlockAssembler

section
variable {sourceName source : Text} {assembler final : BlockAssembler}
  {kinds : List LineKind} {statement : Statement} {statements : List Statement}
  {opening : Range} {room : ℕ}

/-! ### From the grammar to the machine -/

/-- A block that the machine runs through leaves its statement behind. -/
theorem accepted_block {body more : List LineKind} {closing : Range} (hbody : ∃ canOpen, acceptKinds
      sourceName source (assembler.opened statement opening) body = .ok ((assembler.opened statement
      opening).extend children canOpen)) :
    acceptKinds sourceName source (assembler.opened statement opening)
        (body ++ .closeBlock closing :: more) =
      acceptKinds sourceName source
        (assembler.extend [statement.withBlock (.mk opening closing children)] false) more := by
  obtain ⟨canOpen, hbody⟩ := hbody
  rw [acceptKinds_append, hbody]
  dsimp only [Except.bind]
  rw [acceptKinds, accept, close_opened]
  rfl

/-- **What the grammar builds, the machine builds.** -/
theorem Container.accepted (h : Container room kinds statements) (sourceName source : Text)
    (assembler : BlockAssembler) (hroom : assembler.stack.length + room = MAX_BLOCK_DEPTH) :
    ∃ canOpen, acceptKinds sourceName source assembler kinds =
      .ok (assembler.extend statements canOpen) := by
  induction h generalizing assembler with
  | empty => exact ⟨assembler.previousCanOpen, by rw [extend_nil]; rfl⟩
  | blank rest ih => exact ih assembler hroom
  | barrier rest ih =>
      obtain ⟨canOpen, hrest⟩ := ih { assembler with previousCanOpen := false } hroom
      rw [extend_of_previous] at hrest
      exact ⟨canOpen, hrest⟩
  | @statement room statement allows kinds statements rest ih =>
      obtain ⟨canOpen, hrest⟩ := ih (assembler.extend [statement] allows)
        (by rw [extend_stack_length]; exact hroom)
      rw [extend_extend] at hrest
      exact ⟨canOpen, hrest⟩
  | @sameLine room statement opening closing body kinds children statements inside rest ihi ihr =>
      have hopen : openBlock sourceName source assembler statement opening =
          .ok (assembler.opened statement opening) := openBlock_eq_ok.mpr ⟨by omega, rfl⟩
      have hinside := ihi (assembler.opened statement opening)
        (by rw [opened, List.length_cons]; omega)
      obtain ⟨canOpen, hrest⟩ := ihr (assembler.extend
        [statement.withBlock (.mk opening closing children)] false)
        (by rw [extend_stack_length]; exact hroom)
      rw [extend_extend] at hrest
      refine ⟨canOpen, ?_⟩
      show (openBlock sourceName source assembler statement opening).bind _ = _
      rw [hopen]
      exact (accepted_block hinside).trans hrest
  | @nextLine room blanks statement opening closing body kinds children statements inside rest
      ihi ihr =>
      have hopen : openBlock sourceName source { assembler with previousCanOpen := true } statement
          opening = .ok (assembler.opened statement opening) :=
        openBlock_eq_ok.mpr ⟨fun hfull => by dsimp only at hfull; omega, rfl⟩
      have hinside := ihi (assembler.opened statement opening)
        (by rw [opened, List.length_cons]; omega)
      obtain ⟨canOpen, hrest⟩ := ihr (assembler.extend
        [statement.withBlock (.mk opening closing children)] false)
        (by rw [extend_stack_length]; exact hroom)
      rw [extend_extend] at hrest
      refine ⟨canOpen, ?_⟩
      rw [acceptKinds, accept_statement]
      show acceptKinds sourceName source (assembler.extend [statement] true) _ = _
      rw [acceptKinds_blanks]
      show (openPrevious sourceName source (assembler.extend [statement] true) opening).bind _ = _
      rw [openPrevious_extend, hopen]
      exact (accepted_block hinside).trans hrest

/-! ### From the machine to the grammar -/

/-- What the machine runs through is a container up to the brace that closes it. -/
def Splits (room : ℕ) (kinds : List LineKind) : Prop :=
  ∃ body statements tail, kinds = body ++ tail ∧ Container room body statements ∧
    (tail = [] ∨ ∃ closing others, tail = .closeBlock closing :: others)

/-- A block that was opened is closed, since the machine ends with no more blocks than before. -/
theorem split_block (hsplits : Splits room kinds)
    (hroom : assembler.stack.length + (room + 1) = MAX_BLOCK_DEPTH)
    (h : acceptKinds sourceName source (assembler.opened statement opening) kinds = .ok final)
    (hfinal : final.stack.length ≤ assembler.stack.length) :
    ∃ body children closing others, kinds = body ++ .closeBlock closing :: others ∧
      Container room body children ∧
      acceptKinds sourceName source
        (assembler.extend [statement.withBlock (.mk opening closing children)] false) others =
          .ok final := by
  obtain ⟨body, children, tail, rfl, hbody, htail⟩ := hsplits
  have hopened : (assembler.opened statement opening).stack.length + room = MAX_BLOCK_DEPTH := by
    rw [opened, List.length_cons]
    omega
  have hinside := hbody.accepted sourceName source _ hopened
  rcases htail with rfl | ⟨closing, others, rfl⟩
  · obtain ⟨canOpen, hinside⟩ := hinside
    rw [List.append_nil, hinside] at h
    cases h
    rw [extend_stack_length, opened, List.length_cons] at hfinal
    omega
  · rw [accepted_block hinside] at h
    exact ⟨body, children, closing, others, rfl, hbody, h⟩

/-- **What the machine accepts has the form of the grammar.** -/
theorem splits_of_accepted (hroom : assembler.stack.length + room = MAX_BLOCK_DEPTH)
    (h : acceptKinds sourceName source assembler kinds = .ok final)
    (hfinal : final.stack.length ≤ assembler.stack.length)
    (hprevious : assembler.previousCanOpen = false ∨ ¬OpensPrevious kinds) :
    Splits room kinds := by
  induction hlength : kinds.length using Nat.strong_induction_on
    generalizing kinds assembler room with
  | h n ih =>
      cases kinds with
      | nil => exact ⟨[], [], [], rfl, .empty, .inl rfl⟩
      | cons kind kinds =>
          rw [List.length_cons] at hlength
          obtain ⟨next, hnext, hrest⟩ := Transition.bind_eq_ok.mp h
          -- a block of the rest: what is inside it, and what is behind it
          have hblock : ∀ {room statement opening others},
              assembler.stack.length + (room + 1) = MAX_BLOCK_DEPTH →
              acceptKinds sourceName source (assembler.opened statement opening) others =
                .ok final → others.length < n →
              ∃ body children closing more, others = body ++ .closeBlock closing :: more ∧
                Container room body children ∧ Splits (room + 1) more := by
            intro room statement opening others hroom hothers hshorter
            have hinside : Splits room others := by
              refine ih _ hshorter ?_ hothers ?_ (.inl rfl) rfl
              · rw [opened, List.length_cons]
                omega
              · rw [opened, List.length_cons]
                omega
            obtain ⟨body, children, closing, more, rfl, hbody, hmore⟩ :=
              split_block hinside hroom hothers hfinal
            refine ⟨body, children, closing, more, rfl, hbody, ?_⟩
            refine ih _ ?_ ?_ hmore ?_ (.inl rfl) rfl
            · rw [List.length_append, List.length_cons] at hshorter
              omega
            · rw [extend_stack_length]
              exact hroom
            · rw [extend_stack_length]
              exact hfinal
          cases kind with
          | blank =>
              cases hnext
              have hprevious' : assembler.previousCanOpen = false ∨ ¬OpensPrevious kinds := by
                refine hprevious.imp_right fun hnot hopens => hnot ?_
                obtain ⟨blanks, opening, others, rfl⟩ := hopens
                exact ⟨blanks + 1, opening, others, rfl⟩
              obtain ⟨body, statements, tail, rfl, hbody, htail⟩ :=
                ih _ (by omega) hroom hrest hfinal hprevious' rfl
              exact ⟨.blank :: body, statements, tail, rfl, .blank hbody, htail⟩
          | lookaheadBarrier =>
              cases hnext
              have hsplits : Splits room kinds := ih _ (by omega) (by exact hroom) hrest
                (by exact hfinal) (.inl rfl) rfl
              obtain ⟨body, statements, tail, rfl, hbody, htail⟩ := hsplits
              exact ⟨.lookaheadBarrier :: body, statements, tail, rfl, .barrier hbody, htail⟩
          | closeBlock closing =>
              exact ⟨[], [], _, rfl, .empty, .inr ⟨closing, kinds, rfl⟩⟩
          | openPrevious opening =>
              rcases hprevious with hfalse | hnot
              · rw [accept, openPrevious, hfalse, if_neg Bool.false_ne_true] at hnext
                exact absurd hnext report_ne_ok
              · exact absurd ⟨0, opening, kinds, rfl⟩ hnot
          | blockHeader statement opening =>
              obtain ⟨hfull, rfl⟩ := openBlock_eq_ok.mp hnext
              obtain ⟨room, rfl⟩ : ∃ inner, room = inner + 1 := ⟨room - 1, by omega⟩
              obtain ⟨body, children, closing, more, rfl, hbody, hmore⟩ :=
                hblock hroom hrest (by omega)
              obtain ⟨after, statements, tail, rfl, hafter, htail⟩ := hmore
              exact ⟨.blockHeader statement opening :: (body ++ .closeBlock closing :: after), _, tail,
                by simp, .sameLine hbody hafter, htail⟩
          | statement statement allows =>
              rw [accept_statement] at hnext
              cases hnext
              by_cases hopens : allows = true ∧ OpensPrevious kinds
              · obtain ⟨rfl, blanks, opening, others, rfl⟩ := hopens
                rw [acceptKinds_blanks] at hrest
                obtain ⟨next, hnext, hrest⟩ := Transition.bind_eq_ok.mp hrest
                rw [accept, openPrevious_extend] at hnext
                obtain ⟨hfull, rfl⟩ := openBlock_eq_ok.mp hnext
                dsimp only at hfull
                obtain ⟨room, rfl⟩ : ∃ inner, room = inner + 1 := ⟨room - 1, by omega⟩
                rw [List.length_append, List.length_cons] at hlength
                obtain ⟨body, children, closing, more, rfl, hbody, hmore⟩ :=
                  hblock hroom hrest (by omega)
                obtain ⟨after, statements, tail, rfl, hafter, htail⟩ := hmore
                exact ⟨.statement statement true :: (List.replicate blanks .blank ++
                  .openPrevious opening :: (body ++ .closeBlock closing :: after)), _, tail,
                  by simp, .nextLine hbody hafter, htail⟩
              · have hprevious' : allows = false ∨ ¬OpensPrevious kinds := by
                  rcases not_and_or.mp hopens with hfalse | hnot
                  · exact .inl (Bool.eq_false_of_not_eq_true hfalse)
                  · exact .inr hnot
                obtain ⟨body, statements, tail, rfl, hbody, htail⟩ :=
                  ih _ (by omega) (by rw [extend_stack_length]; exact hroom) hrest
                    (by rw [extend_stack_length]; exact hfinal) hprevious' rfl
                exact ⟨.statement statement allows :: body, _, tail, rfl, .statement hbody, htail⟩

/-- **The machine runs from one end of the source to the other exactly on the containers.** -/
theorem acceptKinds_container {config : ParsedConfig} :
    ((acceptKinds sourceName source {} kinds).bind fun assembler =>
        assembler.finish sourceName source) = .ok config ↔
      Container MAX_BLOCK_DEPTH kinds config.statements := by
  have hroom : ({} : BlockAssembler).stack.length + MAX_BLOCK_DEPTH = MAX_BLOCK_DEPTH :=
    Nat.zero_add _
  constructor
  · intro h
    obtain ⟨final, hrun, hfinish⟩ := Transition.bind_eq_ok.mp h
    have hstack : final.stack = [] := by
      rw [finish] at hfinish
      cases hstack : final.stack with
      | nil => rfl
      | cons block stack =>
          rw [hstack] at hfinish
          exact absurd hfinish report_ne_ok
    obtain ⟨body, statements, tail, rfl, hbody, htail⟩ :=
      splits_of_accepted hroom hrun (by rw [hstack]) (.inl rfl)
    obtain ⟨canOpen, hinside⟩ := hbody.accepted sourceName source _ hroom
    rcases htail with rfl | ⟨closing, others, rfl⟩
    · rw [List.append_nil] at hrun ⊢
      rw [hinside] at hrun
      cases hrun
      cases hfinish
      exact hbody
    · -- there is no block to close
      rw [acceptKinds_append, hinside] at hrun
      obtain ⟨reached, hreached, hclose⟩ := Transition.bind_eq_ok.mp hrun
      cases hreached
      obtain ⟨next, hnext, -⟩ := Transition.bind_eq_ok.mp hclose
      exact absurd hnext report_ne_ok
  · intro h
    obtain ⟨canOpen, hinside⟩ := h.accepted sourceName source _ hroom
    rw [hinside]
    rfl

end

end SwayConfig
