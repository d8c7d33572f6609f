/-
**The Sway configuration parser.**

A configuration is read once into a tree of statements, without expansion and without command
semantics.  Physical lines are assembled to logical lines, a logical line is cut into arguments, the
arguments decide what kind of line it is, and the kinds drive the tree.  Spelling keeps its place in
the source.

Main definitions: `RawText`, `Statement`, `Block`, `ParsedConfig`, `Diagnostic`, `logicalLines`,
`argument`, `arguments`, `classifyLine`, `BlockAssembler`, `parse`.

A slice off the boundaries of characters, and a repetition that makes no progress, stop the program;
`Failure.panicked` and `Failure.diverged` stand for these.
-/

import Weld.SourceText
import Weld.Recognizers

namespace SwayConfig

open SourceText

/-- Maximum simultaneous open blocks. -/
def MAX_BLOCK_DEPTH : ℕ := 64

/-! ### Spelling with its place in the source -/

/-- Raw spelling assembled from one or more segments of the source. -/
structure RawText where
  text : Text
  segments : List Range
  logicalStarts : List ℕ
  deriving DecidableEq, Repr

namespace RawText

/-- Append the pieces of the source one after the other, noting where each of them starts. -/
def assemble (source : Text) : List Range → Text → List ℕ → Option (Text × List ℕ)
  | [], text, starts => some (text, starts)
  | segment :: segments, text, starts =>
      (slice source segment).bind fun piece =>
        assemble source segments (text ++ piece) (starts ++ [byteLength text])

def new (source : Text) (segments : List Range) : Option RawText :=
  (assemble source segments [] []).map fun (text, starts) => ⟨text, segments, starts⟩

/-- The segments below a logical range, cut to it. -/
def pick (range : Range) : List (Range × ℕ) → List Range
  | [] => []
  | (segment, start) :: others =>
      if range.stop ≤ start then
        []
      else
        let left := max range.start start
        let right := min range.stop (start + segment.length)
        if left < right then
          ⟨segment.start + (left - start), segment.start + (right - start)⟩ :: pick range others
        else
          pick range others

/-- How many of the segments a logical range lies behind.  The starts are sorted. -/
def first (raw : RawText) (range : Range) : ℕ :=
  (raw.logicalStarts.takeWhile (· ≤ range.start)).length - 1

/-- Maps a logical range back across the gaps between the segments. -/
def slice (raw : RawText) (source : Text) (range : Range) : Option RawText :=
  new source (pick range
    ((raw.segments.drop (raw.first range)).zip (raw.logicalStarts.drop (raw.first range))))

end RawText

/-! ### What the parser returns -/

mutual

/-- A directive's unexpanded spelling and optional nested block. -/
inductive Statement where
  | mk (header name : RawText) (arguments : List RawText) (block : Option Block)

/-- The braces of a block and what stands between them. -/
inductive Block where
  | mk (opening closing : Range) (statements : List Statement)

end

namespace Statement

def header : Statement → RawText
  | mk header _ _ _ => header

def name : Statement → RawText
  | mk _ name _ _ => name

def arguments : Statement → List RawText
  | mk _ _ arguments _ => arguments

def block : Statement → Option Block
  | mk _ _ _ block => block

/-- The same statement, with a block. -/
def withBlock : Statement → Block → Statement
  | mk header name arguments _, block => mk header name arguments (some block)

end Statement

/-- Parsed statements from one source. -/
structure ParsedConfig where
  statements : List Statement

/-- Structural failures. -/
inductive DiagnosticKind where
  | unexpectedOpeningBrace
  | unexpectedClosingBrace
  | contentBeforeClosingBrace
  | unclosedBlock
  | nestingLimit
  | invalidArgument
  deriving DecidableEq, Repr

/-- The first structural failure, located in the original physical source. -/
structure Diagnostic where
  sourceName : Text
  kind : DiagnosticKind
  span : Range
  line : ℕ
  column : ℕ
  excerpt : Text
  markerPadding : ℕ
  markerWidth : ℕ
  deriving DecidableEq, Repr

/-- The general category of control characters. -/
def isControl (c : Char) : Bool := c.toNat < 0x20 || (0x7f ≤ c.toNat && c.toNat ≤ 0x9f)

/-- How a control character is spelled out. -/
def escapeDefault (c : Char) : Text :=
  if c = '\t' then ['\\', 't']
  else if c = '\r' then ['\\', 'r']
  else if c = '\n' then ['\\', 'n']
  else ['\\', 'u', '\x7b'] ++ Nat.toDigits 16 c.toNat ++ ['\x7d']

/-- Keep control characters in source excerpts from becoming terminal commands. -/
def visible (text : Text) : Text :=
  text.flatMap fun c =>
    if c = '\t' then [' ', ' ', ' ', ' '] else if isControl c then escapeDefault c else [c]

/-- Drop the characters of a kind from the end. -/
def trimEndMatches (kind : Char → Bool) (text : Text) : Text :=
  (text.reverse.dropWhile kind).reverse

def Diagnostic.new (sourceName source : Text) (span : Range) (kind : DiagnosticKind) :
    Option Diagnostic := do
  let before ← SourceText.slice source ⟨0, span.start⟩
  let lineStart := (rfind '\n' before).elim 0 (· + 1)
  let after ← SourceText.slice source ⟨span.start, byteLength source⟩
  let lineEnd := (find '\n' after).elim (byteLength source) (span.start + ·)
  let linePrefix ← SourceText.slice source ⟨lineStart, span.start⟩
  let line ← SourceText.slice source ⟨lineStart, lineEnd⟩
  let marked ← SourceText.slice source ⟨span.start, min span.stop lineEnd⟩
  some {
    sourceName
    kind
    span
    line := before.count '\n' + 1
    column := linePrefix.length + 1
    excerpt := visible (trimEndMatches (· = '\r') line)
    markerPadding := (visible linePrefix).length
    markerWidth := max (visible marked).length 1 }

/-- How the parser can stop short of a result. -/
inductive Failure where
  /-- A slice that does not exist. -/
  | panicked
  /-- A loop that makes no progress. -/
  | diverged
  | diagnostic (diagnostic : Diagnostic)
  deriving DecidableEq, Repr

/-- Report a failure at a place of the source. -/
def report {α : Type} (sourceName source : Text) (span : Range) (kind : DiagnosticKind) :
    Except Failure α :=
  match Diagnostic.new sourceName source span kind with
  | some diagnostic => .error (.diagnostic diagnostic)
  | none => .error .panicked

/-- A slice, which the program takes for granted. -/
def taken {α : Type} : Option α → Except Failure α
  | some a => .ok a
  | none => .error .panicked

/-! ### Logical lines -/

structure LogicalLine where
  spelling : RawText
  hadContinuation : Bool
  deriving DecidableEq, Repr

def isSpace (c : Char) : Bool :=
  c = ' ' || c = '\t' || c = '\n' || c = '\r' || c = '\x0b' || c = '\x0c'

/-- A physical line that ends in a backslash and a line feed. -/
def endsContinued (part : Text) : Bool := ['\\', '\n'].isSuffixOf part

/-- The text without a line feed at its end. -/
def stripNewline (part : Text) : Text :=
  if part.getLast? = some '\n' then part.dropLast else part

/-- The segments of a logical line under assembly, where the next physical line starts, and the
physical lines that are left. -/
structure Assembled where
  segments : List Range
  hadContinuation : Bool
  offset : ℕ
  physical : List Text

/-- The segments, and a further one unless it is empty. -/
def pushSegment (segments : List Range) (offset stop : ℕ) : List Range :=
  if stop ≠ 0 then segments ++ [⟨offset, offset + stop⟩] else segments

/-- Assemble one logical line from its first physical line on. -/
def assembleLine (offset : ℕ) (part : Text) (columnZeroComment : Bool) (segments : List Range)
    (hadContinuation : Bool) : List Text → Assembled
  | [] =>
      ⟨pushSegment segments offset (byteLength (stripNewline part)), hadContinuation,
        offset + byteLength part, []⟩
  | next :: physical =>
      if !columnZeroComment && endsContinued part then
        let segments := pushSegment segments offset (byteLength part - 2)
        -- An empty continued prefix lets the next physical line become column zero.
        let comment :=
          if segments.isEmpty then decide (next.head? = some '#') else columnZeroComment
        assembleLine (offset + byteLength part) next comment segments true physical
      else
        ⟨pushSegment segments offset (byteLength (stripNewline part)), hadContinuation,
          offset + byteLength part, next :: physical⟩

theorem assembleLine_length (offset : ℕ) (part : Text) (comment : Bool) (segments : List Range)
    (had : Bool) (physical : List Text) :
    (assembleLine offset part comment segments had physical).physical.length ≤ physical.length := by
  induction physical generalizing offset part comment segments had with
  | nil => exact Nat.le_refl _
  | cons next physical ih =>
      rw [assembleLine]
      split
      · exact (ih _ _ _ _ _).trans (Nat.le_succ _)
      · exact Nat.le_refl _

/-- A logical line of given segments, without the space around it. -/
def trimmedLine (source : Text) (segments : List Range) : Option RawText :=
  (RawText.new source segments).bind fun line =>
    let start := byteLength line.text - byteLength (line.text.dropWhile isSpace)
    let stop := max (byteLength (trimEndMatches isSpace line.text)) start
    line.slice source ⟨start, stop⟩

/-- The logical lines from a physical line on. -/
def linesFrom (source : Text) (offset : ℕ) : List Text → Option (List LogicalLine)
  | [] => some []
  | part :: physical =>
      let line := assembleLine offset part (part.head? = some '#') [] false physical
      (trimmedLine source line.segments).bind fun spelling =>
        (linesFrom source line.offset line.physical).map (⟨spelling, line.hadContinuation⟩ :: ·)
  termination_by physical => physical.length
  decreasing_by
    have hle := assembleLine_length offset part (part.head? = some '#') [] false physical
    simp only [List.length_cons]
    omega

def logicalLines (source : Text) : Option (List LogicalLine) :=
  linesFrom source 0 (splitInclusive source)

/-! ### Arguments -/

/-- A part of a line between two unprotected spaces. -/
structure Word where
  logicalRange : Range
  raw : RawText
  deriving DecidableEq, Repr

open Recognizer in
def escaped : Recognizer := andThen (satisfy (· = '\\')) (opt (satisfy fun _ => true))

open Recognizer in
def quoted (delimiter : Char) : Recognizer :=
  andThen (satisfy (· = delimiter)) (andThen
    (repeat0 (alt [escaped, takeWhile1 fun c => c ≠ delimiter && c ≠ '\\']))
    (opt (satisfy (· = delimiter))))

open Recognizer in
def bracketed : Recognizer :=
  andThen (satisfy (· = '[')) (andThen
    (repeat0 (alt [escaped, quoted '"', quoted '\'',
      takeWhile1 fun c => c ≠ '\\' && c ≠ '"' && c ≠ '\'' && c ≠ ']'])) (opt (satisfy (· = ']'))))

/-- Characters with no meaning of their own in an argument. -/
def isOrdinary (c : Char) : Bool :=
  !isSpace c && c ≠ '\\' && c ≠ '"' && c ≠ '\'' && c ≠ '['

open Recognizer in
def argument : Recognizer :=
  repeat1 (alt [escaped, quoted '"', quoted '\'', bracketed, takeWhile1 isOrdinary])

/-- The physical extent of a spelling. -/
def envelope (text : RawText) : Range :=
  match text.segments.head?, text.segments.getLast? with
  | some first, some last => ⟨first.start, last.stop⟩
  | _, _ => ⟨0, 0⟩

/-- The words of what remains of a line. -/
def scanArguments (sourceName source : Text) (line : RawText) :
    ℕ → Text → Except Failure (List Word)
  | 0, _ => .error .diverged
  | fuel + 1, remaining =>
      let remaining := remaining.dropWhile isSpace
      if remaining.isEmpty then
        .ok []
      else
        let start := byteLength line.text - byteLength remaining
        match argument remaining with
        | none =>
            (taken (line.slice source ⟨start, byteLength line.text⟩)).bind fun location =>
              report sourceName source (envelope location) .invalidArgument
        | some rest =>
            let range := ⟨start, byteLength line.text - byteLength rest⟩
            (taken (line.slice source range)).bind fun raw =>
              (scanArguments sourceName source line fuel rest).map (⟨range, raw⟩ :: ·)

def arguments (sourceName source : Text) (line : RawText) : Except Failure (List Word) :=
  scanArguments sourceName source line (line.text.length + 1) line.text

/-! ### Kinds of lines -/

/-- Classified spelling, without access to the in-progress block tree. -/
inductive LineKind where
  | blank
  | lookaheadBarrier
  | statement (statement : Statement) (allowsNextLineBrace : Bool)
  | blockHeader (statement : Statement) (opening : Range)
  | openPrevious (opening : Range)
  | closeBlock (closing : Range)

/-- The statement of the words of a line, if there are any. -/
def statement (source : Text) (line : RawText) : List Word → Except Failure (Option Statement)
  | [] => .ok none
  | first :: words =>
      let stop := ((first :: words).getLast (List.cons_ne_nil _ _)).logicalRange.stop
      (taken (line.slice source ⟨first.logicalRange.start, stop⟩)).map fun header =>
        some (.mk header first.raw (words.map Word.raw) none)

/-- Whether the text ends in a brace. -/
def endsInBrace (text : Text) : Bool :=
  text.getLast? = some '\x7b' || text.getLast? = some '\x7d'

/-- The kind of a line of words, the last of which is given. -/
def classifyWords (sourceName source : Text) (line : LogicalLine) (words : List Word)
    (last : Word) : Except Failure LineKind :=
  let braceSpan := envelope last.raw
  if last.raw.text = ['\x7d'] then
    if words.length = 1 then
      .ok (.closeBlock braceSpan)
    else
      report sourceName source braceSpan .contentBeforeClosingBrace
  else if last.raw.text = ['\x7b'] then
    if words.length = 1 then
      if line.hadContinuation then
        report sourceName source braceSpan .unexpectedOpeningBrace
      else
        .ok (.openPrevious braceSpan)
    else
      (statement source line.spelling words.dropLast).bind fun
        | some statement => .ok (.blockHeader statement braceSpan)
        | none => report sourceName source braceSpan .unexpectedOpeningBrace
  else
    (statement source line.spelling words).bind fun
      | some statement => .ok (.statement statement (!endsInBrace line.spelling.text))
      | none => report sourceName source braceSpan .unexpectedOpeningBrace

/-- The line and brace recognition rules, including physical-line barriers. -/
def classifyLine (sourceName source : Text) (line : LogicalLine) : Except Failure LineKind :=
  if line.spelling.text.isEmpty && !line.hadContinuation then
    .ok .blank
  else if line.spelling.text.isEmpty || line.spelling.text.head? = some '#' then
    .ok .lookaheadBarrier
  else
    (arguments sourceName source line.spelling).bind fun words =>
      match words.getLast? with
      | none => .ok .blank
      | some last => classifyWords sourceName source line words last

/-! ### The tree -/

structure OpenBlock where
  statement : Statement
  opening : Range
  children : List Statement

/-- The tree under construction; the innermost open block is the first of the stack. -/
structure BlockAssembler where
  roots : List Statement := []
  stack : List OpenBlock := []
  previousCanOpen : Bool := false

namespace BlockAssembler

/-- The statements of the innermost container. -/
def children (assembler : BlockAssembler) : List Statement :=
  match assembler.stack with
  | [] => assembler.roots
  | block :: _ => block.children

/-- Change the statements of the innermost container. -/
def setChildren (assembler : BlockAssembler) (children : List Statement) : BlockAssembler :=
  match assembler.stack with
  | [] => { assembler with roots := children }
  | block :: stack => { assembler with stack := { block with children } :: stack }

variable (sourceName source : Text)

def openBlock (assembler : BlockAssembler) (statement : Statement) (opening : Range) :
    Except Failure BlockAssembler :=
  if assembler.stack.length = MAX_BLOCK_DEPTH then
    report sourceName source opening .nestingLimit
  else
    .ok { assembler with
      previousCanOpen := false
      stack := ⟨statement, opening, []⟩ :: assembler.stack }

def openPrevious (assembler : BlockAssembler) (opening : Range) : Except Failure BlockAssembler :=
  if assembler.previousCanOpen then
    match assembler.children.getLast? with
    | some statement =>
        openBlock sourceName source (assembler.setChildren assembler.children.dropLast)
          statement opening
    | none => report sourceName source opening .unexpectedOpeningBrace
  else
    report sourceName source opening .unexpectedOpeningBrace

def close (assembler : BlockAssembler) (closing : Range) : Except Failure BlockAssembler :=
  match assembler.stack with
  | [] => report sourceName source closing .unexpectedClosingBrace
  | block :: stack =>
      let outer := { assembler with stack, previousCanOpen := false }
      .ok (outer.setChildren (outer.children ++
        [block.statement.withBlock (.mk block.opening closing block.children)]))

def accept (assembler : BlockAssembler) : LineKind → Except Failure BlockAssembler
  | .blank => .ok assembler
  | .lookaheadBarrier => .ok { assembler with previousCanOpen := false }
  | .statement statement allowsNextLineBrace =>
      .ok { assembler.setChildren (assembler.children ++ [statement]) with
        previousCanOpen := allowsNextLineBrace }
  | .blockHeader statement opening => openBlock sourceName source assembler statement opening
  | .openPrevious opening => openPrevious sourceName source assembler opening
  | .closeBlock closing => close sourceName source assembler closing

def finish (assembler : BlockAssembler) : Except Failure ParsedConfig :=
  match assembler.stack with
  | [] => .ok ⟨assembler.roots⟩
  | block :: _ => report sourceName source block.opening .unclosedBlock

/-- Take the lines one after the other. -/
def acceptAll (assembler : BlockAssembler) : List LogicalLine → Except Failure BlockAssembler
  | [] => .ok assembler
  | line :: lines =>
      (classifyLine sourceName source line).bind fun kind =>
        (assembler.accept sourceName source kind).bind fun assembler =>
          acceptAll assembler lines

end BlockAssembler

/-- Parse one in-memory configuration. -/
def parse (sourceName source : Text) : Except Failure ParsedConfig :=
  (taken (logicalLines source)).bind fun lines =>
    (BlockAssembler.acceptAll sourceName source {} lines).bind fun assembler =>
      assembler.finish sourceName source

end SwayConfig
