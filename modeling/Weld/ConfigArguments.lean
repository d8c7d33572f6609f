/-
**Arguments of a configuration line.**

The scanner is written with the combinators of a parser library.  What it does is said by an automaton:
reading from left to right, a character is bare, in quotes, in brackets, or escaped, and a line is cut
at its bare spaces.

Main definitions: `Context`, `wordsOf`, `Cut`.

Main results:

* `argument_eq` — the scanner takes everything up to the next bare space;
* `arguments_cut` — every line of faithful spelling is cut into faithful words;
* `Cut.front` — the first words of a line are the words of their extent.
-/

import Mathlib.Data.List.TakeWhile
import Weld.ConfigProvenance

namespace SwayConfig

open SourceText Recognizer

/-! ### Reading a line -/

/-- What protects the next character. -/
inductive Context where
  | bare
  | brackets
  | quotes (delimiter : Char) (inBrackets : Bool)
  | escape (inside : Context)
  deriving DecidableEq, Repr

open Context

namespace Context

/-- Where a closed quotation goes on. -/
def outside (inBrackets : Bool) : Context := if inBrackets then brackets else bare

def isQuote (c : Char) : Bool := c = '"' || c = '\''

/-- The context after a character. -/
def read : Context → Char → Context
  | escape inside, _ => inside
  | bare, c =>
      if c = '\\' then escape bare else if isQuote c then quotes c false
      else if c = '[' then brackets else bare
  | brackets, c =>
      if c = '\\' then escape brackets else if isQuote c then quotes c true
      else if c = ']' then bare else brackets
  | quotes delimiter inBrackets, c =>
      if c = '\\' then escape (quotes delimiter inBrackets)
      else if c = delimiter then outside inBrackets else quotes delimiter inBrackets

/-- Only a bare space separates. -/
def separates : Context → Char → Bool
  | bare, c => isSpace c
  | _, _ => false

/-- The context after a text without a separator. -/
def readAll : Context → Text → Option Context
  | context, [] => some context
  | context, c :: text =>
      if context.separates c then none else (context.read c).readAll text

/-- The text from the next separator on. -/
def remainder : Context → Text → Text
  | _, [] => []
  | context, c :: text =>
      if context.separates c then c :: text else (context.read c).remainder text

/-- A text cut at its separators. -/
def split : Context → Text → List Text
  | _, [] => [[]]
  | context, c :: text =>
      if context.separates c then
        [] :: bare.split text
      else
        match (context.read c).split text with
        | [] => [[c]]
        | word :: words => (c :: word) :: words

end Context

/-- **The words of a text**: what is left between its bare spaces. -/
def wordsOf (text : Text) : List Text := (Context.bare.split text).filter (· ≠ [])

example : wordsOf "a 'b c'd [e \"]\" f".toList =
    ["a".toList, "'b c'd".toList, "[e \"]\" f".toList] := by decide

section
variable {context inner : Context} {c : Char} {text word rest : Text}

theorem remainder_cons (h : context.separates c = false) :
    context.remainder (c :: text) = (context.read c).remainder text := by
  rw [remainder, h]
  rfl

theorem remainder_of_separates (h : ∀ c ∈ text.head?, context.separates c = true) :
    context.remainder text = text := by
  cases text with
  | nil => rfl
  | cons c text => rw [remainder, h c rfl, if_pos rfl]

/-- What is taken before the remainder is read without a separator. -/
theorem exists_readAll (context : Context) (text : Text) :
    ∃ word after, text = word ++ context.remainder text ∧ context.readAll word = some after ∧
      ∀ c ∈ (context.remainder text).head?, after.separates c = true := by
  induction text generalizing context with
  | nil => exact ⟨[], context, rfl, rfl, by simp [remainder]⟩
  | cons c text ih =>
      by_cases h : context.separates c = true
      · refine ⟨[], context, ?_, rfl, ?_⟩
        · rw [remainder, if_pos h, List.nil_append]
        · rw [remainder, if_pos h]
          rintro d ⟨⟩
          exact h
      · have hfalse : context.separates c = false := Bool.eq_false_iff.mpr h
        obtain ⟨word, after, htext, hread, hnext⟩ := ih (context.read c)
        rw [remainder_cons hfalse]
        refine ⟨c :: word, after, ?_, ?_, hnext⟩
        · rw [List.cons_append, ← htext]
        · rw [readAll, if_neg h, hread]

theorem split_of_readAll (h : context.readAll word = some inner) : context.split word = [word] := by
  induction word generalizing context with
  | nil => rfl
  | cons c word ih =>
      rw [readAll] at h
      by_cases hseparates : context.separates c = true
      · rw [if_pos hseparates] at h
        cases h
      · rw [if_neg hseparates] at h
        rw [split, if_neg hseparates, ih h]

theorem split_append (h : context.readAll word = some inner) (hc : inner.separates c = true) :
    context.split (word ++ c :: rest) = word :: bare.split rest := by
  induction word generalizing context with
  | nil =>
      cases h
      rw [List.nil_append, split, if_pos hc]
  | cons d word ih =>
      rw [readAll] at h
      by_cases hseparates : context.separates d = true
      · rw [if_pos hseparates] at h
        cases h
      · rw [if_neg hseparates] at h
        rw [List.cons_append, split, if_neg hseparates, ih h]

/-! ### Words -/

theorem wordsOf_space (h : isSpace c = true) : wordsOf (c :: text) = wordsOf text := by
  rw [wordsOf, split, if_pos (show bare.separates c = true from h),
    List.filter_cons_of_neg (by simp)]
  rfl

theorem wordsOf_gap {gap : Text} (h : ∀ c ∈ gap, isSpace c = true) :
    wordsOf (gap ++ text) = wordsOf text := by
  induction gap with
  | nil => rfl
  | cons c gap ih =>
      rw [List.cons_append, wordsOf_space (h c List.mem_cons_self),
        ih fun d hd => h d (List.mem_cons_of_mem _ hd)]

/-- A word that is separated from what follows stands on its own. -/
theorem wordsOf_word (hword : word ≠ []) (hread : bare.readAll word = some inner)
    (hnext : ∀ c ∈ rest.head?, inner.separates c = true) :
    wordsOf (word ++ rest) = word :: wordsOf rest := by
  cases rest with
  | nil =>
      rw [List.append_nil, wordsOf, split_of_readAll hread, List.filter_cons_of_pos (by simpa)]
      rfl
  | cons c rest =>
      have hc : inner.separates c = true := hnext c rfl
      have hspace : isSpace c = true := by
        cases inner with
        | bare => exact hc
        | brackets | quotes | escape => cases hc
      rw [wordsOf_space hspace, wordsOf, split_append hread hc, List.filter_cons_of_pos (by simpa)]
      rfl

/-! ### The scanner -/

/-- A context in which a backslash escapes. -/
def Context.Escapes (context : Context) : Prop :=
  context.separates '\\' = false ∧ context.read '\\' = .escape context

theorem escaped_follows (h : context.Escapes) : Follows context.remainder escaped := by
  intro input rest haccepted
  cases input with
  | nil => cases haccepted
  | cons c input =>
      by_cases hc : c = '\\'
      · subst hc
        cases input with
        | nil =>
            cases haccepted
            refine ⟨Nat.lt_succ_self _, ?_⟩
            rw [remainder_cons h.1, h.2]
            rfl
        | cons d input =>
            cases haccepted
            refine ⟨by simp only [List.length_cons]; omega, ?_⟩
            rw [remainder_cons h.1, h.2, remainder_cons rfl]
            rfl
      · simp [escaped, andThen, satisfy, hc] at haccepted

theorem escaped_eq_none {input : Text} : escaped input = none ↔ input.head? ≠ some '\\' := by
  cases input with
  | nil => simp [escaped, andThen, satisfy]
  | cons c input =>
      by_cases hc : c = '\\'
      · cases input with
        | nil => simp [escaped, andThen, satisfy, opt]
        | cons d input => simp [escaped, andThen, satisfy, opt]
      · simp [escaped, andThen, satisfy, hc]

/-- Characters that leave the context as it is. -/
theorem ordinary_follows {kind : Char → Bool}
    (h : ∀ c, kind c = true → context.separates c = false ∧ context.read c = context) :
    Follows context.remainder (takeWhile1 kind) := by
  apply takeWhile1_follows
  intro c input hc
  obtain ⟨hseparates, hread⟩ := h c hc
  rw [remainder_cons hseparates, hread]

/-- An opening delimiter, parts until one is refused, and a closing delimiter if there is one. -/
theorem delimited_follows {opening closing : Char} {part : Recognizer} {outer : Context}
    (inner : Context)
    (hopens : outer.separates opening = false ∧ outer.read opening = inner)
    (hcloses : inner.separates closing = false ∧ inner.read closing = outer)
    (hpart : Follows inner.remainder part)
    (hrefused : ∀ c input, part (c :: input) = none → c = closing) :
    Follows outer.remainder
      (andThen (satisfy (· = opening)) (andThen (repeat0 part) (opt (satisfy (· = closing))))) ∧
    ∀ input, andThen (satisfy (· = opening)) (andThen
        (repeat0 part) (opt (satisfy (· = closing)))) input =
      none ↔ input.head? ≠ some opening := by
  have hafter : ∀ input, ∃ rest, andThen (repeat0 part)
      (opt (satisfy (· = closing))) input = some rest ∧
        rest.length ≤ input.length ∧ outer.remainder rest = inner.remainder input := by
    intro input
    obtain ⟨mid, hmid, hle, hmeasure, hnone⟩ := repeat0_follows hpart input
    rw [andThen, hmid, Option.bind_some]
    cases mid with
    | nil => exact ⟨[], rfl, hle, hmeasure⟩
    | cons c mid =>
        have hc : c = closing := hrefused c mid hnone
        subst hc
        refine ⟨mid, by simp [opt, satisfy], ?_, ?_⟩
        · rw [List.length_cons] at hle
          omega
        · rw [← hmeasure, remainder_cons hcloses.1, hcloses.2]
  constructor
  · intro input rest haccepted
    cases input with
    | nil => cases haccepted
    | cons c input =>
        by_cases hc : c = opening
        · subst hc
          obtain ⟨found, hfound, hle, hmeasure⟩ := hafter input
          rw [andThen, satisfy, if_pos (by simp), Option.bind_some, hfound] at haccepted
          cases haccepted
          refine ⟨by rw [List.length_cons]; omega, ?_⟩
          rw [hmeasure, remainder_cons hopens.1, hopens.2]
        · simp [andThen, satisfy, hc] at haccepted
  · intro input
    cases input with
    | nil => simp [andThen, satisfy]
    | cons c input =>
        by_cases hc : c = opening
        · subst hc
          obtain ⟨found, hfound, -⟩ := hafter input
          rw [andThen, satisfy, if_pos (by simp), Option.bind_some, hfound]
          simp
        · simp [andThen, satisfy, hc]

theorem bare_escapes : bare.Escapes := ⟨rfl, rfl⟩

theorem brackets_escapes : brackets.Escapes := ⟨rfl, rfl⟩

theorem quotes_escapes (delimiter : Char) (inBrackets : Bool) :
    (quotes delimiter inBrackets).Escapes := ⟨rfl, rfl⟩

/-- A quotation, in brackets or outside of them, goes on where it began. -/
theorem quoted_spec (delimiter : Char) (h : Context.isQuote delimiter = true)
    (inBrackets : Bool) :
    Follows (Context.outside inBrackets).remainder (quoted delimiter) ∧
      ∀ input, quoted delimiter input = none ↔ input.head? ≠ some delimiter := by
  have hbackslash : delimiter ≠ '\\' := by
    rintro rfl
    cases h
  apply delimited_follows (.quotes delimiter inBrackets)
  · have hspace : isSpace delimiter = false := by
      rcases Bool.or_eq_true_iff.mp h with hquote | hquote
      · rw [of_decide_eq_true hquote]
        rfl
      · rw [of_decide_eq_true hquote]
        rfl
    cases inBrackets with
    | true => exact ⟨rfl, by simp [Context.outside, Context.read, hbackslash, h]⟩
    | false => exact ⟨hspace, by simp [Context.outside, Context.read, hbackslash, h]⟩
  · exact ⟨rfl, by rw [Context.read, if_neg hbackslash, if_pos rfl]⟩
  · apply alt_follows
    intro part hpart
    simp only [List.mem_cons, List.not_mem_nil, or_false] at hpart
    rcases hpart with rfl | rfl
    · exact escaped_follows (quotes_escapes _ _)
    · apply ordinary_follows
      intro c hc
      simp only [Bool.and_eq_true, decide_eq_true_eq] at hc
      exact ⟨rfl, by rw [Context.read, if_neg hc.2, if_neg hc.1]⟩
  · intro c input hnone
    rw [alt_eq_none] at hnone
    have hescaped := hnone _ List.mem_cons_self
    have hordinary := hnone _ (List.mem_cons_of_mem _ List.mem_cons_self)
    rw [escaped_eq_none] at hescaped
    rw [takeWhile1_eq_none] at hordinary
    have hc := hordinary c rfl
    by_contra hne
    exact hescaped (by simpa [hne] using hc)

theorem bracketed_spec :
    Follows bare.remainder bracketed ∧
      ∀ input, bracketed input = none ↔ input.head? ≠ some '[' := by
  apply delimited_follows .brackets
  · exact ⟨rfl, rfl⟩
  · exact ⟨rfl, rfl⟩
  · apply alt_follows
    intro part hpart
    simp only [List.mem_cons, List.not_mem_nil, or_false] at hpart
    rcases hpart with rfl | rfl | rfl | rfl
    · exact escaped_follows brackets_escapes
    · exact (quoted_spec _ (by rfl) true).1
    · exact (quoted_spec _ (by rfl) true).1
    · apply ordinary_follows
      intro c hc
      simp only [Bool.and_eq_true, decide_eq_true_eq] at hc
      obtain ⟨⟨⟨hbackslash, hdouble⟩, hsingle⟩, hclose⟩ := hc
      exact ⟨rfl, by simp [Context.read, Context.isQuote, hbackslash, hdouble, hsingle, hclose]⟩
  · intro c input hnone
    rw [alt_eq_none] at hnone
    simp only [List.mem_cons, List.not_mem_nil, or_false, forall_eq_or_imp, forall_eq,
      escaped_eq_none, (quoted_spec '"' (by rfl) true).2,
      (quoted_spec '\'' (by rfl) true).2, Recognizer.takeWhile1_eq_none,
      List.head?_cons, Option.mem_some_iff] at hnone
    obtain ⟨hbackslash, hdouble, hsingle, hordinary⟩ := hnone
    by_contra hne
    simp_all

/-- The parts of an argument. -/
theorem argument_parts :
    Recognizer.Follows Context.bare.remainder
      (Recognizer.alt [escaped, quoted '"', quoted '\'', bracketed, takeWhile1 isOrdinary]) ∧
    ∀ c input, alt [escaped, quoted '"', quoted '\'', bracketed,
        Recognizer.takeWhile1 isOrdinary] (c :: input) = none ↔ isSpace c = true := by
  constructor
  · apply Recognizer.alt_follows
    intro part hpart
    simp only [List.mem_cons, List.not_mem_nil, or_false] at hpart
    rcases hpart with rfl | rfl | rfl | rfl | rfl
    · exact escaped_follows bare_escapes
    · exact (quoted_spec _ (by rfl) false).1
    · exact (quoted_spec _ (by rfl) false).1
    · exact bracketed_spec.1
    · apply ordinary_follows
      intro c hc
      simp only [isOrdinary, Bool.and_eq_true, Bool.not_eq_true', decide_eq_true_eq] at hc
      obtain ⟨⟨⟨⟨hspace, hbackslash⟩, hdouble⟩, hsingle⟩, hbracket⟩ := hc
      exact ⟨hspace,
        by simp [Context.read, Context.isQuote, hbackslash, hdouble, hsingle, hbracket]⟩
  · intro c input
    simp only [Recognizer.alt_eq_none, List.mem_cons, List.not_mem_nil, or_false,
      forall_eq_or_imp, forall_eq, escaped_eq_none,
      (quoted_spec '"' (by rfl) false).2,
      (quoted_spec '\'' (by rfl) false).2, bracketed_spec.2,
      takeWhile1_eq_none, List.head?_cons, Option.mem_some_iff, isOrdinary]
    constructor
    · rintro ⟨hbackslash, hdouble, hsingle, hbracket, hordinary⟩
      by_contra hspace
      simp_all
    · intro hspace
      have hne : ∀ d, isSpace d = false → c ≠ d := by
        rintro d hd rfl
        rw [hd] at hspace
        cases hspace
      have h1 := hne '\\' rfl
      have h2 := hne '"' rfl
      have h3 := hne '\'' rfl
      have h4 := hne '[' rfl
      simp_all

/-- **The scanner takes everything up to the next bare space.** -/
theorem argument_eq (text : Text) (h : isSpace c = false) :
    argument (c :: text) = some (Context.bare.remainder (c :: text)) ∧
      (Context.bare.remainder (c :: text)).length < (c :: text).length := by
  have hstarts : Recognizer.alt [escaped, quoted '"', quoted '\'', bracketed,
      takeWhile1 isOrdinary] (c :: text) ≠ none := by
    rw [ne_eq, argument_parts.2, h]
    exact Bool.false_ne_true
  obtain ⟨rest, hrest, hlt, hmeasure, hnone⟩ := repeat1_follows argument_parts.1 hstarts
  have hend : bare.remainder rest = rest := by
    apply remainder_of_separates
    cases rest with
    | nil => simp
    | cons d rest =>
        rintro e ⟨⟩
        exact (argument_parts.2 d rest).mp hnone
  rw [← hmeasure, hend]
  exact ⟨hrest, hlt⟩

end

/-! ### Words at their places -/

/-- The words of a text that starts at a logical offset: around them there is space only, each is read
without a separator, and where something follows it is separated from it. -/
inductive Cut : ℕ → Text → List (Range × Text) → Prop
  | done {offset : ℕ} {gap : Text} (hgap : ∀ c ∈ gap, isSpace c = true) : Cut offset gap []
  | word {offset : ℕ} {gap word rest : Text} {words : List (Range × Text)} {after : Context}
      (hgap : ∀ c ∈ gap, isSpace c = true) (hword : word ≠ [])
      (hread : bare.readAll word = some after)
      (hnext : ∀ c ∈ rest.head?, after.separates c = true)
      (hrest : Cut (offset + byteLength gap + byteLength word) rest words) :
      Cut offset (gap ++ (word ++ rest))
        ((⟨offset + byteLength gap, offset + byteLength gap + byteLength word⟩, word) :: words)

theorem Cut.wordsOf_eq {offset : ℕ} {text : Text} {words : List (Range × Text)}
    (h : Cut offset text words) : wordsOf text = words.map Prod.snd := by
  induction h with
  | done hgap =>
      rename_i offset gap
      have hwords : wordsOf (gap ++ []) = wordsOf [] := wordsOf_gap hgap
      rwa [List.append_nil] at hwords
  | word hgap hword hread hnext hrest ih =>
      rw [wordsOf_gap hgap, wordsOf_word hword hread hnext, ih]
      rfl

/-- **The first words of a line are the words of their extent.** -/
theorem Cut.front {offset : ℕ} {text : Text} {words front back : List (Range × Text)}
    {first last : Range × Text} (h : Cut offset text words) (hwords : words = front ++ back)
    (hfirst : front.head? = some first) (hlast : front.getLast? = some last) :
    ∃ gap extent rest, text = gap ++ (extent ++ rest) ∧ (∀ c ∈ gap, isSpace c = true) ∧
      (∀ c ∈ extent.head?, isSpace c = false) ∧
      first.1.start = offset + byteLength gap ∧
      last.1.stop = first.1.start + byteLength extent ∧
      wordsOf extent = front.map Prod.snd := by
  induction h generalizing front first with
  | done hgap =>
      obtain ⟨rfl, -⟩ := List.append_eq_nil_iff.mp hwords.symm
      cases hfirst
  | @word offset gap word rest words after hgap hword hread hnext hrest ih =>
      cases front with
      | nil => cases hfirst
      | cons found front =>
          cases hfirst
          obtain ⟨rfl, hwords'⟩ := List.cons.inj hwords
          have hhead : ∀ tail, ∀ c ∈ (word ++ tail).head?, isSpace c = false := by
            intro tail c hc
            cases word with
            | nil => exact absurd rfl hword
            | cons d word =>
                cases hc
                rw [readAll] at hread
                by_contra hspace
                have hseparates : bare.separates c = true := eq_true_of_ne_false hspace
                rw [if_pos hseparates] at hread
                cases hread
          cases front with
          | nil =>
              cases hlast
              refine ⟨gap, word, rest, rfl, hgap, ?_, rfl, rfl, ?_⟩
              · simpa using hhead []
              · have hone : wordsOf (word ++ []) = word :: wordsOf [] :=
                  wordsOf_word hword hread (by simp)
                rwa [List.append_nil] at hone
          | cons second front =>
              have hlast' : (second :: front).getLast? = some last := by
                rwa [List.getLast?_cons_cons] at hlast
              obtain ⟨inner, extent, tail, hrest', hinner, hextent, hstart, hstop, hof⟩ :=
                ih hwords' rfl hlast'
              refine ⟨gap, word ++ (inner ++ extent), tail, ?_, hgap, hhead _, rfl, ?_, ?_⟩
              · rw [hrest']
                simp only [List.append_assoc]
              · simp only [byteLength_append]
                omega
              · -- the words that follow begin behind a separator, so there is one in the extent
                rw [wordsOf_word hword hread ?_, wordsOf_gap hinner, hof]
                · rfl
                · intro c hc
                  refine hnext c ?_
                  rw [hrest', ← List.append_assoc]
                  cases hsplit : inner ++ extent with
                  | nil =>
                      rw [hsplit] at hc
                      cases hc
                  | cons d inside =>
                      rw [hsplit] at hc
                      exact hc

/-- The space before the next word, and the rest. -/
theorem exists_gap (text : Text) :
    ∃ gap, text = gap ++ text.dropWhile isSpace ∧ ∀ c ∈ gap, isSpace c = true :=
  ⟨text.takeWhile isSpace, List.takeWhile_append_dropWhile.symm,
    fun _ hc => List.mem_takeWhile_imp hc⟩

/-- **Every line of faithful spelling is cut into faithful words.** -/
theorem scanArguments_cut {sourceName source : Text} {line : RawText}
    (h : line.Faithful source) {fuel : ℕ} {before remaining : Text}
    (hline : line.text = before ++ remaining) (hfuel : remaining.length < fuel) :
    ∃ words, scanArguments sourceName source line fuel remaining = .ok words ∧
      Cut (byteLength before) remaining (words.map fun word => (word.logicalRange, word.raw.text)) ∧
      ∀ word ∈ words, word.raw.Faithful source := by
  induction fuel generalizing before remaining with
  | zero => exact absurd hfuel (Nat.not_lt_zero _)
  | succ fuel ih =>
      obtain ⟨gap, hsplit, hgap⟩ := exists_gap remaining
      have hdropped := List.head?_dropWhile_not isSpace remaining
      rw [scanArguments]
      cases hremaining : remaining.dropWhile isSpace with
      | nil =>
          rw [hremaining, List.append_nil] at hsplit
          refine ⟨[], rfl, ?_, by simp⟩
          rw [hsplit]
          exact .done hgap
      | cons c text =>
          rw [hremaining] at hsplit hdropped
          have hspace : isSpace c = false := by simpa using hdropped
          obtain ⟨hargument, hshorter⟩ := argument_eq text hspace
          obtain ⟨word, after, htext, hread, hnext⟩ := exists_readAll .bare (c :: text)
          generalize bare.remainder (c :: text) = rest at *
          have hword : word ≠ [] := by
            rintro rfl
            rw [htext] at hshorter
            exact Nat.lt_irrefl _ hshorter
          -- the word at its place in the line
          have hplace : line.text = (before ++ gap) ++ (word ++ rest) := by
            rw [hline, hsplit, htext, List.append_assoc]
          have hlength : byteLength line.text =
              byteLength before + byteLength gap + (byteLength word + byteLength rest) := by
            rw [hplace]
            simp only [byteLength_append]
          have hstart : byteLength line.text - byteLength (c :: text) =
              byteLength before + byteLength gap := by
            rw [htext, byteLength_append]
            omega
          have hstop : byteLength line.text - byteLength rest =
              byteLength before + byteLength gap + byteLength word := by
            omega
          obtain ⟨raw, hraw, hrawtext, hfaithful⟩ := RawText.slice_faithful h
            (⟨byteLength before + byteLength gap,
              byteLength before + byteLength gap + byteLength word⟩)
            hplace (byteLength_append _ _).symm rfl
          -- the words behind it
          have hfuel' : rest.length < fuel := by
            have hle := congrArg List.length hsplit
            rw [List.length_append] at hle
            omega
          obtain ⟨words, hwords, hcut, hall⟩ := @ih (before ++ gap ++ word) rest
            (by rw [hplace]; simp only [List.append_assoc]) hfuel'
          rw [byteLength_append, byteLength_append] at hcut
          refine ⟨⟨⟨byteLength before + byteLength gap,
            byteLength before + byteLength gap + byteLength word⟩, raw⟩ :: words, ?_, ?_, ?_⟩
          · dsimp only [List.isEmpty_cons]
            rw [if_neg Bool.false_ne_true, hargument, hstart]
            dsimp only
            rw [hstop, hraw]
            show (scanArguments sourceName source line fuel rest).map _ = _
            rw [hwords]
            rfl
          · rw [hsplit, htext, List.map_cons, hrawtext]
            exact .word hgap hword hread hnext hcut
          · intro found hfound
            rcases List.mem_cons.mp hfound with rfl | hfound
            · exact hfaithful
            · exact hall found hfound

theorem arguments_cut {source : Text} {line : RawText} (h : line.Faithful source)
    (sourceName : Text) :
    ∃ words, arguments sourceName source line = .ok words ∧
      Cut 0 line.text (words.map fun word => (word.logicalRange, word.raw.text)) ∧
      ∀ word ∈ words, word.raw.Faithful source :=
  scanArguments_cut h (List.nil_append line.text).symm (Nat.lt_succ_self _)

end SwayConfig
