/-
**Streams of bytes that come and go in pieces.**

A transport takes as many bytes at a time as it likes and gives them back in other pieces.  Writing
all of a buffer and filling all of a buffer are loops over such pieces; what they do does not depend on
where the pieces end.

Main definitions: `Sink`, `Sink.writeAll`, `Source`, `Source.readExact`.

Main results:

* `Sink.writeAll_ok` — what is written is the buffer;
* `Source.readExact_spec`, `Source.readExact_ok` — a buffer is filled with what
  comes next, unless the stream ends before.
-/

import Mathlib.Data.List.Basic
import Mathlib.Tactic

namespace ByteStream

/-! ### Errors -/

inductive ErrorKind
  | unexpectedEof
  | writeZero
  | other
  deriving DecidableEq, Repr

structure IoError where
  kind : ErrorKind
  message : Option String := none
  deriving DecidableEq, Repr

/-! ### Writing -/

/-- Each call takes as many bytes as `takes` says, if there are so many, or fails. -/
structure Sink where
  takes : ℕ → Option ℕ
  calls : ℕ := 0
  bytes : List UInt8 := []

variable {result : Except IoError Unit}

namespace Sink

/-- Write what is left of a buffer, in at most `fuel` calls. -/
def writeLoop : ℕ → Sink → List UInt8 → Sink × Except IoError Unit
  | _, s, [] => (s, .ok ())
  | 0, s, _ :: _ => (s, .ok ())
  | fuel + 1, s, byte :: buffer =>
      match s.takes s.calls with
      | none => ({ s with calls := s.calls + 1 }, .error { kind := .other })
      | some 0 => ({ s with calls := s.calls + 1 }, .error { kind := .writeZero })
      | some (count + 1) =>
          writeLoop fuel
            { s with
              calls := s.calls + 1
              bytes := s.bytes ++ (byte :: buffer).take (count + 1) }
            ((byte :: buffer).drop (count + 1))

/-- Every call takes a byte, so there are at most as many as there are bytes. -/
def writeAll (s : Sink) (buffer : List UInt8) : Sink × Except IoError Unit :=
  writeLoop buffer.length s buffer

variable {s s' : Sink} {buffer : List UInt8}

theorem writeLoop_spec {fuel : ℕ} (hfuel : buffer.length ≤ fuel)
    (h : writeLoop fuel s buffer = (s', result)) :
    s'.takes = s.takes ∧ ∃ written, written <+: buffer ∧ s'.bytes = s.bytes ++ written ∧
      (result = .ok () → written = buffer) := by
  induction fuel generalizing s buffer with
  | zero =>
      obtain rfl := List.length_eq_zero_iff.mp (Nat.le_zero.mp hfuel)
      cases h
      exact ⟨rfl, [], List.prefix_rfl, (List.append_nil _).symm, fun _ => rfl⟩
  | succ fuel ih =>
      cases buffer with
      | nil =>
          cases h
          exact ⟨rfl, [], List.prefix_rfl, (List.append_nil _).symm, fun _ => rfl⟩
      | cons byte buffer =>
          unfold writeLoop at h
          split at h
          · cases h
            exact ⟨rfl, [], List.nil_prefix, (List.append_nil _).symm, fun hok => by cases hok⟩
          · cases h
            exact ⟨rfl, [], List.nil_prefix, (List.append_nil _).symm, fun hok => by cases hok⟩
          · rename_i count hcount
            have hrest : ((byte :: buffer).drop (count + 1)).length ≤ fuel := by
              simp only [List.length_drop, List.length_cons] at hfuel ⊢
              omega
            obtain ⟨htakes, written, hfront, hbytes, hok⟩ := ih hrest h
            refine ⟨htakes, (byte :: buffer).take (count + 1) ++ written, ?_, ?_, ?_⟩
            · obtain ⟨left, hleft⟩ := hfront
              exact ⟨left, by rw [List.append_assoc, hleft, List.take_append_drop]⟩
            · rw [hbytes, List.append_assoc]
            · intro hresult
              rw [hok hresult, List.take_append_drop]

/-- **What is written is a part of the buffer**, and all of it if nothing fails. -/
theorem writeAll_spec (h : s.writeAll buffer = (s', result)) :
    s'.takes = s.takes ∧ ∃ written, written <+: buffer ∧ s'.bytes = s.bytes ++ written ∧
      (result = .ok () → written = buffer) :=
  writeLoop_spec (Nat.le_refl _) h

theorem writeAll_ok (h : s.writeAll buffer = (s', .ok ())) : s'.bytes = s.bytes ++ buffer := by
  obtain ⟨-, written, -, hbytes, hok⟩ := writeAll_spec h
  rw [hbytes, hok rfl]

end Sink

/-! ### Reading -/

/-- `bytes` is what is still to come.  Each call gives at least one byte, if there is one, and at most
as many as `gives` says, or fails. -/
structure Source where
  gives : ℕ → Option ℕ
  calls : ℕ := 0
  bytes : List UInt8

namespace Source

/-- Read what is missing in a buffer, in at most `fuel` calls.  What was read stands before what was in
the buffer before. -/
def readLoop : ℕ → Source → List UInt8 → List UInt8 → Source × List UInt8 × Except IoError Unit
  | _, s, filled, [] => (s, filled, .ok ())
  | 0, s, filled, missing => (s, filled ++ missing, .ok ())
  | fuel + 1, s, filled, missing =>
      match s.gives s.calls with
      | none => ({ s with calls := s.calls + 1 }, filled ++ missing, .error { kind := .other })
      | some count =>
          match s.bytes with
          | [] =>
              ({ s with calls := s.calls + 1 }, filled ++ missing,
                .error { kind := .unexpectedEof })
          | _ :: _ =>
              let piece := s.bytes.take (min (max count 1) missing.length)
              readLoop fuel
                { s with calls := s.calls + 1, bytes := s.bytes.drop piece.length }
                (filled ++ piece) (missing.drop piece.length)

/-- Fill a buffer. -/
def readExact (s : Source) (buffer : List UInt8) : Source × List UInt8 × Except IoError Unit :=
  readLoop buffer.length s [] buffer

/-- Nothing but the end of the stream is in the way. -/
def Works (s : Source) : Prop := ∀ call, s.gives call ≠ none

/-- What a call of `readExact` has done. -/
structure Fills (s s' : Source) (filled missing buffer : List UInt8) (result : Except IoError Unit) :
    Prop where
  gives : s'.gives = s.gives
  length : buffer.length = filled.length + missing.length
  moved : ∃ read, s.bytes = read ++ s'.bytes ∧ read.length ≤ missing.length ∧
    (result = .ok () → buffer = filled ++ read ∧ read.length = missing.length)
  works : s.Works → missing.length ≤ s.bytes.length → result = .ok ()

variable {s : Source} {missing : List UInt8}

theorem fills_nothing {filled : List UInt8} {error : IoError}
    (h : s.Works → s.bytes.length < missing.length) :
    Fills s { s with calls := s.calls + 1 } filled missing (filled ++ missing) (.error error) where
  gives := rfl
  length := List.length_append
  moved := ⟨[], rfl, Nat.zero_le _, fun hok => by cases hok⟩
  works := fun hworks hle => absurd hle (Nat.not_le_of_lt (h hworks))

theorem readLoop_spec {fuel : ℕ} {s' : Source} {filled buffer : List UInt8}
    (hfuel : missing.length ≤ fuel) (h : readLoop fuel s filled missing = (s', buffer, result)) :
    Fills s s' filled missing buffer result := by
  induction fuel generalizing s filled missing with
  | zero =>
      obtain rfl := List.length_eq_zero_iff.mp (Nat.le_zero.mp hfuel)
      cases h
      exact ⟨rfl, rfl, ⟨[], rfl, Nat.le_refl _, fun _ => ⟨(List.append_nil _).symm, rfl⟩⟩,
        fun _ _ => rfl⟩
  | succ fuel ih =>
      cases missing with
      | nil =>
          cases h
          exact ⟨rfl, rfl, ⟨[], rfl, Nat.le_refl _, fun _ => ⟨(List.append_nil _).symm, rfl⟩⟩,
            fun _ _ => rfl⟩
      | cons byte missing =>
          unfold readLoop at h
          split at h
          · rename_i hfails
            cases h
            exact fills_nothing fun hworks => absurd hfails (hworks s.calls)
          · rename_i count hcount
            split at h
            · rename_i hempty
              cases h
              exact fills_nothing fun _ => by rw [hempty]; exact Nat.succ_pos _
            · rename_i first others hbytes
              -- at least one byte comes
              generalize hpiece : s.bytes.take (min (max count 1) (byte :: missing).length) = piece at h
              have hlength : piece.length =
                  min (min (max count 1) (byte :: missing).length) s.bytes.length := by
                rw [← hpiece, List.length_take]
              have hpos : 1 ≤ s.bytes.length := by
                rw [hbytes]
                exact Nat.succ_pos _
              have hsplit : s.bytes = piece ++ s.bytes.drop piece.length := by
                have htake : s.bytes.take piece.length = piece := by
                  rw [hlength, ← hpiece, List.take_eq_take_iff]
                  omega
                rw [← htake, List.length_take]
                conv_lhs => rw [← List.take_append_drop piece.length s.bytes]
                congr 2
                omega
              have hshort : ((byte :: missing).drop piece.length).length ≤ fuel := by
                simp only [List.length_drop, List.length_cons] at hfuel hlength ⊢
                omega
              obtain ⟨hgives, hbuffer, ⟨read, hread, hle, hok⟩, hworks⟩ := ih hshort h
              simp only [List.length_drop, List.length_append] at hbuffer hle hworks
              refine ⟨hgives, ?_, ⟨piece ++ read, ?_, ?_, ?_⟩, ?_⟩
              · omega
              · rw [List.append_assoc, ← hread]
                exact hsplit
              · rw [List.length_append]
                omega
              · intro hresult
                obtain ⟨hsame, hfull⟩ := hok hresult
                refine ⟨by rw [hsame, List.append_assoc], ?_⟩
                rw [List.length_drop] at hfull
                rw [List.length_append]
                omega
              · intro hw hroom
                exact hworks hw (by omega)

theorem readExact_spec {s' : Source} {buffer : List UInt8}
    (h : s.readExact missing = (s', buffer, result)) : Fills s s' [] missing buffer result :=
  readLoop_spec (Nat.le_refl _) h

/-- **A buffer is filled with what comes next.** -/
theorem readExact_ok {next rest : List UInt8} (hworks : s.Works) (hbytes : s.bytes = next ++ rest)
    (hlength : next.length = missing.length) :
    ∃ s', s.readExact missing = (s', next, .ok ()) ∧ s'.bytes = rest ∧ s'.Works := by
  have hcall : s.readExact missing =
      ((s.readExact missing).1, (s.readExact missing).2.1, (s.readExact missing).2.2) := rfl
  obtain ⟨hgives, -, ⟨read, hread, -, hok⟩, hworks'⟩ := readExact_spec hcall
  have hresult := hworks' hworks (by rw [hbytes, List.length_append]; omega)
  obtain ⟨hbuffer, hfull⟩ := hok hresult
  rw [hbytes] at hread
  obtain ⟨hsame, hrest⟩ := List.append_inj hread (hlength.trans hfull.symm)
  refine ⟨(s.readExact missing).1, ?_, hrest.symm, ?_⟩
  · rw [List.nil_append, ← hsame] at hbuffer
    rw [← hbuffer, ← hresult]
  · intro call
    rw [hgives]
    exact hworks call

end Source

end ByteStream
