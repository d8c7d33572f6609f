/-
**Record framing on a stream.**

A control record is its length, in four bytes with the lowest first, and its body; a media packet is a
record, the header, and the payload that the header announces.  The functions of `framing.rs` follow,
over a stream of bytes that come and go in any pieces.

How a value becomes a body is up to `postcard`, here a `Codec` for each type.  Conversions between
integers that cannot fail are left out.  `bodies` is not part of the source; it records for which
bodies a reader asks memory.

Main definitions: `Codec`, `Codec.Inverts`, `writeRecordBuffered`, `readRecordBuffered`,
`writeMedia`, `readMedia`.
-/

import Weld.ByteStreams
import Weld.EncodedDestination

namespace Framing

open ByteStream
open Encoded (MediaFrameId maxEncodedAccessUnitBytes)

/-! ### Values -/

/-- `encode` is what `postcard::to_extend` appends, and `decode` what `postcard::from_bytes` reads. -/
structure Codec (T : Type) where
  encode : T → Option (List UInt8)
  decode : List UInt8 → Option T

/-- What was written can be read. -/
def Codec.Inverts {T : Type} (codec : Codec T) : Prop :=
  ∀ value body, codec.encode value = some body → codec.decode body = some value

inductive VideoCodec
  | av1
  | vp9
  | h264
  deriving DecidableEq, Repr

inductive EncodedFrameKind
  | keyframe
  | delta
  deriving DecidableEq, Repr

structure EncodedAccessUnit where
  frame : MediaFrameId
  codec : VideoCodec
  kind : EncodedFrameKind
  timestampMicros : ℕ
  payload : List UInt8
  deriving DecidableEq

structure EncodedAccessUnitHeader where
  frame : MediaFrameId
  codec : VideoCodec
  kind : EncodedFrameKind
  timestampMicros : ℕ
  payloadBytes : ℕ
  deriving DecidableEq, Repr

/-- What travels with a session. -/
structure Enveloped (A : Type) where
  session : ℕ
  accessUnit : A
  deriving DecidableEq

def maxControlBytes : ℕ := 192 * 1024

def maxMediaBytes : ℕ := maxEncodedAccessUnitBytes

def u32Max : ℕ := 2 ^ 32 - 1

/-- `u32::to_le_bytes`. -/
def toLeBytes (n : ℕ) : List UInt8 :=
  [UInt8.ofNat (n % 256), UInt8.ofNat (n / 256 % 256), UInt8.ofNat (n / 65536 % 256),
    UInt8.ofNat (n / 16777216 % 256)]

/-- `u32::from_le_bytes`. -/
def fromLeBytes : List UInt8 → ℕ
  | [] => 0
  | byte :: bytes => byte.toNat + 256 * fromLeBytes bytes

/-! ### Errors -/

/-- The context of an error, and what was the cause if it came from the stream. -/
structure Failure where
  context : String
  cause : Option IoError := none
  deriving DecidableEq, Repr

def normalizeEof (error : IoError) : IoError :=
  if error.kind = .unexpectedEof then
    { kind := .unexpectedEof, message := some "Iroh stream ended" }
  else error

/-! ### Control records -/

/-- `Vec::clear`. -/
def clear (buffer : List UInt8) : List UInt8 := buffer.take 0

/-- Writes one record.  The scratch buffer holds four bytes for the length and then the body; it is
consumed when the body cannot be encoded. -/
def writeRecordBuffered {T : Type} (codec : Codec T) (writer : Sink) (value : T)
    (scratch : List UInt8) : Sink × List UInt8 × Except Failure ℕ :=
  let scratch := clear scratch ++ [0, 0, 0, 0]
  match codec.encode value with
  | none => (writer, [], .error { context := "could not encode Iroh control record" })
  | some encoded =>
      let scratch := scratch ++ encoded
      let bodyLength := scratch.length - 4
      if ¬ bodyLength ≤ maxControlBytes then
        (writer, scratch,
          .error { context := "Iroh control record exceeds " ++ toString maxControlBytes ++ " bytes" })
      else if ¬ bodyLength ≤ u32Max then
        (writer, scratch, .error { context := "Iroh frame length exceeds wire range" })
      else
        let scratch := toLeBytes bodyLength ++ scratch.drop 4
        match writer.writeAll scratch with
        | (writer, .error error) =>
            (writer, scratch,
              .error { context := "could not write Iroh control record", cause := some error })
        | (writer, .ok ()) => (writer, scratch, .ok scratch.length)

def writeRecord {T : Type} (codec : Codec T) (writer : Sink) (value : T) :
    Sink × Except Failure Unit :=
  match writeRecordBuffered codec writer value [] with
  | (writer, _, .error failure) => (writer, .error failure)
  | (writer, _, .ok _) => (writer, .ok ())

/-- A body for which a reader asks memory. -/
inductive Body
  | control (length : ℕ)
  | payload (length : ℕ)
  deriving DecidableEq, Repr

structure Reader extends Source where
  bodies : List Body := []

/-- Ask memory for a body. -/
def Reader.ask (reader : Reader) (body : Body) : Reader :=
  { reader with bodies := reader.bodies ++ [body] }

/-- Fill a buffer from the stream. -/
def Reader.readExact (reader : Reader) (buffer : List UInt8) :
    Reader × List UInt8 × Except IoError Unit :=
  match reader.toSource.readExact buffer with
  | (source, buffer, result) => ({ reader with toSource := source }, buffer, result)

def readLen (reader : Reader) (maximum : ℕ) : Reader × Except Failure ℕ :=
  match reader.readExact [0, 0, 0, 0] with
  | (reader, _, .error error) =>
      (reader,
        .error { context := "could not read Iroh frame length", cause := some (normalizeEof error) })
  | (reader, bytes, .ok ()) =>
      let length := fromLeBytes bytes
      if length ≤ maximum then (reader, .ok length)
      else (reader, .error { context := "Iroh frame exceeds " ++ toString maximum ++ " bytes" })

/-- `Vec::resize` with zeros. -/
def resize (buffer : List UInt8) (length : ℕ) : List UInt8 :=
  buffer.take length ++ List.replicate (length - buffer.length) 0

def readRecordBuffered {T : Type} (codec : Codec T) (reader : Reader) (scratch : List UInt8) :
    Reader × List UInt8 × Except Failure T :=
  match readLen reader maxControlBytes with
  | (reader, .error failure) => (reader, scratch, .error failure)
  | (reader, .ok length) =>
      let scratch := resize scratch length
      match (reader.ask (.control length)).readExact scratch with
      | (reader, scratch, .error error) =>
          (reader, scratch,
            .error { context := "Iroh control record was truncated", cause := some error })
      | (reader, scratch, .ok ()) =>
          match codec.decode scratch with
          | some value => (reader, scratch, .ok value)
          | none => (reader, scratch, .error { context := "Iroh control record is invalid" })

def readRecord {T : Type} (codec : Codec T) (reader : Reader) : Reader × Except Failure T :=
  match readRecordBuffered codec reader [] with
  | (reader, _, result) => (reader, result)

/-! ### Media packets -/

section Media

variable (header : Codec (Enveloped EncodedAccessUnitHeader))

def writeMedia (writer : Sink) (packet : Enveloped EncodedAccessUnit) :
    Sink × Except Failure Unit :=
  let unit := packet.accessUnit
  if ¬ (unit.payload ≠ [] ∧ unit.payload.length ≤ maxMediaBytes) then
    (writer, .error { context := "Iroh media payload has an invalid length" })
  else if ¬ unit.payload.length ≤ u32Max then
    (writer, .error { context := "Iroh media payload length exceeds wire range" })
  else
    match writeRecord header writer
      { session := packet.session
        accessUnit :=
          { frame := unit.frame
            codec := unit.codec
            kind := unit.kind
            timestampMicros := unit.timestampMicros
            payloadBytes := unit.payload.length } } with
    | (writer, .error failure) => (writer, .error failure)
    | (writer, .ok ()) =>
        match writer.writeAll unit.payload with
        | (writer, .error error) =>
            (writer, .error { context := "could not write Iroh media payload", cause := some error })
        | (writer, .ok ()) => (writer, .ok ())

def readMedia (reader : Reader) : Reader × Except Failure (Enveloped EncodedAccessUnit) :=
  match readRecord header reader with
  | (reader, .error failure) => (reader, .error failure)
  | (reader, .ok packet) =>
      let unit := packet.accessUnit
      if ¬ (0 < unit.payloadBytes ∧ unit.payloadBytes ≤ maxMediaBytes) then
        (reader, .error { context := "Iroh media payload has an invalid length" })
      else
        match (reader.ask (.payload unit.payloadBytes)).readExact
          (List.replicate unit.payloadBytes 0) with
        | (reader, _, .error error) =>
            (reader, .error { context := "Iroh media payload was truncated", cause := some error })
        | (reader, payload, .ok ()) =>
            (reader, .ok
              { session := packet.session
                accessUnit :=
                  { frame := unit.frame
                    codec := unit.codec
                    kind := unit.kind
                    timestampMicros := unit.timestampMicros
                    payload } })

end Media

/-! ### Sequences -/

/-- A control record of one of several types, or a media packet. -/
inductive Item {ι : Type} (T : ι → Type)
  | record (i : ι) (value : T i)
  | media (packet : Enveloped EncodedAccessUnit)

/-- What a reader expects next. -/
inductive Expected (ι : Type)
  | record (i : ι)
  | media

section Sequences

variable {ι : Type} {T : ι → Type} (codec : ∀ i, Codec (T i))
  (header : Codec (Enveloped EncodedAccessUnitHeader))

def Item.expected : Item T → Expected ι
  | .record i _ => .record i
  | .media _ => .media

/-- All control records share a scratch buffer. -/
def writeItem (writer : Sink) (scratch : List UInt8) : Item T → Sink × List UInt8 × Except Failure Unit
  | .record i value =>
      match writeRecordBuffered (codec i) writer value scratch with
      | (writer, scratch, .error failure) => (writer, scratch, .error failure)
      | (writer, scratch, .ok _) => (writer, scratch, .ok ())
  | .media packet =>
      match writeMedia header writer packet with
      | (writer, result) => (writer, scratch, result)

/-- The first error is the end of it. -/
def writeItems (writer : Sink) (scratch : List UInt8) :
    List (Item T) → Sink × List UInt8 × Except Failure Unit
  | [] => (writer, scratch, .ok ())
  | item :: items =>
      match writeItem codec header writer scratch item with
      | (writer, scratch, .error failure) => (writer, scratch, .error failure)
      | (writer, scratch, .ok ()) => writeItems writer scratch items

def readItem (reader : Reader) (scratch : List UInt8) :
    Expected ι → Reader × List UInt8 × Except Failure (Item T)
  | .record i =>
      match readRecordBuffered (codec i) reader scratch with
      | (reader, scratch, .error failure) => (reader, scratch, .error failure)
      | (reader, scratch, .ok value) => (reader, scratch, .ok (.record i value))
  | .media =>
      match readMedia header reader with
      | (reader, .error failure) => (reader, scratch, .error failure)
      | (reader, .ok packet) => (reader, scratch, .ok (.media packet))

/-- The values read, and the error that ended it. -/
def readItems (reader : Reader) (scratch : List UInt8) :
    List (Expected ι) → Reader × List UInt8 × List (Item T) × Option Failure
  | [] => (reader, scratch, [], none)
  | expected :: rest =>
      match readItem codec header reader scratch expected with
      | (reader, scratch, .error failure) => (reader, scratch, [], some failure)
      | (reader, scratch, .ok item) =>
          match readItems reader scratch rest with
          | (reader, scratch, items, failure) => (reader, scratch, item :: items, failure)

end Sequences

end Framing
