/-
**Framing round trip.**

What is written can be read again, in the same order and to the last byte, however the stream splits
it.  A record that is cut gives an error, and no reader asks memory for more than the bounds.

Main definitions: `Wires`.

Main results:

* `writeItem_ok`, `readItem_ok`, `readItem_cut` — one item;
* `framing_round_trip` — sequences of items.
-/

import Weld.Framing

namespace Framing

open ByteStream

/-! ### Lengths -/

@[simp] theorem length_toLeBytes (n : ℕ) : (toLeBytes n).length = 4 := rfl

variable {n fuel : ℕ}

theorem fromLeBytes_toLeBytes (h : n ≤ u32Max) : fromLeBytes (toLeBytes n) = n := by
  unfold u32Max at h
  simp only [toLeBytes, fromLeBytes, UInt8.toNat_ofNat']
  omega

@[simp] theorem length_resize (buffer : List UInt8) (length : ℕ) :
    (resize buffer length).length = length := by
  unfold resize
  rw [List.length_append, List.length_take, List.length_replicate]
  omega

theorem maxControlBytes_le : maxControlBytes ≤ u32Max := by decide

/-! ### The bytes of an item -/

/-- The bytes of a record with a body. -/
def framed (body : List UInt8) : List UInt8 := toLeBytes body.length ++ body

/-- The header of a packet. -/
def headerOf (packet : Enveloped EncodedAccessUnit) : Enveloped EncodedAccessUnitHeader where
  session := packet.session
  accessUnit :=
    { frame := packet.accessUnit.frame
      codec := packet.accessUnit.codec
      kind := packet.accessUnit.kind
      timestampMicros := packet.accessUnit.timestampMicros
      payloadBytes := packet.accessUnit.payload.length }

section

variable {ι : Type} {T : ι → Type} (codec : ∀ i, Codec (T i))
  (header : Codec (Enveloped EncodedAccessUnitHeader))

/-- An item that is accepted, and its bytes. -/
inductive Wires : Item T → List UInt8 → Prop
  | record {i : ι} {value : T i} {body : List UInt8} (hbody : (codec i).encode value = some body)
      (hlength : body.length ≤ maxControlBytes) : Wires (.record i value) (framed body)
  | media {packet : Enveloped EncodedAccessUnit} {body : List UInt8}
      (hpayload : packet.accessUnit.payload ≠ [])
      (hbytes : packet.accessUnit.payload.length ≤ maxMediaBytes)
      (hbody : header.encode (headerOf packet) = some body)
      (hlength : body.length ≤ maxControlBytes) :
      Wires (.media packet) (framed body ++ packet.accessUnit.payload)

variable {codec header}

/-! ### Writing -/

section Record

variable {U : Type} {record : Codec U} {writer writer' : Sink} {value : U}
  {scratch scratch' : List UInt8}

/-- A record is written as its length and its body. -/
theorem writeRecordBuffered_ok {count : ℕ}
    (h : writeRecordBuffered record writer value scratch = (writer', scratch', .ok count)) :
    ∃ body, record.encode value = some body ∧ body.length ≤ maxControlBytes ∧
      writer'.bytes = writer.bytes ++ framed body ∧ count = (framed body).length := by
  unfold writeRecordBuffered at h
  dsimp only at h
  split at h
  · cases h
  · rename_i body hbody
    have hlength : (clear scratch ++ [0, 0, 0, 0] ++ body).length - 4 = body.length := by
      simp [clear]
    have hdrop : (clear scratch ++ [0, 0, 0, 0] ++ body).drop 4 = body := rfl
    split_ifs at h with hcontrol hwire
    · split at h
      · cases h
      · rename_i writer'' hwrite
        cases h
        exact ⟨body, hbody, hcontrol, Sink.writeAll_ok hwrite, rfl⟩
    · cases h
    · cases h

/-- A body that is too long is rejected before a byte is written. -/
theorem writeRecordBuffered_oversized {body : List UInt8} (hbody : record.encode value = some body)
    (hlength : maxControlBytes < body.length) :
    ∃ scratch', writeRecordBuffered record writer value scratch = (writer, scratch',
      .error { context := "Iroh control record exceeds " ++ toString maxControlBytes ++ " bytes" }) := by
  unfold writeRecordBuffered
  rw [hbody]
  dsimp only
  have hsame : (clear scratch ++ [0, 0, 0, 0] ++ body).length - 4 = body.length := by
    simp [clear]
  rw [hsame, if_pos (Nat.not_le_of_lt hlength)]
  exact ⟨_, rfl⟩

theorem writeRecord_ok (h : writeRecord record writer value = (writer', .ok ())) :
    ∃ body, record.encode value = some body ∧ body.length ≤ maxControlBytes ∧
      writer'.bytes = writer.bytes ++ framed body := by
  unfold writeRecord at h
  split at h
  · cases h
  · rename_i writer'' scratch count hwrite
    cases h
    obtain ⟨body, hbody, hlength, hbytes, -⟩ := writeRecordBuffered_ok hwrite
    exact ⟨body, hbody, hlength, hbytes⟩

end Record

variable {writer : Sink}

/-- A payload that is empty or too long is rejected before a byte is written. -/
theorem writeMedia_invalid {packet : Enveloped EncodedAccessUnit}
    (h : packet.accessUnit.payload = [] ∨ maxMediaBytes < packet.accessUnit.payload.length) :
    writeMedia header writer packet =
      (writer, .error { context := "Iroh media payload has an invalid length" }) := by
  unfold writeMedia
  rw [if_pos]
  rintro ⟨hpayload, hlength⟩
  rcases h with hempty | hlong
  · exact hpayload hempty
  · omega

variable {scratch scratch' : List UInt8}

/-- **An item that is accepted is written as its bytes.** -/
theorem writeItem_ok {writer' : Sink} {item : Item T}
    (h : writeItem codec header writer scratch item = (writer', scratch', .ok ())) :
    ∃ bytes, Wires codec header item bytes ∧ writer'.bytes = writer.bytes ++ bytes := by
  cases item with
  | record i value =>
      unfold writeItem at h
      dsimp only at h
      split at h
      · cases h
      · rename_i writer'' scratch'' count hwrite
        cases h
        obtain ⟨body, hbody, hlength, hbytes, -⟩ := writeRecordBuffered_ok hwrite
        exact ⟨framed body, .record hbody hlength, hbytes⟩
  | media packet =>
      unfold writeItem at h
      dsimp only at h
      cases hmedia : writeMedia header writer packet with
      | mk writer'' result =>
          rw [hmedia] at h
          cases h
          unfold writeMedia at hmedia
          dsimp only at hmedia
          split_ifs at hmedia with hvalid hwire
          · split at hmedia
            · cases hmedia
            · rename_i writer₂ hheader
              split at hmedia
              · cases hmedia
              · rename_i writer₃ hpayload
                cases hmedia
                obtain ⟨body, hbody, hlength, hbytes⟩ := writeRecord_ok hheader
                refine ⟨_, .media hvalid.1 hvalid.2 hbody hlength, ?_⟩
                rw [Sink.writeAll_ok hpayload, hbytes, List.append_assoc]
          · cases hmedia
          · cases hmedia

/-! ### Reading -/

section Read

variable {reader reader' : Reader} {missing buffer : List UInt8} {maximum : ℕ}

theorem Reader.bodies_readExact {result : Except IoError Unit}
    (h : reader.readExact missing = (reader', buffer, result)) : reader'.bodies = reader.bodies := by
  cases h
  rfl

/-- What was read came first. -/
theorem Reader.readExact_moved (h : reader.readExact missing = (reader', buffer, .ok ())) :
    reader.bytes = buffer ++ reader'.bytes ∧ buffer.length = missing.length := by
  unfold Reader.readExact at h
  split at h
  rename_i source buffer' result hread
  cases h
  obtain ⟨-, -, ⟨read, hbytes, -, hok⟩, -⟩ := Source.readExact_spec hread
  obtain ⟨hbuffer, hlength⟩ := hok rfl
  rw [hbuffer]
  exact ⟨hbytes, hlength⟩

theorem Reader.readExact_ok {next rest : List UInt8} (hworks : reader.Works)
    (hbytes : reader.bytes = next ++ rest) (hlength : next.length = missing.length) :
    ∃ reader', reader.readExact missing = (reader', next, .ok ()) ∧ reader'.bytes = rest ∧
      reader'.Works := by
  obtain ⟨source, hread, hrest, hworks'⟩ := Source.readExact_ok hworks hbytes hlength
  refine ⟨{ reader with toSource := source }, ?_, hrest, hworks'⟩
  unfold Reader.readExact
  rw [hread]

variable {length : ℕ} {body : List UInt8}

/-- A length is read from the first four bytes. -/
theorem readLen_moved (h : readLen reader maximum = (reader', .ok length)) :
    ∃ four, reader.bytes = four ++ reader'.bytes ∧ four.length = 4 ∧ fromLeBytes four = length ∧
      length ≤ maximum := by
  unfold readLen at h
  split at h
  · cases h
  · rename_i reader'' four hread
    dsimp only at h
    obtain ⟨hbytes, hfour⟩ := Reader.readExact_moved hread
    split_ifs at h with hle
    · cases h
      exact ⟨four, hbytes, hfour, rfl, hle⟩
    · cases h

variable {rest : List UInt8}

theorem readLen_ok (hworks : reader.Works)
    (hbytes : reader.bytes = toLeBytes length ++ rest) (hle : length ≤ maximum)
    (hmaximum : maximum ≤ u32Max) : ∃ reader', readLen reader maximum = (reader', .ok length) ∧
      reader'.bytes = rest ∧ reader'.Works := by
  have hfour : (toLeBytes length).length = ([0, 0, 0, 0] : List UInt8).length := rfl
  obtain ⟨reader', hread, hrest, hworks'⟩ := Reader.readExact_ok hworks hbytes hfour
  refine ⟨reader', ?_, hrest, hworks'⟩
  unfold readLen
  rw [hread]
  dsimp only
  rw [fromLeBytes_toLeBytes (hle.trans hmaximum), if_pos hle]

variable {U : Type} {record : Codec U} {scratch scratch' : List UInt8} {value : U}

/-- A value is read from a length and a body of that length. -/
theorem readRecordBuffered_moved
    (h : readRecordBuffered record reader scratch = (reader', scratch', .ok value)) :
    ∃ four body, reader.bytes = four ++ (body ++ reader'.bytes) ∧ four.length = 4 ∧
      fromLeBytes four = body.length ∧ record.decode body = some value := by
  unfold readRecordBuffered at h
  split at h
  · cases h
  · rename_i reader₁ length hlength
    obtain ⟨four, hbytes, hfour, hvalue, -⟩ := readLen_moved hlength
    dsimp only at h
    split at h
    · cases h
    · rename_i reader₂ body hread
      obtain ⟨hbody, hsize⟩ := Reader.readExact_moved hread
      rw [length_resize] at hsize
      split at h
      · rename_i value' hdecode
        cases h
        refine ⟨four, scratch', ?_, hfour, hvalue.trans hsize.symm, hdecode⟩
        rw [hbytes]
        exact congrArg _ hbody
      · cases h

variable (scratch) in
theorem readRecordBuffered_ok (hworks : reader.Works) (hbytes : reader.bytes = framed body ++ rest)
    (hlength : body.length ≤ maxControlBytes) (hdecode : record.decode body = some value) :
    ∃ reader' scratch', readRecordBuffered record reader scratch =
      (reader', scratch', .ok value) ∧ reader'.bytes = rest ∧ reader'.Works := by
  rw [framed, List.append_assoc] at hbytes
  obtain ⟨reader₁, hlen, hbytes₁, hworks₁⟩ := readLen_ok hworks hbytes hlength maxControlBytes_le
  have hsize : body.length = (resize scratch body.length).length := (length_resize _ _).symm
  have hasked : (reader₁.ask (.control body.length)).Works := hworks₁
  obtain ⟨reader₂, hread, hbytes₂, hworks₂⟩ := Reader.readExact_ok hasked hbytes₁ hsize
  refine ⟨reader₂, body, ?_, hbytes₂, hworks₂⟩
  unfold readRecordBuffered
  rw [hlen]
  dsimp only
  rw [hread]
  dsimp only
  rw [hdecode]

variable (record scratch) in
/-- **A record that is cut gives an error.** -/
theorem readRecordBuffered_cut (hlength : body.length ≤ maxControlBytes)
    (hfront : reader.bytes <+: framed body) (hcut : reader.bytes.length < (framed body).length) :
    ∃ reader' scratch' failure,
      readRecordBuffered record reader scratch = (reader', scratch', .error failure) := by
  cases hresult : readRecordBuffered record reader scratch with
  | mk reader' rest =>
      obtain ⟨scratch', result⟩ := rest
      cases result with
      | error failure => exact ⟨reader', scratch', failure, rfl⟩
      | ok value =>
          -- all of it would have come
          obtain ⟨four, body', hbytes, hfour, hsize, -⟩ := readRecordBuffered_moved hresult
          obtain ⟨missing, hmissing⟩ := hfront
          rw [hbytes, framed, List.append_assoc] at hmissing
          obtain ⟨hsame, -⟩ := List.append_inj hmissing hfour
          rw [hsame, fromLeBytes_toLeBytes (hlength.trans maxControlBytes_le)] at hsize
          rw [hbytes, framed] at hcut
          simp only [List.length_append, hfour, length_toLeBytes] at hcut
          omega

theorem readRecord_moved (h : readRecord record reader = (reader', .ok value)) :
    ∃ four body, reader.bytes = four ++ (body ++ reader'.bytes) ∧ four.length = 4 ∧
      fromLeBytes four = body.length ∧ record.decode body = some value := by
  unfold readRecord at h
  split at h
  rename_i reader'' scratch result hread
  cases h
  exact readRecordBuffered_moved hread

end Read

section Items

variable {reader : Reader}
  {packet : Enveloped EncodedAccessUnit} {item : Item T} {body : List UInt8}

/-- A packet is read from its header and its payload. -/
theorem readMedia_ok {rest : List UInt8} (hworks : reader.Works)
    (hbytes : reader.bytes = framed body ++ packet.accessUnit.payload ++ rest)
    (hpayload : packet.accessUnit.payload ≠ []) (hle : packet.accessUnit.payload.length ≤ maxMediaBytes)
    (hlength : body.length ≤ maxControlBytes) (hdecode : header.decode body = some (headerOf packet)) :
    ∃ reader', readMedia header reader = (reader', .ok packet) ∧ reader'.bytes = rest ∧
      reader'.Works := by
  rw [List.append_assoc] at hbytes
  obtain ⟨reader₁, scratch, hread, hbytes₁, hworks₁⟩ :=
    readRecordBuffered_ok [] hworks hbytes hlength hdecode
  have hrecord : readRecord header reader = (reader₁, .ok (headerOf packet)) := by
    unfold readRecord
    rw [hread]
  have hsize : packet.accessUnit.payload.length =
      (List.replicate packet.accessUnit.payload.length (0 : UInt8)).length :=
    List.length_replicate.symm
  have hasked : (reader₁.ask (.payload packet.accessUnit.payload.length)).Works := hworks₁
  obtain ⟨reader₂, hread₂, hbytes₂, hworks₂⟩ := Reader.readExact_ok hasked hbytes₁ hsize
  refine ⟨reader₂, ?_, hbytes₂, hworks₂⟩
  unfold readMedia
  rw [hrecord]
  dsimp only [headerOf]
  rw [if_neg (not_not.mpr ⟨List.length_pos_iff.mpr hpayload, hle⟩), hread₂]

variable {bytes rest : List UInt8} {items : List (Item T)}

/-- **An item is read from its bytes**, and no further. -/
theorem readItem_ok (hcodec : ∀ i, (codec i).Inverts) (hheader : header.Inverts)
    (hwires : Wires codec header item bytes) (hworks : reader.Works)
    (hbytes : reader.bytes = bytes ++ rest) (scratch : List UInt8) :
    ∃ reader' scratch', readItem codec header reader scratch item.expected =
      (reader', scratch', .ok item) ∧ reader'.bytes = rest ∧ reader'.Works := by
  cases hwires with
  | record hbody hlength =>
      obtain ⟨reader', scratch', hread, hrest, hworks'⟩ :=
        readRecordBuffered_ok scratch hworks hbytes hlength (hcodec _ _ _ hbody)
      refine ⟨reader', scratch', ?_, hrest, hworks'⟩
      unfold readItem Item.expected
      dsimp only
      rw [hread]
  | media hpayload hle hbody hlength =>
      obtain ⟨reader', hread, hrest, hworks'⟩ :=
        readMedia_ok hworks hbytes hpayload hle hlength (hheader _ _ hbody)
      refine ⟨reader', scratch, ?_, hrest, hworks'⟩
      unfold readItem Item.expected
      rw [hread]

/-- A packet that is cut gives an error. -/
theorem readMedia_cut (hheader : header.Inverts)
    (hbody : header.encode (headerOf packet) = some body) (hlength : body.length ≤ maxControlBytes)
    (hfront : reader.bytes <+: framed body ++ packet.accessUnit.payload)
    (hcut : reader.bytes.length < (framed body ++ packet.accessUnit.payload).length) :
    ∃ reader' failure, readMedia header reader = (reader', .error failure) := by
  cases hresult : readMedia header reader with
  | mk reader' result =>
      cases result with
      | error failure => exact ⟨reader', failure, rfl⟩
      | ok packet' =>
          unfold readMedia at hresult
          split at hresult
          · cases hresult
          · rename_i reader₁ headed hread
            dsimp only at hresult
            split_ifs at hresult with hvalid
            · split at hresult
              · cases hresult
              · rename_i reader₂ payload hpayload
                -- the header is the one that was written, and announces all of the payload
                obtain ⟨four, body', hbytes, hfour, hsize, hdecode⟩ := readRecord_moved hread
                obtain ⟨hmoved, hfilled⟩ := Reader.readExact_moved hpayload
                obtain ⟨missing, hmissing⟩ := hfront
                simp only [hbytes, framed, List.append_assoc] at hmissing
                obtain ⟨hsame, hmissing⟩ := List.append_inj hmissing hfour
                rw [hsame, fromLeBytes_toLeBytes (hlength.trans maxControlBytes_le)] at hsize
                obtain ⟨rfl, -⟩ := List.append_inj hmissing hsize.symm
                rw [hheader _ _ hbody] at hdecode
                cases hdecode
                have hmoved' : reader₁.bytes = payload ++ reader₂.bytes := hmoved
                rw [hbytes, framed, hmoved'] at hcut
                simp only [List.length_append, List.length_replicate, headerOf, hfour,
                  length_toLeBytes] at hcut hfilled
                omega
            · cases hresult

/-- **An item that is cut gives an error.** -/
theorem readItem_cut (hheader : header.Inverts)
    (hwires : Wires codec header item bytes) (hfront : reader.bytes <+: bytes)
    (hcut : reader.bytes.length < bytes.length) (scratch : List UInt8) :
    ∃ reader' scratch' failure,
      readItem codec header reader scratch item.expected = (reader', scratch', .error failure) := by
  cases hwires with
  | record hbody hlength =>
      obtain ⟨reader', scratch', failure, hread⟩ :=
        readRecordBuffered_cut (codec _) scratch hlength hfront hcut
      refine ⟨reader', scratch', failure, ?_⟩
      unfold readItem Item.expected
      dsimp only
      rw [hread]
  | media hpayload hle hbody hlength =>
      obtain ⟨reader', failure, hread⟩ := readMedia_cut hheader hbody hlength hfront hcut
      refine ⟨reader', scratch, failure, ?_⟩
      unfold readItem Item.expected
      rw [hread]

/-! ### Memory -/

/-- A body for which memory may be asked. -/
def Body.Bounded : Body → Prop
  | .control length => length ≤ maxControlBytes
  | .payload length => length ≤ maxMediaBytes

/-- What is asked for is bounded. -/
def Asks (reader reader' : Reader) : Prop :=
  ∃ asked, reader'.bodies = reader.bodies ++ asked ∧ ∀ body ∈ asked, body.Bounded

variable {reader' : Reader}

theorem asks_of_bodies (h : reader'.bodies = reader.bodies) : Asks reader reader' :=
  ⟨[], by rw [h, List.append_nil], fun _ hbody => absurd hbody List.not_mem_nil⟩

theorem asks_one {body : Body} (h : reader'.bodies = reader.bodies ++ [body]) (hbounded : body.Bounded) :
    Asks reader reader' :=
  ⟨[body], h, fun _ hbody => List.mem_singleton.mp hbody ▸ hbounded⟩

theorem Asks.trans {reader'' : Reader} (h : Asks reader reader') (h' : Asks reader' reader'') :
    Asks reader reader'' := by
  obtain ⟨asked, hbodies, hbounded⟩ := h
  obtain ⟨asked', hbodies', hbounded'⟩ := h'
  refine ⟨asked ++ asked', by rw [hbodies', hbodies, List.append_assoc], ?_⟩
  intro body hbody
  rcases List.mem_append.mp hbody with hbody | hbody
  · exact hbounded body hbody
  · exact hbounded' body hbody

theorem bodies_readLen {maximum : ℕ} {result : Except Failure ℕ}
    (h : readLen reader maximum = (reader', result)) : reader'.bodies = reader.bodies := by
  unfold readLen at h
  split at h
  · rename_i hread
    cases h
    exact Reader.bodies_readExact hread
  · rename_i hread
    dsimp only at h
    split_ifs at h
    all_goals
      cases h
      exact Reader.bodies_readExact hread

theorem asks_readRecordBuffered {U : Type} {record : Codec U} {result : Except Failure U}
    (h : readRecordBuffered record reader scratch = (reader', scratch', result)) :
    Asks reader reader' := by
  unfold readRecordBuffered at h
  split at h
  · rename_i hlen
    cases h
    exact asks_of_bodies (bodies_readLen hlen)
  · rename_i reader₁ length hlen
    obtain ⟨-, -, -, -, hle⟩ := readLen_moved hlen
    have hbounded : (Body.control length).Bounded := hle
    have hasked : ∀ {reader₂ buffer result}, (reader₁.ask (.control length)).readExact
        (resize scratch length) = (reader₂, buffer, result) → Asks reader reader₂ := by
      intro reader₂ buffer result hread
      refine asks_one ?_ hbounded
      rw [Reader.bodies_readExact hread, ← bodies_readLen hlen]
      rfl
    dsimp only at h
    split at h
    · rename_i hread
      cases h
      exact hasked hread
    · rename_i hread
      split at h
      all_goals
        cases h
        exact hasked hread

theorem asks_readMedia {result : Except Failure (Enveloped EncodedAccessUnit)}
    (h : readMedia header reader = (reader', result)) : Asks reader reader' := by
  unfold readMedia at h
  have hheader : ∀ {reader₁ result}, readRecord header reader = (reader₁, result) →
      Asks reader reader₁ := by
    intro reader₁ result hread
    unfold readRecord at hread
    split at hread
    rename_i hbuffered
    cases hread
    exact asks_readRecordBuffered hbuffered
  split at h
  · rename_i hread
    cases h
    exact hheader hread
  · rename_i reader₁ packet hread
    dsimp only at h
    split_ifs at h with hvalid
    · have hbounded : (Body.payload packet.accessUnit.payloadBytes).Bounded := hvalid.2
      split at h
      all_goals
        rename_i hpayload
        cases h
        exact (hheader hread).trans (asks_one (Reader.bodies_readExact hpayload) hbounded)
    · cases h
      exact hheader hread

theorem asks_readItem {expected : Expected ι} {result : Except Failure (Item T)}
    (h : readItem codec header reader scratch expected = (reader', scratch', result)) :
    Asks reader reader' := by
  cases expected with
  | record i =>
      unfold readItem at h
      dsimp only at h
      split at h
      all_goals
        rename_i hread
        cases h
        exact asks_readRecordBuffered hread
  | media =>
      unfold readItem at h
      dsimp only at h
      split at h
      all_goals
        rename_i hread
        cases h
        exact asks_readMedia hread

/-- **No reader asks memory for more than the bounds**, whatever comes. -/
theorem asks_readItems {expected : List (Expected ι)} :
    Asks reader (readItems codec header reader scratch expected).1 := by
  induction expected generalizing reader scratch with
  | nil => exact asks_of_bodies rfl
  | cons first rest ih =>
      unfold readItems
      split
      · rename_i hread
        exact asks_readItem hread
      · rename_i reader₁ scratch₁ item hread
        exact (asks_readItem hread).trans ih

/-! ### Sequences -/

variable (codec header) in
/-- The items that are accepted, one after the other, and their bytes. -/
inductive WiresAll : List (Item T) → List UInt8 → Prop
  | nil : WiresAll [] []
  | cons {item : Item T} {items : List (Item T)} {bytes rest : List UInt8}
      (hitem : Wires codec header item bytes) (hitems : WiresAll items rest) :
      WiresAll (item :: items) (bytes ++ rest)

/-- **A sequence that is accepted is written as its bytes.** -/
theorem writeItems_ok {writer' : Sink}
    (h : writeItems codec header writer scratch items = (writer', scratch', .ok ())) :
    ∃ bytes, WiresAll codec header items bytes ∧ writer'.bytes = writer.bytes ++ bytes := by
  induction items generalizing writer scratch with
  | nil =>
      cases h
      exact ⟨[], .nil, (List.append_nil _).symm⟩
  | cons item items ih =>
      unfold writeItems at h
      split at h
      · cases h
      · rename_i writer₁ scratch₁ hwrite
        obtain ⟨bytes, hwires, hbytes⟩ := writeItem_ok hwrite
        obtain ⟨rest, hall, hrest⟩ := ih h
        refine ⟨bytes ++ rest, .cons hwires hall, ?_⟩
        rw [hrest, hbytes, List.append_assoc]

/-- **What was in the scratch buffer does not matter**, for what is written and for the result. -/
theorem writeItems_scratch (items : List (Item T)) (writer : Sink) (scratch other : List UInt8) :
    (writeItems codec header writer scratch items).1 =
        (writeItems codec header writer other items).1 ∧
      (writeItems codec header writer scratch items).2.2 =
        (writeItems codec header writer other items).2.2 := by
  induction items generalizing writer scratch other with
  | nil => exact ⟨rfl, rfl⟩
  | cons item items ih =>
      cases item with
      | record i value =>
          -- a record starts with a cleared buffer
          have hsame : writeItem codec header writer scratch (.record i value) =
              writeItem codec header writer other (.record i value) := rfl
          unfold writeItems
          rw [hsame]
          split
          · exact ⟨rfl, rfl⟩
          · exact ⟨rfl, rfl⟩
      | media packet =>
          unfold writeItems writeItem
          dsimp only
          cases writeMedia header writer packet with
          | mk writer₁ result =>
              cases result with
              | error failure => exact ⟨rfl, rfl⟩
              | ok done => exact ih writer₁ scratch other

/-- **A sequence is read from its bytes**, and no further. -/
theorem readItems_ok (hcodec : ∀ i, (codec i).Inverts) (hheader : header.Inverts)
    (hwires : WiresAll codec header items bytes)
    (hworks : reader.Works) (hbytes : reader.bytes = bytes ++ rest) (scratch : List UInt8) :
    ∃ reader' scratch', readItems codec header reader scratch (items.map Item.expected) =
      (reader', scratch', items, none) ∧ reader'.bytes = rest := by
  induction hwires generalizing reader scratch with
  | nil => exact ⟨reader, scratch, rfl, hbytes⟩
  | cons hitem hitems ih =>
      rw [List.append_assoc] at hbytes
      obtain ⟨reader₁, scratch₁, hread, hbytes₁, hworks₁⟩ :=
        readItem_ok hcodec hheader hitem hworks hbytes scratch
      obtain ⟨reader₂, scratch₂, hreads, hbytes₂⟩ := ih hworks₁ hbytes₁ scratch₁
      refine ⟨reader₂, scratch₂, ?_, hbytes₂⟩
      rw [List.map_cons]
      unfold readItems
      rw [hread]
      dsimp only
      rw [hreads]

/-- **A sequence that is cut gives the items before the cut, and an error.** -/
theorem readItems_cut (hcodec : ∀ i, (codec i).Inverts) (hheader : header.Inverts)
    (hwires : WiresAll codec header items bytes)
    (hworks : reader.Works) (hfront : reader.bytes <+: bytes)
    (hcut : reader.bytes.length < bytes.length) (scratch : List UInt8) :
    ∃ got next more before cut failure, items = got ++ next :: more ∧
      WiresAll codec header got before ∧ Wires codec header next cut ∧
      before <+: reader.bytes ∧ reader.bytes.length < before.length + cut.length ∧
      (readItems codec header reader scratch (items.map Item.expected)).2.2 =
        (got, some failure) := by
  induction hwires generalizing reader scratch with
  | nil => exact absurd hcut (Nat.not_lt_zero _)
  | @cons item items bytes rest hitem hitems ih =>
      rw [List.map_cons]
      by_cases hwhole : bytes.length ≤ reader.bytes.length
      · -- the first item is there
        obtain ⟨left, hleft⟩ : bytes <+: reader.bytes :=
          List.prefix_of_prefix_length_le (List.prefix_append _ _) hfront hwhole
        obtain ⟨reader₁, scratch₁, hread, hbytes₁, hworks₁⟩ :=
          readItem_ok hcodec hheader hitem hworks hleft.symm scratch
        have hfront₁ : reader₁.bytes <+: rest := by
          rw [hbytes₁]
          rw [← hleft] at hfront
          exact (List.prefix_append_right_inj _).mp hfront
        have hcut₁ : reader₁.bytes.length < rest.length := by
          rw [hbytes₁]
          rw [← hleft, List.length_append, List.length_append] at hcut
          omega
        obtain ⟨got, next, more, before, cut, failure, rfl, hgot, hnext, hbefore, hshort, hreads⟩ :=
          ih hworks₁ hfront₁ hcut₁ scratch₁
        refine ⟨item :: got, next, more, bytes ++ before, cut, failure, rfl, .cons hitem hgot,
          hnext, ?_, ?_, ?_⟩
        · rw [← hleft, ← hbytes₁]
          exact (List.prefix_append_right_inj _).mpr hbefore
        · rw [← hleft, ← hbytes₁, List.length_append, List.length_append]
          omega
        · unfold readItems
          rw [hread]
          have hgot' := congrArg Prod.fst hreads
          have hfailure := congrArg Prod.snd hreads
          dsimp only at hgot' hfailure ⊢
          rw [hgot', hfailure]
      · have hpart : reader.bytes <+: bytes :=
          List.prefix_of_prefix_length_le hfront (List.prefix_append _ _)
            (Nat.le_of_lt (Nat.lt_of_not_le hwhole))
        obtain ⟨reader₁, scratch₁, failure, hread⟩ :=
          readItem_cut hheader hitem hpart (Nat.lt_of_not_le hwhole) scratch
        refine ⟨[], item, items, [], bytes, failure, rfl, .nil, hitem, List.nil_prefix, ?_, ?_⟩
        · rw [List.length_nil, Nat.zero_add]
          exact Nat.lt_of_not_le hwhole
        · unfold readItems
          rw [hread]

end Items

end

/-! ### The round trip -/

/-- **Framing round trip.**  A sequence that is accepted is read again, whole and to its last byte; a
sequence that is cut gives the items before the cut, and then an error.  What is too long or empty is
rejected before a byte is written, and no reader asks memory for more than the bounds. -/
theorem framing_round_trip {ι : Type} {T : ι → Type} (codec : ∀ i, Codec (T i))
    (header : Codec (Enveloped EncodedAccessUnitHeader)) (hcodec : ∀ i, (codec i).Inverts)
    (hheader : header.Inverts) :
    (∀ (items : List (Item T)) (writer writer' : Sink) (scratch scratch' : List UInt8),
      writeItems codec header writer scratch items = (writer', scratch', .ok ()) →
      ∃ bytes, writer'.bytes = writer.bytes ++ bytes ∧
        (∀ (reader : Reader) (buffer rest : List UInt8), reader.Works →
          reader.bytes = bytes ++ rest → ∃ reader' buffer',
            readItems codec header reader buffer (items.map Item.expected) =
              (reader', buffer', items, none) ∧ reader'.bytes = rest) ∧
        ∀ (reader : Reader) (buffer : List UInt8), reader.Works → reader.bytes <+: bytes →
          reader.bytes.length < bytes.length →
            ∃ got next more before cut failure, items = got ++ next :: more ∧
              WiresAll codec header got before ∧ Wires codec header next cut ∧
              before <+: reader.bytes ∧ reader.bytes.length < before.length + cut.length ∧
              (readItems codec header reader buffer (items.map Item.expected)).2.2 =
                (got, some failure)) ∧
    (∀ (items : List (Item T)) (writer : Sink) (scratch other : List UInt8),
      (writeItems codec header writer scratch items).1 =
          (writeItems codec header writer other items).1 ∧
        (writeItems codec header writer scratch items).2.2 =
          (writeItems codec header writer other items).2.2) ∧
    (∀ (i : ι) (value : T i) (body : List UInt8) (writer : Sink) (scratch : List UInt8),
      (codec i).encode value = some body → maxControlBytes < body.length →
        ∃ scratch' failure, writeRecordBuffered (codec i) writer value scratch =
          (writer, scratch', .error failure)) ∧
    (∀ (packet : Enveloped EncodedAccessUnit) (writer : Sink),
      packet.accessUnit.payload = [] ∨ maxMediaBytes < packet.accessUnit.payload.length →
        ∃ failure, writeMedia header writer packet = (writer, .error failure)) ∧
    ∀ (reader : Reader) (scratch : List UInt8) (expected : List (Expected ι)),
      Asks reader (readItems codec header reader scratch expected).1 := by
  refine ⟨?_, writeItems_scratch, ?_, ?_, fun _ _ _ => asks_readItems⟩
  · intro items writer writer' scratch scratch' h
    obtain ⟨bytes, hwires, hbytes⟩ := writeItems_ok h
    refine ⟨bytes, hbytes, ?_, ?_⟩
    · intro reader buffer rest hworks hrest
      exact readItems_ok hcodec hheader hwires hworks hrest buffer
    · intro reader buffer hworks hfront hcut
      exact readItems_cut hcodec hheader hwires hworks hfront hcut buffer
  · intro i value body writer scratch hbody hlength
    obtain ⟨scratch', hrejected⟩ := writeRecordBuffered_oversized hbody hlength
    exact ⟨scratch', _, hrejected⟩
  · exact fun packet writer h => ⟨_, writeMedia_invalid h⟩

/-! ### An example -/

/-- How `postcard` writes an integer: seven bits a byte, the lowest first. -/
def varint : ℕ → ℕ → List UInt8
  | 0, n => [UInt8.ofNat n]
  | fuel + 1, n =>
      if n < 128 then [UInt8.ofNat n] else UInt8.ofNat (n % 128 + 128) :: varint fuel (n / 128)

def readVarint : List UInt8 → Option (ℕ × List UInt8)
  | [] => none
  | byte :: bytes =>
      if byte.toNat < 128 then some (byte.toNat, bytes)
      else (readVarint bytes).map fun (n, rest) => (byte.toNat - 128 + 128 * n, rest)

theorem readVarint_varint (h : n < 128 ^ (fuel + 1)) (rest : List UInt8) :
    readVarint (varint fuel n ++ rest) = some (n, rest) := by
  have hlast : ∀ n, n < 128 → readVarint ([UInt8.ofNat n] ++ rest) = some (n, rest) := by
    intro n hsmall
    have hbyte : (UInt8.ofNat n).toNat = n := by
      rw [UInt8.toNat_ofNat']
      omega
    rw [List.singleton_append, readVarint, hbyte, if_pos hsmall]
  induction fuel generalizing n with
  | zero => exact hlast n (by simpa using h)
  | succ fuel ih =>
      unfold varint
      split_ifs with hsmall
      · exact hlast n hsmall
      · have hbyte : (UInt8.ofNat (n % 128 + 128)).toNat = n % 128 + 128 := by
          rw [UInt8.toNat_ofNat']
          omega
        have hrest : n / 128 < 128 ^ (fuel + 1) := by
          exact Nat.div_lt_of_lt_mul (by rwa [Nat.mul_comm])
        rw [List.cons_append, readVarint, hbyte, if_neg (by omega), ih hrest, Option.map_some]
        have hsum : n % 128 + 128 - 128 + 128 * (n / 128) = n := by omega
        dsimp only
        rw [hsum]

/-- Read integers until there is no byte left. -/
def readFields : ℕ → List UInt8 → Option (List ℕ)
  | _, [] => some []
  | 0, _ :: _ => none
  | fuel + 1, bytes =>
      match readVarint bytes with
      | some (n, rest) => (readFields fuel rest).map (n :: ·)
      | none => none

theorem varint_ne_nil (fuel n : ℕ) : varint fuel n ≠ [] := by
  cases fuel with
  | zero => exact List.cons_ne_nil _ _
  | succ fuel =>
      unfold varint
      split_ifs <;> exact List.cons_ne_nil _ _

theorem readFields_flatMap {fields : List ℕ} (h : ∀ n ∈ fields, n < 2 ^ 64)
    (hfuel : fields.length ≤ fuel) : readFields fuel (fields.flatMap (varint 9)) = some fields := by
  induction fields generalizing fuel with
  | nil => cases fuel <;> rfl
  | cons n fields ih =>
      cases fuel with
      | zero => exact absurd hfuel (Nat.not_succ_le_zero _)
      | succ fuel =>
          have hn : n < 128 ^ (9 + 1) := (h n List.mem_cons_self).trans (by decide)
          have hrest := ih (fun m hm => h m (List.mem_cons_of_mem n hm)) (Nat.le_of_succ_le_succ hfuel)
          rw [List.flatMap_cons]
          cases hbytes : varint 9 n ++ fields.flatMap (varint 9) with
          | nil => exact absurd (List.append_eq_nil_iff.mp hbytes).1 (varint_ne_nil 9 n)
          | cons byte bytes =>
              unfold readFields
              rw [← hbytes, readVarint_varint hn]
              dsimp only
              rw [hrest, Option.map_some]

/-- A value as the integers in its fields, one after the other. -/
def fieldsCodec {U : Type} (fields : U → List ℕ) (build : List ℕ → Option U) : Codec U where
  encode := fun value =>
    if ∀ n ∈ fields value, n < 2 ^ 64 then some ((fields value).flatMap (varint 9)) else none
  decode := fun body => (readFields body.length body).bind build

theorem fieldsCodec_inverts {U : Type} {fields : U → List ℕ} {build : List ℕ → Option U}
    (h : ∀ value, build (fields value) = some value) : (fieldsCodec fields build).Inverts := by
  intro value body hbody
  unfold fieldsCodec at hbody ⊢
  dsimp only at hbody ⊢
  split_ifs at hbody with hsmall
  cases hbody
  have hlength : ∀ l : List ℕ, l.length ≤ (l.flatMap (varint 9)).length := by
    intro l
    induction l with
    | nil => exact Nat.le_refl _
    | cons n l ih =>
        have hpos := List.length_pos_iff.mpr (varint_ne_nil 9 n)
        rw [List.flatMap_cons, List.length_append, List.length_cons]
        omega
  rw [readFields_flatMap hsmall (hlength _), Option.bind_some, h]

def numberCodec : Codec ℕ := fieldsCodec (fun n => [n]) fun fields => fields.head?

def VideoCodec.index : VideoCodec → ℕ
  | .av1 => 0
  | .vp9 => 1
  | .h264 => 2

def EncodedFrameKind.index : EncodedFrameKind → ℕ
  | .keyframe => 0
  | .delta => 1

def headerCodec : Codec (Enveloped EncodedAccessUnitHeader) :=
  fieldsCodec (fun packet =>
      [packet.session, packet.accessUnit.frame.stream, packet.accessUnit.frame.generation,
        packet.accessUnit.frame.sequence, packet.accessUnit.codec.index,
        packet.accessUnit.kind.index, packet.accessUnit.timestampMicros,
        packet.accessUnit.payloadBytes])
    fun fields =>
      match fields with
      | [session, stream, generation, sequence, codec, kind, timestampMicros, payloadBytes] =>
          some
            { session
              accessUnit :=
                { frame := { stream, generation, sequence }
                  codec := match codec with | 0 => .av1 | 1 => .vp9 | _ => .h264
                  kind := match kind with | 0 => .keyframe | _ => .delta
                  timestampMicros
                  payloadBytes } }
      | _ => none

theorem headerCodec_inverts : headerCodec.Inverts := by
  refine fieldsCodec_inverts fun packet => ?_
  obtain ⟨session, frame, codec, kind, timestampMicros, payloadBytes⟩ := packet
  cases codec <;> cases kind <;> rfl

def exampleItems : List (Item fun _ : Unit => ℕ) :=
  [.record () 900,
    .media
      { session := 1
        accessUnit :=
          { frame := { stream := 2, generation := 3, sequence := 4 }
            codec := .av1
            kind := .keyframe
            timestampMicros := 5
            payload := [6, 7, 8] } }]

/-- The example, written two bytes at a time. -/
def exampleWritten : Sink × List UInt8 × Except Failure Unit :=
  writeItems (fun _ => numberCodec) headerCodec { takes := fun _ => some 2 } [] exampleItems

/-- What is written two bytes at a time is read three bytes at a time. -/
theorem framing_round_trip_in_pieces : ∃ reader' buffer',
    readItems (fun _ => numberCodec) headerCodec
      { gives := fun _ => some 3, bytes := exampleWritten.1.bytes } []
      (exampleItems.map Item.expected) = (reader', buffer', exampleItems, none) ∧
    reader'.bytes = [] := by
  have hwritten : exampleWritten = (exampleWritten.1, exampleWritten.2.1, .ok ()) :=
    Prod.ext rfl (Prod.ext rfl rfl)
  obtain ⟨bytes, hbytes, hread, -⟩ := (framing_round_trip (fun _ : Unit => numberCodec) headerCodec
    (fun _ => fieldsCodec_inverts fun _ => rfl) headerCodec_inverts).1 exampleItems
      { takes := fun _ => some 2 } exampleWritten.1 [] exampleWritten.2.1 hwritten
  rw [List.nil_append] at hbytes
  refine hread _ [] [] ?_ ?_
  · intro call hnone
    cases hnone
  · rw [List.append_nil]
    exact hbytes

end Framing
