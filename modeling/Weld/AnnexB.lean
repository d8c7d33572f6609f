/-
**H.264 access units in Annex B form.**

In what the VA-API driver writes, every NAL unit follows a start code `00 00 01`, with any number of
zero bytes around it.  `normalize_annex_b` puts exactly `00 00 00 01` before each; from the result the
viewer's `h264_annex_b_headers` takes the parameter sets.  A stream is read here as its *units*: cut at
every start code, trailing zeros removed, empty pieces dropped.

Main definitions: `normalizeAnnexB`, `h264AnnexBHeaders`, `units`.

Main results: `normalize_annex_b_keeps_the_units`, `headers_of_a_normalized_access_unit`.
-/

import Mathlib.Data.List.DropRight
import Mathlib.Data.List.Infix
import Mathlib.Tactic.Common

namespace AnnexB

/-! ### The encoder's scanner -/

/-- Where the start code at `index` begins: at the zero byte before it, if there is one. -/
def startAt (bytes : List UInt8) (index : ℕ) : ℕ :=
  if 0 < index ∧ bytes[index - 1]? = some 0 then index - 1 else index

/-- The first loop: where each start code begins. -/
def scan (bitstream : List UInt8) (index : ℕ) (starts : List ℕ) : List ℕ :=
  if index + 3 ≤ bitstream.length then
    if [0, 0, 1] <+: bitstream.drop index then
      scan bitstream (index + 3) (if starts.getLast? = some (startAt bitstream index) then starts
        else starts ++ [startAt bitstream index])
    else scan bitstream (index + 1) starts
  else starts
termination_by bitstream.length - index

/-- The inner loop of the second: zero bytes leave the end of a payload. -/
def trimmedEnd (bitstream : List UInt8) (payloadStart : ℕ) : ℕ → ℕ
  | 0 => 0
  | payloadEnd + 1 =>
    if payloadStart < payloadEnd + 1 ∧ bitstream[payloadEnd]? = some 0 then
      trimmedEnd bitstream payloadStart payloadEnd
    else payloadEnd + 1

/-- `&bytes[i..j]`. -/
def slice (bytes : List UInt8) (i j : ℕ) : List UInt8 := (bytes.take j).drop i

/-- The second loop: each payload that is not empty, after a four-byte start code. -/
def emit (bitstream : List UInt8) : List ℕ → List UInt8
  | [] => []
  | start :: rest =>
    let payloadStart := start + if [0, 0, 0, 1] <+: bitstream.drop start then 4 else 3
    let payloadEnd := trimmedEnd bitstream payloadStart (rest.head?.getD bitstream.length)
    (if payloadStart < payloadEnd then [0, 0, 0, 1] ++ slice bitstream payloadStart payloadEnd
      else []) ++ emit bitstream rest

def normalizeAnnexB (bitstream : List UInt8) : List UInt8 :=
  emit bitstream (scan bitstream 0 [])

/-! ### What a stream says -/

/-- The bytes before the first start code, and the pieces after each. -/
def cut (bytes : List UInt8) : List UInt8 × List (List UInt8) :=
  match bytes with
  | [] => ([], [])
  | b :: rest =>
    if [0, 0, 1] <+: b :: rest then ([], (cut (rest.drop 2)).1 :: (cut (rest.drop 2)).2)
    else (b :: (cut rest).1, (cut rest).2)
termination_by bytes.length
decreasing_by all_goals grind

/-- A piece without its trailing zero bytes. -/
def trim (piece : List UInt8) : List UInt8 := piece.rdropWhile (· = 0)

/-- The NAL units of a list of pieces. -/
def clean (pieces : List (List UInt8)) : List (List UInt8) := (pieces.map trim).filter (· ≠ [])

def units (bytes : List UInt8) : List (List UInt8) := clean (cut bytes).2

/-- The canonical stream of some units. -/
def render (us : List (List UInt8)) : List UInt8 := us.flatMap ([0, 0, 0, 1] ++ ·)

/-- A NAL unit that can stand in a stream: no start code inside, no zero byte at the end. -/
structure Clean (u : List UInt8) : Prop where
  ne_nil : u ≠ []
  last : u.getLast? ≠ some 0
  free : ¬ [0, 0, 1] <:+: u

variable {bs u v w : List UInt8} {us : List (List UInt8)} {b : UInt8} {i j : ℕ}

theorem cut_code (h : [0, 0, 1] <+: b :: w) :
    cut (b :: w) = ([], (cut (w.drop 2)).1 :: (cut (w.drop 2)).2) := by rw [cut, if_pos h]

theorem cut_byte (h : ¬ [0, 0, 1] <+: b :: w) :
    cut (b :: w) = (b :: (cut w).1, (cut w).2) := by rw [cut, if_neg h]

theorem trim_cons_congr (h : trim u = trim v) : trim (b :: u) = trim (b :: v) := by
  simp only [trim, List.rdropWhile, List.reverse_inj] at h ⊢
  simp only [List.reverse_cons, List.dropWhile_append, h]

theorem trim_append_zero (h : u.getLast? ≠ some 0) (hw : ∀ b ∈ w, b = 0) : trim (u ++ w) = u := by
  induction w using List.reverseRecOn with
  | nil =>
      rw [List.append_nil, trim, List.rdropWhile_eq_self_iff]
      grind
  | append_singleton w c ih =>
      rw [← List.append_assoc, trim, List.rdropWhile_concat_pos _ _ _ (by simp [hw c])]
      exact ih fun b hb => hw b (by simp [hb])

/-- Trimming by position is trimming the slice. -/
theorem slice_trimmedEnd (hj : j ≤ bs.length) :
    slice bs i (trimmedEnd bs i j) = trim (slice bs i j) := by
  induction j with
  | zero => simp [trimmedEnd, slice, trim]
  | succ j ih =>
      rw [trimmedEnd]
      by_cases hij : i ≤ j
      · have hcat : slice bs i (j + 1) = slice bs i j ++ [bs[j]] := by
          rw [slice, ← List.take_append_getElem hj, List.drop_append_of_le_length (by grind), slice]
        rw [hcat, trim, List.rdropWhile_concat]
        split <;> grind [trim]
      · have hnil : slice bs i (j + 1) = [] := List.drop_eq_nil_of_le (by grind)
        rw [if_neg (by omega), hnil]
        rfl

theorem trimmedEnd_le : trimmedEnd bs i j ≤ j := by
  induction j with
  | zero => exact le_rfl
  | succ j ih => grind [trimmedEnd]

theorem slice_eq_nil (hj : j ≤ bs.length) : slice bs i j = [] ↔ j ≤ i := by
  simp [slice, List.drop_eq_nil_iff, hj]

theorem slice_cons (hij : i < j) (hj : j ≤ bs.length) :
    slice bs i j = bs[i] :: slice bs (i + 1) j := by
  rw [slice, List.drop_eq_getElem_cons (by grind), List.getElem_take, slice]

theorem render_clean_cons (ps : List (List UInt8)) : render (clean (u :: ps)) =
    (if trim u ≠ [] then [0, 0, 0, 1] ++ trim u else []) ++ render (clean ps) := by
  by_cases h : trim u = [] <;> simp [clean, render, h]

/-- Where the payload before these starts ends: at the next one, or with the stream. -/
def stop (bs : List UInt8) (starts : List ℕ) : ℕ := starts.head?.getD bs.length

theorem startAt_spec (bs : List UInt8) (i : ℕ) :
    i = startAt bs i ∨ i = startAt bs i + 1 ∧ bs[startAt bs i]? = some 0 := by
  grind [startAt]

/-- Emitting a start in front of a code at `i` emits the payload that begins after it. -/
theorem emit_cons {found : List ℕ} (hcode : [0, 0, 1] <+: bs.drop i)
    (hstop : stop bs found ≤ bs.length) : emit bs (startAt bs i :: found) =
      (if trim (slice bs (i + 3) (stop bs found)) ≠ [] then
        [0, 0, 0, 1] ++ trim (slice bs (i + 3) (stop bs found)) else []) ++ emit bs found := by
  have hfrom : (startAt bs i + if [0, 0, 0, 1] <+: bs.drop (startAt bs i) then 4 else 3) = i + 3 := by
    obtain ⟨tail, htail⟩ := hcode
    obtain heq | ⟨heq, hzero⟩ := startAt_spec bs i
    · rw [← heq, if_neg (by rw [← htail]; simp)]
    · have hdrop : bs.drop (startAt bs i) = 0 :: bs.drop i := by
        rw [List.drop_eq_getElem_cons (by grind), ← heq]
        grind
      rw [if_pos ⟨tail, by rw [hdrop, ← htail]; rfl⟩]
      omega
  simp only [emit, hfrom, ← slice_trimmedEnd hstop, ne_eq,
    slice_eq_nil (trimmedEnd_le.trans hstop), not_le]
  rfl

/-- What the scan from `index` adds, seen from the cut of the bytes that are left. -/
theorem scan_spec (bs : List UInt8) (index : ℕ) (starts : List ℕ)
    (hs : ∀ s ∈ starts.getLast?, s + 2 ≤ index) (hle : index ≤ bs.length) :
    ∃ found, scan bs index starts = starts ++ found ∧ stop bs found ≤ bs.length ∧
      (index = stop bs found + 1 ∧ bs[stop bs found]? = some 0 ∨ index ≤ stop bs found) ∧
      trim (slice bs index (stop bs found)) = trim (cut (bs.drop index)).1 ∧
      emit bs found = render (clean (cut (bs.drop index)).2) := by
  induction index, starts using scan.induct bs with
  | case1 index starts hlen hcode ih =>
      have hstart := startAt_spec bs index
      have hdrop := List.drop_eq_getElem_cons (show index < bs.length by omega)
      have hnew : starts.getLast? ≠ some (startAt bs index) := fun h => by
        have := hs _ h
        omega
      rw [dif_neg hnew] at ih
      obtain ⟨found, hscan, hstop, -, htrim, hemit⟩ := ih (by simp; omega) hlen
      have hnow : stop bs (startAt bs index :: found) = startAt bs index := rfl
      refine ⟨startAt bs index :: found, ?_, by omega, hnow ▸ hstart.symm.imp_right Eq.le, ?_, ?_⟩
      · rw [scan, if_pos hlen, if_pos hcode, if_neg hnew, hscan, List.append_assoc]
        rfl
      · rw [hdrop, cut_code (hdrop ▸ hcode), (slice_eq_nil (by omega)).mpr (by omega)]
      · rw [emit_cons hcode hstop, hdrop, cut_code (hdrop ▸ hcode), List.drop_drop,
          render_clean_cons, htrim, hemit]
  | case2 index starts hlen hcode ih =>
      obtain ⟨found, hscan, hstop, hat, htrim, hemit⟩ := ih (by grind) (by omega)
      have hdrop := List.drop_eq_getElem_cons (show index < bs.length by omega)
      refine ⟨found, ?_, hstop, by omega, ?_, ?_⟩
      · rw [scan, if_pos hlen, if_neg hcode, hscan]
      · rw [hdrop, cut_byte (hdrop ▸ hcode), ← trim_cons_congr htrim]
        obtain hlt | heq : index < stop bs found ∨ index = stop bs found := by omega
        · rw [slice_cons hlt hstop]
        · rw [(slice_eq_nil hstop).mpr heq.ge, (slice_eq_nil hstop).mpr (by omega)]
          have hzero : bs[index] = 0 := by grind
          simp [hzero, trim]
      · rw [hdrop, cut_byte (hdrop ▸ hcode), hemit]
  | case3 index starts hlen =>
      have hfree : ∀ w : List UInt8, w.length < 3 → cut w = (w, []) := by
        intro w hw
        induction w with
        | nil => rw [cut]
        | cons b w ih =>
            rw [cut_byte fun h => by simpa using h.length_le.trans_lt hw, ih (by grind)]
      refine ⟨[], by rw [scan, if_neg hlen, List.append_nil], le_rfl, .inr hle, ?_, ?_⟩
      · rw [hfree _ (by grind)]
        simp [slice, stop]
      · rw [hfree _ (by grind)]
        rfl

/-- The encoder's rewriting is the canonical stream of the units of what it is given. -/
theorem normalizeAnnexB_eq (bs : List UInt8) : normalizeAnnexB bs = render (units bs) := by
  obtain ⟨found, hscan, -, -, -, hemit⟩ := scan_spec bs 0 [] (by simp) (Nat.zero_le _)
  rw [normalizeAnnexB, hscan, List.nil_append, hemit, List.drop_zero, units]

/-! ### The canonical form -/

theorem cut_fst_prefix (bs : List UInt8) : (cut bs).1 <+: bs := by
  induction bs using cut.induct with
  | case1 => exact (cut.eq_1 ▸ List.prefix_rfl)
  | case2 b w h => exact cut_code h ▸ List.nil_prefix
  | case3 b w h ih => exact cut_byte h ▸ (List.cons_prefix_cons.mpr ⟨rfl, ih⟩)

/-- No piece holds a start code. -/
theorem cut_free (bs : List UInt8) :
    ¬ [0, 0, 1] <:+: (cut bs).1 ∧ ∀ p ∈ (cut bs).2, ¬ [0, 0, 1] <:+: p := by
  induction bs using cut.induct with
  | case1 => simp [cut]
  | case2 b w h ih => simpa [cut_code h] using ih
  | case3 b w h ih =>
      rw [cut_byte h]
      refine ⟨fun hin => ?_, ih.2⟩
      rcases List.infix_cons_iff.mp hin with hfirst | hrest
      · exact h (hfirst.trans (List.cons_prefix_cons.mpr ⟨rfl, cut_fst_prefix w⟩))
      · exact ih.1 hrest

theorem clean_units (hu : u ∈ units bs) : Clean u := by
  obtain ⟨hmem, hne⟩ := List.mem_filter.mp hu
  obtain ⟨p, hp, rfl⟩ := List.mem_map.mp hmem
  refine ⟨by simpa using hne, ?_, fun hin => (cut_free bs).2 p hp (hin.trans ?_)⟩
  · rw [trim, List.getLast?_eq_some_getLast (by simpa [trim] using hne)]
    simpa using List.rdropWhile_last_not (fun b : UInt8 => decide (b = 0)) p
      (by simpa [trim] using hne)
  · exact (List.rdropWhile_prefix _ p).isInfix

/-- No start code begins in a unit that is followed by a canonical stream. -/
theorem not_code (hlast : (b :: u).getLast? ≠ some 0) (hfree : ¬ [0, 0, 1] <:+: b :: u) :
    ¬ [0, 0, 1] <+: b :: (u ++ render us) := by
  rintro ⟨t, ht⟩
  rcases u with - | ⟨c, - | ⟨d, u⟩⟩ <;> simp at ht
  · exact hlast (by simp [← ht.1])
  · exact hlast (by simp [← ht.2.1])
  · exact hfree (List.IsPrefix.isInfix ⟨u, by simp [← ht.1, ← ht.2.1, ← ht.2.2.1]⟩)

theorem tail_clean (hlast : (b :: u).getLast? ≠ some 0) (hfree : ¬ [0, 0, 1] <:+: b :: u) :
    u.getLast? ≠ some 0 ∧ ¬ [0, 0, 1] <:+: u :=
  ⟨by cases u <;> simp_all, fun h => hfree (List.infix_cons h)⟩

theorem cut_append (hlast : u.getLast? ≠ some 0) (hfree : ¬ [0, 0, 1] <:+: u) :
    cut (u ++ render us) = (u ++ (cut (render us)).1, (cut (render us)).2) := by
  induction u with
  | nil => rfl
  | cons b u ih =>
      obtain ⟨hlast', hfree'⟩ := tail_clean hlast hfree
      rw [List.cons_append, cut_byte (not_code hlast hfree), ih hlast' hfree']
      rfl

theorem cut_render (hus : ∀ u ∈ us, Clean u) :
    (∀ b ∈ (cut (render us)).1, b = 0) ∧ clean (cut (render us)).2 = us := by
  induction us with
  | nil => simp [render, cut, clean]
  | cons u us ih =>
      have hu := hus u (by simp)
      obtain ⟨hzero, hrest⟩ := ih fun v hv => hus v (by simp [hv])
      have hcut : cut (render (u :: us)) = ([0], (u ++ (cut (render us)).1) :: (cut (render us)).2) := by
        change cut (0 :: 0 :: 0 :: 1 :: (u ++ render us)) = _
        rw [cut_byte (by simp), cut_code (by simp)]
        simp [cut_append hu.last hu.free]
      rw [hcut, clean, List.map_cons, trim_append_zero hu.last hzero,
        List.filter_cons_of_pos (by simpa using hu.ne_nil)]
      exact ⟨by simp, congrArg _ hrest⟩

theorem units_render (h : ∀ u ∈ us, Clean u) : units (render us) = us := (cut_render h).2

/-- **The encoder keeps the units of a stream.**  Whatever the driver wrote, what is sent is the
canonical stream of its units, which are clean; it has the same units, and normalizing it again changes
nothing. -/
theorem normalize_annex_b_keeps_the_units (bitstream : List UInt8) :
    normalizeAnnexB bitstream = render (units bitstream) ∧
    (∀ u ∈ units bitstream, Clean u) ∧ units (normalizeAnnexB bitstream) = units bitstream ∧
    normalizeAnnexB (normalizeAnnexB bitstream) = normalizeAnnexB bitstream := by
  have hunits : units (render (units bitstream)) = units bitstream :=
    units_render fun u hu => clean_units hu
  refine ⟨normalizeAnnexB_eq _, fun u hu => clean_units hu, ?_, ?_⟩
  · rw [normalizeAnnexB_eq, hunits]
  · rw [normalizeAnnexB_eq (normalizeAnnexB _), normalizeAnnexB_eq bitstream, hunits]

/-! ### The viewer's scanner -/

def maxConfigurationBytes : ℕ := 1024 * 1024

/-- `access_unit.windows(3)`: where the start codes are, from `index` on. -/
def codes (index : ℕ) : List UInt8 → List ℕ
  | [] => []
  | b :: rest => (if [0, 0, 1] <+: b :: rest then [index] else []) ++ codes (index + 1) rest

def kindOf (header : UInt8) : UInt8 := header &&& 0x1f

/-- The loop over the start codes, each as where it begins and where its unit begins. -/
def headersLoop (accessUnit : List UInt8) : List (ℕ × ℕ) → List UInt8 → Bool → Bool →
    Except String (List UInt8)
  | [], headers, foundSps, foundPps =>
    if foundSps && foundPps then .ok headers
    else .error "first H.264 access unit is missing SPS/PPS headers"
  | (start, header) :: rest, headers, foundSps, foundPps =>
    let stop := stop accessUnit (rest.map Prod.fst)
    match slice accessUnit header stop with
    | [] => .error "first H.264 access unit has an empty NAL unit"
    | first :: more =>
      if first &&& 0x80 ≠ 0 then .error "invalid H.264 NAL header"
      else if kindOf first = 7 ∨ kindOf first = 8 then
        if more = [] then .error "truncated H.264 parameter set"
        else if (slice accessUnit start stop).length ≤ maxConfigurationBytes - headers.length then
          headersLoop accessUnit rest (headers ++ slice accessUnit start stop)
            (foundSps || kindOf first = 7) (foundPps || kindOf first = 8)
        else .error "H.264 codec configuration exceeds 1 MiB"
      else headersLoop accessUnit rest headers foundSps foundPps

def h264AnnexBHeaders (accessUnit : List UInt8) : Except String (List UInt8) :=
  match (codes 0 accessUnit).map fun i => (startAt accessUnit i, i + 3) with
  | [] => .error "first H.264 access unit is not Annex B"
  | starts@((first, _) :: _) =>
    if (accessUnit.take first).all (· = 0) then headersLoop accessUnit starts [] false false
    else .error "first H.264 access unit has invalid leading bytes"

/-- Units of a kind: `7` and `8` are the parameter sets SPS and PPS. -/
abbrev IsKind (k : UInt8) (u : List UInt8) : Prop := u.head?.map kindOf = some k

/-- The parameter sets among some units, in their order. -/
def parameterSets (us : List (List UInt8)) : List (List UInt8) :=
  us.filter fun u => IsKind 7 u ∨ IsKind 8 u

/-- A unit the viewer takes: the forbidden bit is clear, and a parameter set has a body. -/
def Sound (u : List UInt8) : Prop :=
  (∀ b ∈ u.head?, b &&& 0x80 = 0) ∧ (IsKind 7 u ∨ IsKind 8 u → 1 < u.length)

/-- Where the units of a canonical stream at `offset` begin. -/
def marks (offset : ℕ) : List (List UInt8) → List (ℕ × ℕ)
  | [] => []
  | u :: us => (offset, offset + 4) :: marks (offset + 4 + u.length) us

theorem codes_append (hlast : u.getLast? ≠ some 0) (hfree : ¬ [0, 0, 1] <:+: u) :
    codes i (u ++ render us) = codes (i + u.length) (render us) := by
  induction u generalizing i with
  | nil => rfl
  | cons b u ih =>
      obtain ⟨hlast', hfree'⟩ := tail_clean hlast hfree
      rw [List.cons_append, codes, if_neg (not_code hlast hfree), ih hlast' hfree',
        List.nil_append, List.length_cons, Nat.add_right_comm, Nat.add_assoc]

theorem append_render_cons (pre : List UInt8) :
    pre ++ render (u :: us) = pre ++ [0, 0, 0, 1] ++ u ++ render us := by simp [render]

theorem length_append_unit (pre : List UInt8) :
    (pre ++ [0, 0, 0, 1] ++ u).length = pre.length + 4 + u.length := by
  rw [List.length_append, List.length_append]
  rfl

theorem codes_render (pre : List UInt8) (hus : ∀ u ∈ us, Clean u) :
    (codes pre.length (render us)).map (fun i => (startAt (pre ++ render us) i, i + 3)) =
      marks pre.length us := by
  induction us generalizing pre with
  | nil => rfl
  | cons u us ih =>
      have hu := hus u (by simp)
      have hrest := ih (pre ++ [0, 0, 0, 1] ++ u) fun v hv => hus v (by simp [hv])
      have hcodes : codes pre.length (render (u :: us)) =
          (pre.length + 1) :: codes (pre.length + 4 + u.length) (render us) := by
        change codes _ (0 :: 0 :: 0 :: 1 :: (u ++ render us)) = _
        simp [codes, codes_append hu.last hu.free]
      rw [hcodes, List.map_cons, append_render_cons, ← length_append_unit, hrest, marks,
        length_append_unit]
      simp [startAt]

theorem isKind_cons {k : UInt8} : IsKind k (b :: u) ↔ kindOf b = k := by simp [IsKind]

theorem sound_cons : Sound (b :: u) ↔
    b &&& 0x80 = 0 ∧ (kindOf b = 7 ∨ kindOf b = 8 → u ≠ []) := by
  simp [Sound, List.length_pos_iff]

theorem headersLoop_render (pre headers : List UInt8) (sps pps : Bool) (hus : ∀ u ∈ us, Clean u)
    (hmax : headers.length ≤ maxConfigurationBytes) (hs : List UInt8) :
    headersLoop (pre ++ render us) (marks pre.length us) headers sps pps = .ok hs ↔
      (∀ u ∈ us, Sound u) ∧ (sps ∨ ∃ u ∈ us, IsKind 7 u) ∧ (pps ∨ ∃ u ∈ us, IsKind 8 u) ∧
      hs = headers ++ render (parameterSets us) ∧ hs.length ≤ maxConfigurationBytes := by
  induction us generalizing pre headers sps pps with
  | nil =>
      cases sps <;> cases pps <;> simp [marks, headersLoop, render, parameterSets, eq_comm]
      rintro rfl
      exact hmax
  | cons u us ih =>
      obtain ⟨b, more, rfl⟩ := List.exists_cons_of_ne_nil (hus u (by simp)).ne_nil
      rw [marks, ← length_append_unit, append_render_cons]
      generalize hdone : pre ++ [0, 0, 0, 1] ++ b :: more = done
      have hrest := fun hd s p => ih done hd s p fun v hv => hus v (by simp [hv])
      have hstop : stop (done ++ render us) ((marks done.length us).map Prod.fst) = done.length := by
        cases us <;> simp [stop, marks, render]
      have hunit : slice (done ++ render us) (pre.length + 4) done.length = b :: more := by
        rw [slice, List.take_left, ← hdone, List.drop_left' (by simp)]
      have hbytes : slice (done ++ render us) pre.length done.length = [0, 0, 0, 1] ++ b :: more := by
        rw [slice, List.take_left, ← hdone, List.append_assoc, List.drop_left]
      rw [headersLoop, hstop, hunit, hbytes]
      have hsets : parameterSets ((b :: more) :: us) =
          if kindOf b = 7 ∨ kindOf b = 8 then (b :: more) :: parameterSets us
          else parameterSets us := by
        simp [parameterSets, List.filter_cons]
      rw [hsets, List.forall_mem_cons, List.exists_mem_cons_iff, List.exists_mem_cons_iff,
        sound_cons, isKind_cons, isKind_cons]
      by_cases hbit : b &&& 0x80 = 0
      swap
      · simp [hbit]
      by_cases hk : kindOf b = 7 ∨ kindOf b = 8
      · by_cases hmore : more = []
        · simp [hbit, hk, hmore]
        have hrender : headers ++ render ((b :: more) :: parameterSets us) =
            headers ++ ([0, 0, 0, 1] ++ b :: more) ++ render (parameterSets us) := by simp [render]
        simp only [hbit, hk, hmore, hrender, ne_eq, not_true, not_false_iff, if_true, if_false]
        by_cases hfit : ([0, 0, 0, 1] ++ b :: more).length ≤ maxConfigurationBytes - headers.length
        · rw [if_pos hfit, hrest _ _ _ (by simp only [List.length_append] at hfit ⊢; omega)]
          simp [or_assoc]
        · rw [if_neg hfit]
          refine iff_of_false (by simp) fun h => ?_
          obtain ⟨-, -, -, rfl, hlen⟩ := h
          simp only [List.length_append] at hfit hlen
          omega
      · simp only [hbit, hk, hrest headers _ _ hmax, ne_eq, not_true, if_false]
        rw [not_or] at hk
        simp [hk]

/-- **The viewer finds the parameter sets of what the encoder sends.**  It takes an access unit exactly
if no unit has the forbidden bit, no parameter set is cut short, both kinds are there and they fit; and
what it takes is the parameter sets, in their order, in canonical form. -/
theorem headers_of_a_normalized_access_unit (bitstream hs : List UInt8) :
    h264AnnexBHeaders (normalizeAnnexB bitstream) = .ok hs ↔
      (∀ u ∈ units bitstream, Sound u) ∧
      (∃ u ∈ units bitstream, IsKind 7 u) ∧ (∃ u ∈ units bitstream, IsKind 8 u) ∧
      hs = render (parameterSets (units bitstream)) ∧ hs.length ≤ maxConfigurationBytes := by
  have hus : ∀ u ∈ units bitstream, Clean u := fun u hu => clean_units hu
  have hcodes := codes_render [] hus
  have hloop := headersLoop_render [] [] false false hus (Nat.zero_le _) hs
  simp only [List.nil_append, List.length_nil] at hcodes hloop
  rw [normalizeAnnexB_eq, h264AnnexBHeaders, hcodes]
  cases hu : units bitstream with
  | nil => simp [marks]
  | cons u us => simpa [marks, hu] using hloop

end AnnexB
