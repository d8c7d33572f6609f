/-
**A contact sheet decodes each frame once and draws inside its image.**

The frames wanted are walked in their order.  Each asks for the packets from the keyframe before it, and
joins the range before it when the two touch, so the ranges never overlap and a decoder that returns what
it is fed returns each frame wanted once.  The sheet is cut into cells, and each cell holds one picture
above one gutter.

Main definitions: `decodeRanges`, `decode`, `render`.

Main results:

* `covers_decodeRanges` — what the ranges cover;
* `contact_sheets_decode_once_and_draw_inside` — **each frame wanted is consumed once**, and
  no tile leaves the image or touches another.
-/

import Mathlib.Algebra.GroupWithZero.Nat
import Mathlib.Algebra.Order.Field.Rat
import Mathlib.Data.Finset.Sort
import Mathlib.Data.Rat.Floor

namespace ContactSheet

/-! ### Which packets are fed -/

inductive EncodedFrameKind
  | keyframe | delta
  deriving DecidableEq

def IsKeyframe (frames : List EncodedFrameKind) (index : ℕ) : Prop := frames[index]? = some .keyframe

instance (frames : List EncodedFrameKind) (index : ℕ) : Decidable (IsKeyframe frames index) :=
  inferInstanceAs (Decidable (_ = _))

def keyframes (frames : List EncodedFrameKind) : List ℕ :=
  (List.range frames.length).filter fun index => IsKeyframe frames index

/-- The keyframes are in their order, so those that are not after a frame stand in front. -/
def preceding (frames : List EncodedFrameKind) (index : ℕ) : Option ℕ :=
  ((keyframes frames).filter (· ≤ index)).getLast?

/-- The last range comes first. -/
def extend (start index : ℕ) : List (ℕ × ℕ) → List (ℕ × ℕ)
  | [] => [(start, index)]
  | (first, last) :: rest =>
      if start ≤ last + 1 then (first, index) :: rest else (start, index) :: (first, last) :: rest

def decodeRanges (frames : List EncodedFrameKind) : List ℕ → List (ℕ × ℕ) → Option (List (ℕ × ℕ))
  | [], ranges => some ranges.reverse
  | index :: rest, ranges =>
      (preceding frames index).bind fun start => decodeRanges frames rest (extend start index ranges)

def packets (frames : List EncodedFrameKind) (range : ℕ × ℕ) : List ℕ :=
  ((List.range frames.length).take (range.2 + 1)).drop range.1

/-- A decoder for the codec of the frame it starts at, with the frames received after each packet and
after the end of the stream. -/
structure Decoder where
  State : Type
  fresh : ℕ → State
  send : ℕ → State → List ℕ × State
  sendEof : State → List ℕ

def Decoder.feed (d : Decoder) : List ℕ → d.State → List ℕ
  | [], s => d.sendEof s
  | packet :: rest, s => (d.send packet s).1 ++ d.feed rest (d.send packet s).2

/-- Consecutive packets from a keyframe on come back once each. -/
def Decoder.Returns (d : Decoder) (frames : List EncodedFrameKind) : Prop :=
  ∀ range, IsKeyframe frames range.1 → range.1 ≤ range.2 →
    (d.feed (packets frames range) (d.fresh range.1)).Perm (packets frames range)

/-- The frames consumed, where neither the check of the recording nor the drawing fails. -/
def decode (d : Decoder) (frames : List EncodedFrameKind) (wanted : Finset ℕ) : Option (List ℕ) :=
  if wanted = ∅ then none
  else (decodeRanges frames (wanted.sort (· ≤ ·)) []).bind fun ranges =>
    let seen := ranges.flatMap fun range => (d.feed (packets frames range) (d.fresh range.1)).filter (· ∈ wanted)
    if seen.toFinset.card = wanted.card then some seen else none

/-! ### What the ranges cover -/

section

variable {frames : List EncodedFrameKind} {index start : ℕ} {ranges : List (ℕ × ℕ)} {done : List ℕ}

theorem mem_keyframes : index ∈ keyframes frames ↔ IsKeyframe frames index := by
  simp only [keyframes, List.mem_filter, List.mem_range, decide_eq_true_eq, and_iff_right_iff_imp]
  exact fun h => (List.getElem?_eq_some_iff.mp h).1

/-- The latest keyframe that is not after the frame. -/
theorem preceding_spec (h : preceding frames index = some start) :
    IsKeyframe frames start ∧ start ≤ index ∧ ∀ key, IsKeyframe frames key → key ≤ index → key ≤ start := by
  obtain ⟨front, hfront⟩ := List.getLast?_eq_some_iff.mp h
  have hmem : ∀ key, key ∈ front ++ [start] ↔ IsKeyframe frames key ∧ key ≤ index := by
    intro key
    rw [← hfront, List.mem_filter, mem_keyframes, decide_eq_true_eq]
  have hsorted : (front ++ [start]).Pairwise (· < ·) := by
    rw [← hfront]
    exact (List.pairwise_lt_range.filter _).filter _
  obtain ⟨hkey, hle⟩ := (hmem start).mp (List.mem_append_right _ List.mem_cons_self)
  refine ⟨hkey, hle, fun key hkey hle => ?_⟩
  rcases List.mem_append.mp ((hmem key).mpr ⟨hkey, hle⟩) with hin | hin
  · exact ((List.pairwise_append.mp hsorted).2.2 key hin start List.mem_cons_self).le
  · exact (List.mem_singleton.mp hin).le

theorem exists_preceding (h : ∃ key ≤ index, IsKeyframe frames key) :
    ∃ start, preceding frames index = some start := by
  obtain ⟨key, hle, hkey⟩ := h
  refine ⟨_, List.getLast?_eq_some_getLast (List.ne_nil_of_mem (a := key) ?_)⟩
  rw [List.mem_filter, mem_keyframes, decide_eq_true_eq]
  exact ⟨hkey, hle⟩

/-- The ranges, the last of them first, and the frames that were walked. -/
structure Covers (frames : List EncodedFrameKind) (done : List ℕ) (ranges : List (ℕ × ℕ)) : Prop where
  apart : ranges.Pairwise fun later earlier => earlier.2 < later.1
  starts : ∀ range ∈ ranges, IsKeyframe frames range.1 ∧ ∃ first ∈ done, range.1 ≤ first ∧ first ≤ range.2 ∧
    (∀ key, IsKeyframe frames key → key ≤ first → key ≤ range.1) ∧ ∀ other ∈ done, range.1 ≤ other → first ≤ other
  ends : ∀ range ∈ ranges, range.2 ∈ done
  covers : ∀ wanted ∈ done, ∃ range ∈ ranges, range.1 ≤ wanted ∧ wanted ≤ range.2
  last : ∀ range ∈ ranges.head?, ∀ wanted ∈ done, wanted ≤ range.2

theorem Covers.extend (h : Covers frames done ranges) (hstart : preceding frames index = some start)
    (hlt : ∀ wanted ∈ done, wanted < index) : Covers frames (done ++ [index]) (extend start index ranges) := by
  obtain ⟨hkey, hle, hlatest⟩ := preceding_spec hstart
  have hall : ∀ wanted ∈ done ++ [index], wanted ≤ index := by
    intro wanted hwanted
    rcases List.mem_append.mp hwanted with hwanted | hwanted
    · exact (hlt wanted hwanted).le
    · exact (List.mem_singleton.mp hwanted).le
  have hfirst : ∀ range ∈ ranges, IsKeyframe frames range.1 ∧ ∃ first ∈ done ++ [index],
      range.1 ≤ first ∧ first ≤ range.2 ∧ (∀ key, IsKeyframe frames key → key ≤ first → key ≤ range.1) ∧
        ∀ other ∈ done ++ [index], range.1 ≤ other → first ≤ other := by
    intro range hrange
    obtain ⟨hkey, first, hmem, hbegin, hend, hlatest, hleast⟩ := h.starts range hrange
    refine ⟨hkey, first, List.mem_append_left _ hmem, hbegin, hend, hlatest, fun other hother hafter => ?_⟩
    rcases List.mem_append.mp hother with hother | hother
    · exact hleast other hother hafter
    · rw [List.mem_singleton.mp hother]
      exact (hlt first hmem).le
  -- a range of its own begins after all that was walked
  have hnew : (∀ wanted ∈ done, wanted < start) →
      Covers frames (done ++ [index]) ((start, index) :: ranges) := by
    intro hbefore
    constructor
    case apart =>
      exact List.pairwise_cons.mpr ⟨fun range hrange => hbefore _ (h.ends range hrange), h.apart⟩
    case starts =>
      rintro range (_ | ⟨_, hrange⟩)
      · refine ⟨hkey, index, by simp, hle, le_rfl, hlatest, fun other hother hafter => ?_⟩
        rcases List.mem_append.mp hother with hother | hother
        · exact absurd hafter (not_le.mpr (hbefore other hother))
        · exact (List.mem_singleton.mp hother).ge
      · exact hfirst range hrange
    case ends =>
      rintro range (_ | ⟨_, hrange⟩)
      · simp
      · exact List.mem_append_left _ (h.ends range hrange)
    case covers =>
      intro wanted hwanted
      rcases List.mem_append.mp hwanted with hwanted | hwanted
      · obtain ⟨range, hrange, hin⟩ := h.covers wanted hwanted
        exact ⟨range, List.mem_cons_of_mem _ hrange, hin⟩
      · rw [List.mem_singleton.mp hwanted]
        exact ⟨_, List.mem_cons_self, hle, le_rfl⟩
    case last =>
      rintro _ ⟨⟩
      exact hall
  cases ranges with
  | nil =>
      refine hnew fun wanted hwanted => ?_
      obtain ⟨_, hrange, -⟩ := h.covers wanted hwanted
      cases hrange
  | cons range rest =>
      obtain ⟨first, last⟩ := range
      have hlast := h.last (first, last) rfl
      rw [ContactSheet.extend]
      split
      · next hjoin =>
          obtain ⟨hsep, hrest⟩ := List.pairwise_cons.mp h.apart
          constructor
          case apart => exact List.pairwise_cons.mpr ⟨hsep, hrest⟩
          case starts =>
            rintro range (_ | ⟨_, hrange⟩)
            · obtain ⟨hkey, first', hmem', hbegin, -, hother⟩ := hfirst _ List.mem_cons_self
              exact ⟨hkey, first', hmem', hbegin, hall _ hmem', hother⟩
            · exact hfirst range (List.mem_cons_of_mem _ hrange)
          case ends =>
            rintro range (_ | ⟨_, hrange⟩)
            · simp
            · exact List.mem_append_left _ (h.ends range (List.mem_cons_of_mem _ hrange))
          case covers =>
            intro wanted hwanted
            rcases List.mem_append.mp hwanted with hwanted | hwanted
            · obtain ⟨range, hrange, hin, hin'⟩ := h.covers wanted hwanted
              rcases List.mem_cons.mp hrange with rfl | hrange
              · exact ⟨_, List.mem_cons_self, hin, (hlt wanted hwanted).le⟩
              · exact ⟨range, List.mem_cons_of_mem _ hrange, hin, hin'⟩
            · obtain ⟨hkey, first', hmem', hbegin, hend, -⟩ := h.starts _ List.mem_cons_self
              rw [List.mem_singleton.mp hwanted]
              exact ⟨_, List.mem_cons_self, hbegin.trans (hlt _ hmem').le, le_rfl⟩
          case last =>
            rintro _ ⟨⟩
            exact hall
      · next hapart => exact hnew fun wanted hwanted => by have := hlast wanted hwanted; omega

/-- **The ranges of a walk** cover all that was wanted. -/
theorem covers_decodeRanges (rest : List ℕ) (hsorted : (done ++ rest).Pairwise (· < ·))
    (hkeys : ∀ wanted ∈ rest, ∃ key ≤ wanted, IsKeyframe frames key) (h : Covers frames done ranges) :
    ∃ result, decodeRanges frames rest ranges = some result.reverse ∧ Covers frames (done ++ rest) result := by
  induction rest generalizing done ranges with
  | nil => exact ⟨ranges, rfl, by rwa [List.append_nil]⟩
  | cons index rest ih =>
      obtain ⟨start, hstart⟩ := exists_preceding (hkeys index List.mem_cons_self)
      have hlt : ∀ wanted ∈ done, wanted < index := fun wanted hwanted =>
        (List.pairwise_append.mp hsorted).2.2 wanted hwanted index List.mem_cons_self
      rw [List.append_cons] at hsorted ⊢
      rw [decodeRanges, hstart, Option.bind_some]
      exact ih hsorted (fun wanted hwanted => hkeys wanted (List.mem_cons_of_mem _ hwanted))
        (h.extend hstart hlt)

theorem mem_packets {packet : ℕ} {range : ℕ × ℕ} :
    packet ∈ packets frames range ↔ range.1 ≤ packet ∧ packet ≤ range.2 ∧ packet < frames.length := by
  rw [packets, List.take_range, List.range_eq_range', List.drop_range', List.mem_range'_1]
  omega

theorem nodup_packets (range : ℕ × ℕ) : (packets frames range).Nodup :=
  List.nodup_range.sublist ((List.drop_sublist _ _).trans (List.take_sublist _ _))

/-- What lies in ranges apart is met once. -/
theorem nodup_flatMap {f : ℕ × ℕ → List ℕ} (hapart : ranges.Pairwise fun earlier later => earlier.2 < later.1)
    (h : ∀ range ∈ ranges, (f range).Nodup ∧ ∀ packet ∈ f range, range.1 ≤ packet ∧ packet ≤ range.2) :
    (ranges.flatMap f).Nodup := by
  refine List.nodup_flatMap.mpr ⟨fun range hrange => (h range hrange).1, ?_⟩
  refine hapart.imp_of_mem fun hmem hmem' hlt packet hearlier hlater => ?_
  have := (h _ hmem).2 packet hearlier
  have := (h _ hmem').2 packet hlater
  omega

end

/-! ### Where the pictures go -/

structure Rect where
  x : ℕ
  y : ℕ
  width : ℕ
  height : ℕ

structure Tile extends Rect where
  gutter : Option Rect

def divCeil (a b : ℕ) : ℕ := (a + b - 1) / b

def asU32 (n : ℕ) : ℕ := n % 2 ^ 32

/-- Halves go away from zero. -/
def round (q : ℚ) : ℚ := if 0 ≤ q then ⌊q + 1 / 2⌋ else ⌈q - 1 / 2⌉

/-- What is out of bounds saturates. -/
def toU32 (q : ℚ) : ℕ := min ⌊q⌋.toNat (2 ^ 32 - 1)

def score (selections width height gutterHeight : ℕ) (aspect : ℚ) (cols : ℕ) : ℚ :=
  let rows := divCeil selections cols
  let w : ℚ := width / cols
  let h : ℚ := max (height / rows - gutterHeight) 0
  min w (h * aspect) * min h (w / aspect)

def tile (columns cellW cellH gutterHeight : ℕ) (aspect : ℚ) (i : ℕ) : Tile :=
  let pictureH := cellH - gutterHeight
  let tileW := min cellW (toU32 (max (round (pictureH * aspect)) 1))
  let tileH := min pictureH (toU32 (max (round (tileW / aspect)) 1))
  { x := asU32 (i % columns) * cellW + (cellW - tileW) / 2
    y := asU32 (i / columns) * cellH + (pictureH - tileH) / 2
    width := tileW
    height := tileH
    gutter :=
      if 0 < gutterHeight then
        some ⟨asU32 (i % columns) * cellW, asU32 (i / columns) * cellH + pictureH, cellW, gutterHeight⟩
      else none }

/-- The tiles of a sheet that passes its size checks.  The last of the best column counts is taken. -/
def render (selections width height gutterHeight : ℕ) (aspect : ℚ) : Option (List Tile) :=
  if 0 < width ∧ 0 < height ∧ width ≤ 4096 ∧ height ≤ 4096 then
    ((List.range' 1 selections).reverse.maxOn? (score selections width height gutterHeight aspect)).bind
      fun columns =>
        let cellW := width / asU32 columns
        let cellH := height / asU32 (divCeil selections columns)
        if gutterHeight < cellH ∧ 0 < cellW ∧ 0 < cellH then
          some ((List.range selections).map (tile columns cellW cellH gutterHeight aspect))
        else none
  else none

def Tile.rects (t : Tile) : List Rect := t.toRect :: t.gutter.toList

/-- The bytes of an image of a width that are written when a rectangle is filled. -/
def Rect.written (r : Rect) (width : ℕ) : Set ℕ :=
  {byte | ∃ x < r.width, ∃ y < r.height, ∃ channel < 4, byte = ((r.y + y) * width + (r.x + x)) * 4 + channel}

def Rect.Apart (a b : Rect) : Prop :=
  a.x + a.width ≤ b.x ∨ b.x + b.width ≤ a.x ∨ a.y + a.height ≤ b.y ∨ b.y + b.height ≤ a.y

def Rect.Inside (r : Rect) (width height : ℕ) : Prop := r.x + r.width ≤ width ∧ r.y + r.height ≤ height

theorem Rect.Inside.written {r : Rect} {width height : ℕ} (h : r.Inside width height) :
    r.written width ⊆ Set.Iio (width * height * 4) := by
  rintro byte ⟨x, hx, y, hy, channel, hchannel, rfl⟩
  have hrow : (r.y + y + 1) * width ≤ height * width := Nat.mul_le_mul_right _ (by have := h.2; omega)
  have hcolumn := h.1
  rw [add_mul, one_mul] at hrow
  rw [Set.mem_Iio, mul_comm width height]
  omega

/-- Rectangles apart inside an image write different bytes. -/
theorem Rect.Apart.written {a b : Rect} {width height : ℕ} (h : a.Apart b) (ha : a.Inside width height)
    (hb : b.Inside width height) : ∀ byte ∈ a.written width, byte ∉ b.written width := by
  -- two rows of different numbers share no byte
  have hrows : ∀ {y y' x x'}, y < y' → x < width → y * width + x ≠ y' * width + x' := by
    intro y y' x x' hlt hx heq
    have := Nat.mul_le_mul_right width hlt
    rw [Nat.succ_mul] at this
    omega
  rintro byte ⟨x, hx, y, hy, channel, hchannel, rfl⟩ ⟨x', hx', y', hy', channel', hchannel', heq⟩
  have hpixel : (a.y + y) * width + (a.x + x) = (b.y + y') * width + (b.x + x') := by omega
  obtain ⟨ha, -⟩ := ha
  obtain ⟨hb, -⟩ := hb
  rcases lt_trichotomy (a.y + y) (b.y + y') with hlt | hrow | hlt
  · exact hrows hlt (by omega) hpixel
  · rw [hrow] at hpixel
    rcases h with h | h | h | h <;> omega
  · exact hrows hlt (by omega) hpixel.symm

section

variable {columns rows cellW cellH gutterHeight width height : ℕ} {aspect : ℚ} {i j : ℕ} {r : Rect}

/-- The picture and the gutter are in the cell of the tile, one above the other. -/
theorem rects_cell (hgutter : gutterHeight < cellH) (hi : i < 2 ^ 32) :
    (tile columns cellW cellH gutterHeight aspect i).rects.Pairwise Rect.Apart ∧
      ∀ r ∈ (tile columns cellW cellH gutterHeight aspect i).rects,
        i % columns * cellW ≤ r.x ∧ r.x + r.width ≤ (i % columns + 1) * cellW ∧
          i / columns * cellH ≤ r.y ∧ r.y + r.height ≤ (i / columns + 1) * cellH := by
  have hcolumn : asU32 (i % columns) = i % columns := Nat.mod_eq_of_lt ((Nat.mod_le _ _).trans_lt hi)
  have hrow : asU32 (i / columns) = i / columns := Nat.mod_eq_of_lt ((Nat.div_le_self _ _).trans_lt hi)
  have hw : (tile columns cellW cellH gutterHeight aspect i).width ≤ cellW := min_le_left _ _
  have hh : (tile columns cellW cellH gutterHeight aspect i).height ≤ cellH - gutterHeight := min_le_left _ _
  have hx : (tile columns cellW cellH gutterHeight aspect i).x = i % columns * cellW +
      (cellW - (tile columns cellW cellH gutterHeight aspect i).width) / 2 := by rw [← hcolumn]; rfl
  have hy : (tile columns cellW cellH gutterHeight aspect i).y = i / columns * cellH +
      (cellH - gutterHeight - (tile columns cellW cellH gutterHeight aspect i).height) / 2 := by
    rw [← hrow]; rfl
  have hg : (tile columns cellW cellH gutterHeight aspect i).gutter = if 0 < gutterHeight then
      some ⟨i % columns * cellW, i / columns * cellH + (cellH - gutterHeight), cellW, gutterHeight⟩
      else none := by rw [← hcolumn, ← hrow]; rfl
  rw [Tile.rects, add_one_mul, add_one_mul, hg]
  split
  · simp only [Option.toList_some, List.pairwise_pair, List.forall_mem_cons, Rect.Apart]
    refine ⟨by omega, by omega, by omega, List.forall_mem_nil _⟩
  · simp only [Option.toList_none, List.pairwise_singleton, List.forall_mem_cons]
    exact ⟨trivial, by omega, List.forall_mem_nil _⟩

end

/-! ### The sheet -/

/-- The rectangles of a sheet stay in it and apart. -/
theorem render_spec {selections width height gutterHeight : ℕ} {aspect : ℚ} {tiles : List Tile}
    (h : render selections width height gutterHeight aspect = some tiles) (hselections : selections < 2 ^ 32) :
    (∀ r ∈ tiles.flatMap Tile.rects, r.Inside width height) ∧
      (tiles.flatMap Tile.rects).Pairwise Rect.Apart := by
  simp only [render, Option.ite_none_right_eq_some, Option.bind_eq_some_iff, Option.some.injEq] at h
  obtain ⟨-, columns, hcolumns, ⟨hgutter, -, -⟩, rfl⟩ := h
  obtain ⟨hpos, hle⟩ : 1 ≤ columns ∧ columns < 1 + selections :=
    List.mem_range'_1.mp (List.mem_reverse.mp (List.maxOn?_mem hcolumns))
  have hrow : ∀ i < selections, i / columns + 1 ≤ divCeil selections columns := by
    intro i hi
    rw [← Nat.add_div_right i hpos]
    exact Nat.div_le_div_right (by omega)
  have hrows : divCeil selections columns ≤ selections := by
    refine Nat.div_le_of_le_mul ?_
    nlinarith [Nat.sub_add_cancel (show 1 ≤ selections + columns by omega)]
  rw [show asU32 (divCeil selections columns) = divCeil selections columns from
    Nat.mod_eq_of_lt (hrows.trans_lt hselections)] at hgutter ⊢
  rw [show asU32 columns = columns from Nat.mod_eq_of_lt (by omega), List.flatMap_map]
  have hcell := fun i (hi : i < selections) =>
    @rects_cell columns (width / columns) _ _ aspect i hgutter (hi.trans hselections)
  constructor
  · intro r hr
    obtain ⟨i, hi, hr⟩ := List.mem_flatMap.mp hr
    rw [List.mem_range] at hi
    obtain ⟨-, hright, -, hbottom⟩ := (hcell i hi).2 r hr
    have hcolumn : i % columns + 1 ≤ columns := Nat.mod_lt i hpos
    exact ⟨hright.trans ((Nat.mul_le_mul_right _ hcolumn).trans (Nat.mul_div_le _ _)),
      hbottom.trans ((Nat.mul_le_mul_right _ (hrow i hi)).trans (Nat.mul_div_le _ _))⟩
  · refine List.pairwise_flatMap.mpr ⟨fun i hi => (hcell i (List.mem_range.mp hi)).1, ?_⟩
    refine List.nodup_range.imp_of_mem fun {i j} hi hj hne r hr r' hr' => ?_
    obtain ⟨hleft, hright, htop, hbottom⟩ := (hcell i (List.mem_range.mp hi)).2 r hr
    obtain ⟨hleft', hright', htop', hbottom'⟩ := (hcell j (List.mem_range.mp hj)).2 r' hr'
    have hcells : i % columns ≠ j % columns ∨ i / columns ≠ j / columns := by
      by_contra! hsame
      exact hne (by rw [← Nat.div_add_mod i columns, hsame.1, hsame.2, Nat.div_add_mod])
    rcases hcells with hne | hne <;> rcases lt_or_gt_of_ne hne with hlt | hlt
    · exact .inl (hright.trans ((Nat.mul_le_mul_right _ hlt).trans hleft'))
    · exact .inr (.inl (hright'.trans ((Nat.mul_le_mul_right _ hlt).trans hleft)))
    · exact .inr (.inr (.inl (hbottom.trans ((Nat.mul_le_mul_right _ hlt).trans htop'))))
    · exact .inr (.inr (.inr (hbottom'.trans ((Nat.mul_le_mul_right _ hlt).trans htop))))

/-- **A contact sheet decodes each frame wanted once and draws inside its image.**  The ranges that are fed
are apart and each starts at the latest keyframe not after the first frame wanted in it.  There are fewer
than `2 ^ 32` selections: the caller admits a hundred. -/
theorem contact_sheets_decode_once_and_draw_inside :
    (∀ (d : Decoder) (frames : List EncodedFrameKind) (wanted : Finset ℕ), d.Returns frames → wanted ≠ ∅ →
      (∀ index ∈ wanted, index < frames.length ∧ ∃ key ≤ index, IsKeyframe frames key) →
      ∃ ranges seen, decodeRanges frames (wanted.sort (· ≤ ·)) [] = some ranges ∧
        (ranges.Pairwise fun earlier later => earlier.2 < later.1) ∧
        (∀ range ∈ ranges, IsKeyframe frames range.1 ∧ ∃ first ∈ wanted, range.1 ≤ first ∧ first ≤ range.2 ∧
          (∀ key, IsKeyframe frames key → key ≤ first → key ≤ range.1) ∧
          ∀ other ∈ wanted, range.1 ≤ other → first ≤ other) ∧
        (ranges.flatMap (packets frames)).Nodup ∧ (∀ index ∈ wanted, index ∈ ranges.flatMap (packets frames)) ∧
        decode d frames wanted = some seen ∧ seen.Nodup ∧ ∀ index, index ∈ seen ↔ index ∈ wanted) ∧
    ∀ (selections width height gutterHeight : ℕ) (aspect : ℚ) (tiles : List Tile), selections < 2 ^ 32 →
      render selections width height gutterHeight aspect = some tiles →
      (tiles.flatMap Tile.rects).Pairwise Rect.Apart ∧
      (tiles.flatMap Tile.rects).Pairwise (fun a b => ∀ byte ∈ a.written width, byte ∉ b.written width) ∧
      ∀ r ∈ tiles.flatMap Tile.rects, r.Inside width height ∧
        ∀ byte ∈ r.written width, byte < width * height * 4 := by
  refine ⟨fun d frames wanted hreturns hne hwanted => ?_, fun _ width _ _ _ _ hselections hrender => ?_⟩
  · obtain ⟨ranges, hranges, h⟩ := @covers_decodeRanges frames [] [] (wanted.sort (· ≤ ·))
      (wanted.sortedLT_sort.pairwise) (fun index hindex => (hwanted index ((wanted.mem_sort _).mp hindex)).2)
      ⟨.nil, by simp, by simp, by simp, by simp⟩
    have hmem : ∀ {index}, index ∈ [] ++ wanted.sort (· ≤ ·) ↔ index ∈ wanted := wanted.mem_sort _
    have hapart := List.pairwise_reverse.mpr h.apart
    have hfeed : ∀ range ∈ ranges.reverse,
        (d.feed (packets frames range) (d.fresh range.1)).Perm (packets frames range) := by
      intro range hrange
      obtain ⟨hkey, first, -, hbegin, hend, -⟩ := h.starts range (List.mem_reverse.mp hrange)
      exact hreturns range hkey (hbegin.trans hend)
    have hin : ∀ range packet, packet ∈ packets frames range → range.1 ≤ packet ∧ packet ≤ range.2 :=
      fun range packet hpacket => ⟨(mem_packets.mp hpacket).1, (mem_packets.mp hpacket).2.1⟩
    have hcovers : ∀ index ∈ wanted, ∃ range ∈ ranges.reverse, index ∈ packets frames range := by
      intro index hindex
      obtain ⟨range, hrange, hbegin, hend⟩ := h.covers index (hmem.mpr hindex)
      exact ⟨range, List.mem_reverse.mpr hrange, mem_packets.mpr ⟨hbegin, hend, (hwanted index hindex).1⟩⟩
    have hseen : ∀ index, index ∈ ranges.reverse.flatMap (fun range =>
        (d.feed (packets frames range) (d.fresh range.1)).filter (· ∈ wanted)) ↔ index ∈ wanted := by
      intro index
      simp only [List.mem_flatMap, List.mem_filter, decide_eq_true_eq]
      constructor
      · rintro ⟨_, _, _, hindex⟩
        exact hindex
      · intro hindex
        obtain ⟨range, hrange, hpacket⟩ := hcovers index hindex
        exact ⟨range, hrange, (hfeed range hrange).mem_iff.mpr hpacket, hindex⟩
    refine ⟨_, _, hranges, hapart, ?_, nodup_flatMap hapart fun range _ => ⟨nodup_packets range, hin range⟩,
      fun index hindex => List.mem_flatMap.mpr (hcovers index hindex), ?_, nodup_flatMap hapart ?_, hseen⟩
    · simpa only [List.mem_reverse, hmem] using h.starts
    · rw [decode, if_neg hne, hranges, Option.bind_some]
      exact if_pos (congrArg Finset.card (Finset.ext fun index => List.mem_toFinset.trans (hseen index)))
    · intro range hrange
      refine ⟨((hfeed range hrange).nodup_iff.mpr (nodup_packets range)).filter _, fun packet hpacket => ?_⟩
      exact hin range packet ((hfeed range hrange).mem_iff.mp (List.mem_filter.mp hpacket).1)
  · obtain ⟨hin, hapart⟩ := render_spec hrender hselections
    refine ⟨hapart, hapart.imp_of_mem fun ha hb h => h.written (hin _ ha) (hin _ hb), fun r hr => ?_⟩
    exact ⟨hin r hr, (hin r hr).written⟩

end ContactSheet
