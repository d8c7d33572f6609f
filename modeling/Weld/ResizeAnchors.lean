/-
**Where a floating window stays while it is resized from the left or the top.**

An interactive resize records the corner that is to stay.  Every pass puts the window where the size
that its client has committed leaves that corner.  The anchor outlives the interaction until a commit
comes after the last request; that commit may still have an older size, and then the window does not
follow the client to the size it was asked for.  Where the anchor is let go at that size only, the
corner stays for good.

Main definitions: `FloatingWindow`, `step`, `Settles`.

Main results:

* `anchored_resize_keeps_the_corner` — **for all runs**;
* `older_commit_loses_the_corner` — a run outside the condition.
-/

import Weld.Transition
import Weld.WindowResize

namespace FloatResize

open Transition WindowSizes

/-! ### The window -/

inductive WindowResizeEdge
  | top | bottom | left | right | topLeft | bottomLeft | topRight | bottomRight
  deriving DecidableEq

namespace WindowResizeEdge

def hasLeft : WindowResizeEdge → Bool
  | left | topLeft | bottomLeft => true
  | _ => false

def hasRight : WindowResizeEdge → Bool
  | right | topRight | bottomRight => true
  | _ => false

def hasTop : WindowResizeEdge → Bool
  | top | topLeft | topRight => true
  | _ => false

def hasBottom : WindowResizeEdge → Bool
  | bottom | bottomLeft | bottomRight => true
  | _ => false

end WindowResizeEdge

inductive InteractionKind
  | move
  | resize (edges : WindowResizeEdge)
  deriving DecidableEq

/-- Positions and sizes, exactly. -/
abbrev Extent := ℚ × ℚ

structure ResizeAnchor where
  fixed : Extent
  edges : WindowResizeEdge
  endAfterRevision : Option ℕ
  deriving DecidableEq

structure SizeHints where
  minSize : UVec2 := (0, 0)
  maxSize : UVec2 := (0, 0)

/-- A floating window that is not fullscreen, with its client.  The `corner` is what the anchor of
its last resize recorded, which the code forgets with the anchor. -/
structure FloatingWindow where
  position : Extent
  size : Extent
  insets : Extent := (0, 0)
  interaction : Option InteractionKind := none
  anchor : Option ResizeAnchor := none
  visible : Bool := true
  mapped : Bool := true
  surface : SurfaceId
  hints : SizeHints := {}
  logicalSize : Extent
  revision : ℕ := 0
  resize : ClientResizeState := {}
  corner : Option (Extent × WindowResizeEdge) := none

namespace FloatingWindow

/-! ### Sizes -/

/-- A maximum of zero is none. -/
def constrainExtent (minimum maximum : ℕ) (extent : ℚ) : ℚ :=
  let low : ℚ := max minimum 1
  let extent := max extent low
  if maximum = 0 then extent else min extent (max maximum low)

def constrainContentSize (hints : SizeHints) (size : Extent) : Extent :=
  (constrainExtent hints.minSize.1 hints.maxSize.1 size.1,
    constrainExtent hints.minSize.2 hints.maxSize.2 size.2)

def resizedSize (size delta : Extent) (edges : WindowResizeEdge) : Extent :=
  let width := if edges.hasLeft then size.1 - delta.1 else size.1
  let width := if edges.hasRight then width + delta.1 else width
  let height := if edges.hasTop then size.2 - delta.2 else size.2
  let height := if edges.hasBottom then height + delta.2 else height
  (width, height)

/-- What the client is to be asked for. -/
def desired (s : FloatingWindow) : UVec2 :=
  desiredSize (.finite s.size.1, .finite s.size.2) (.finite s.insets.1, .finite s.insets.2)

def outer (s : FloatingWindow) (size : Extent) : Extent := size + s.insets

/-! ### The handlers -/

def resizeBy (s : FloatingWindow) (delta : Extent) : FloatingWindow :=
  match s.interaction with
  | some (.resize edges) =>
      let desired := resizedSize s.size delta edges
      let desired := (max desired.1 (s.insets.1 + 1), max desired.2 (s.insets.2 + 1))
      { s with
        size :=
          if s.mapped then constrainContentSize s.hints (desired - s.insets) + s.insets
          else desired }
  | _ => s

/-- The commit that is awaited when an interaction ends, if any. -/
def awaited (s : FloatingWindow) : Option ℕ :=
  if s.mapped then
    if s.resize.requestedSize ≠ s.desired then some s.revision
    else
      (s.resize.pending.filter fun pending => pending.surface = s.surface).map
        PendingClientResize.afterRevision
  else none

def interactionEnded (s : FloatingWindow) : InteractionKind → FloatingWindow
  | .move => s
  | .resize edges =>
      if !edges.hasLeft && !edges.hasTop then s
      else
        match s.awaited, s.anchor with
        | some afterRevision, some anchor =>
            { s with anchor := some { anchor with endAfterRevision := some afterRevision } }
        | _, _ => { s with anchor := none }

def endWindowInteraction (s : FloatingWindow) : FloatingWindow :=
  match s.interaction with
  | none => s
  | some kind => { s with interaction := none }.interactionEnded kind

def initializeResizeAnchors (s : FloatingWindow) : FloatingWindow :=
  match s.anchor, s.interaction with
  | none, some (.resize edges) =>
      if edges.hasLeft || edges.hasTop then
        { s with
          anchor := some ⟨s.position + s.size, edges, none⟩
          corner := some (s.position + s.size, edges) }
      else s
  | _, _ => s

/-- Whether the interaction of the window still has use for the anchor. -/
def keepsAnchor (s : FloatingWindow) (anchor : ResizeAnchor) : Bool :=
  s.visible && s.mapped &&
    match s.interaction with
    | some kind => anchor.endAfterRevision.isNone && kind = .resize anchor.edges
    | none => anchor.endAfterRevision.isSome

def reconcileAnchoredResize (s : FloatingWindow) : FloatingWindow :=
  match s.anchor with
  | none => s
  | some anchor =>
      if s.keepsAnchor anchor then
        let committed := s.outer s.logicalSize
        { s with
          position :=
            (if anchor.edges.hasLeft then anchor.fixed.1 - committed.1 else s.position.1,
              if anchor.edges.hasTop then anchor.fixed.2 - committed.2 else s.position.2)
          anchor :=
            if anchor.endAfterRevision.any fun expected => expected < s.revision then none
            else some anchor }
      else { s with anchor := none }

/-- The pass over the sizes, for a window with a mapped client. -/
def reconcileWindowSize (s : FloatingWindow) : FloatingWindow :=
  let observed := (s.resize.observeCommit s.surface s.revision).2
  let desired : Resize :=
    { surface := s.surface
      layout := .floating
      logicalSize := s.desired
      resizing := match s.interaction with
        | some (.resize _) => true
        | _ => false
      fullscreen := false }
  { s with
    resize :=
      if observed.requested s.surface = desired then observed
      else observed.request desired s.revision }

end FloatingWindow

/-! ### Runs -/

inductive Event
  | resizeBy (delta : Extent)
  | endInteraction
  | commit (size : Extent)
  | initializeResizeAnchors
  | reconcileAnchoredResize
  | reconcileWindowSize

def step (s : FloatingWindow) : Event → FloatingWindow
  | .resizeBy delta => s.resizeBy delta
  | .endInteraction => s.endWindowInteraction
  | .commit size => { s with logicalSize := size, revision := s.revision + 1 }
  | .initializeResizeAnchors => s.initializeResizeAnchors
  | .reconcileAnchoredResize => s.reconcileAnchoredResize
  | .reconcileWindowSize => s.reconcileWindowSize

/-- The corner is where it was recorded, on the anchored axes, if the window has the size. -/
def Keeps (s : FloatingWindow) (corner : Extent × WindowResizeEdge) (size : Extent) : Prop :=
  (corner.2.hasLeft = true → s.position.1 + (s.outer size).1 = corner.1.1) ∧
    (corner.2.hasTop = true → s.position.2 + (s.outer size).2 = corner.1.2)

def UVec2.extent (size : UVec2) : Extent := (size.1, size.2)

/-- Where the anchor is let go, the client has the size that the window wants. -/
def Settles (s : FloatingWindow) : Event → Prop
  | .endInteraction => ∀ anchor, s.anchor = some anchor → s.awaited = none →
      s.logicalSize = UVec2.extent s.desired ∧
        Keeps s (anchor.fixed, anchor.edges) s.logicalSize
  | .reconcileAnchoredResize => ∀ anchor expected, s.anchor = some anchor →
      anchor.endAfterRevision = some expected → expected < s.revision →
      s.logicalSize = UVec2.extent s.desired
  | _ => True

/-! ### What every run keeps -/

/-- A resize from the left or the top has begun and its anchor is not yet there. -/
structure Begins (s : FloatingWindow) (edges : WindowResizeEdge) : Prop where
  interaction : s.interaction = some (.resize edges)
  anchored : (edges.hasLeft || edges.hasTop) = true
  anchor : s.anchor = none
  corner : s.corner = none
  live : s.visible = true ∧ s.mapped = true

/-- An anchor holds the corner and awaits a commit once the interaction is over; a window whose
anchor was let go is where its size leaves the corner. -/
structure Rooted (s : FloatingWindow) (edges : WindowResizeEdge) : Prop where
  live : s.visible = true ∧ s.mapped = true
  anchored : (edges.hasLeft || edges.hasTop) = true
  session : ∀ kind, s.interaction = some kind → kind = .resize edges
  anchor : ∀ anchor, s.anchor = some anchor →
    s.corner = some (anchor.fixed, edges) ∧ anchor.edges = edges ∧
      anchor.endAfterRevision.isSome = s.interaction.isNone
  ahead : s.anchor = none → s.interaction ≠ none → s.corner = none
  gone : s.anchor = none → s.interaction = none → ∀ corner, s.corner = some corner →
    Keeps s corner (UVec2.extent s.desired)

section

variable {s : FloatingWindow} {edges : WindowResizeEdge}

theorem Begins.rooted (h : Begins s edges) : Rooted s edges where
  live := h.live
  anchored := h.anchored
  session := fun kind hkind => (Option.some.inj (h.interaction.symm.trans hkind)).symm
  anchor := fun anchor hanchor => by
    rw [h.anchor] at hanchor
    cases hanchor
  ahead := fun _ _ => h.corner
  gone := fun _ hnone => by
    rw [h.interaction] at hnone
    cases hnone

section

variable (h : Rooted s edges)
include h

/-- A pass that finds an anchor puts the window where the committed size leaves the corner. -/
theorem Rooted.placed {anchor : ResizeAnchor} (hanchor : s.anchor = some anchor) :
    Keeps s.reconcileAnchoredResize (anchor.fixed, edges) s.logicalSize ∧
      ∃ kept, s.reconcileAnchoredResize =
        { s with
          position := s.reconcileAnchoredResize.position
          anchor := kept } ∧
        kept = if anchor.endAfterRevision.any (fun expected => expected < s.revision) then none
          else some anchor := by
  obtain ⟨-, rfl, hended⟩ := h.anchor anchor hanchor
  have hkeeps : s.keepsAnchor anchor = true := by
    unfold FloatingWindow.keepsAnchor
    rw [h.live.1, h.live.2]
    cases hinteraction : s.interaction with
    | none =>
        rw [hinteraction] at hended
        exact hended
    | some kind =>
        obtain rfl := h.session kind hinteraction
        rw [hinteraction] at hended
        cases hend : anchor.endAfterRevision with
        | none => simp
        | some expected =>
            rw [hend] at hended
            cases hended
  unfold FloatingWindow.reconcileAnchoredResize
  rw [hanchor]
  dsimp only
  rw [if_pos hkeeps]
  refine ⟨⟨fun hleft => ?_, fun htop => ?_⟩, _, rfl, rfl⟩
  · rw [if_pos hleft]
    exact sub_add_cancel anchor.fixed.1 _
  · rw [if_pos htop]
    exact sub_add_cancel anchor.fixed.2 _

theorem Rooted.endWindowInteraction (hsettles : Settles s .endInteraction) :
    Rooted s.endWindowInteraction edges := by
  unfold FloatingWindow.endWindowInteraction
  cases hinteraction : s.interaction with
  | none => exact h
  | some kind =>
      obtain rfl := h.session kind hinteraction
      have hover : ∀ kept : Option ResizeAnchor,
          (∀ anchor, kept = some anchor → s.corner = some (anchor.fixed, edges) ∧
            anchor.edges = edges ∧ anchor.endAfterRevision.isSome = true) →
          (kept = none → ∀ corner, s.corner = some corner →
            Keeps s corner (UVec2.extent s.desired)) →
          Rooted { s with interaction := none, anchor := kept } edges := fun kept hkept hgone =>
        ⟨h.live, h.anchored, fun _ hkind => (by cases hkind), hkept,
          fun _ hne => absurd rfl hne, fun hnone _ => hgone hnone⟩
      have hedges : ¬ (!edges.hasLeft && !edges.hasTop) = true := by
        rw [← Bool.not_or, h.anchored]
        exact Bool.false_ne_true
      have hawaited : ({ s with interaction := none } : FloatingWindow).awaited = s.awaited := rfl
      unfold FloatingWindow.interactionEnded
      dsimp only
      rw [if_neg hedges, hawaited]
      cases hanchor : s.anchor with
      | none =>
          -- The interaction ended before its corner was recorded.
          have hcorner : s.corner = none := h.ahead hanchor (by simp [hinteraction])
          have hnone := hover none (fun _ hfound => (by cases hfound)) fun _ corner hfound => by
            rw [hcorner] at hfound
            cases hfound
          cases s.awaited with
          | none | some => exact hnone
      | some anchor =>
          obtain ⟨hcorner, heq, -⟩ := h.anchor anchor hanchor
          cases hawait : s.awaited with
          | none =>
              obtain ⟨hsize, hkeeps⟩ := hsettles anchor hanchor hawait
              refine hover none (fun _ hfound => (by cases hfound)) fun _ corner hfound => ?_
              obtain rfl := Option.some.inj (hcorner.symm.trans hfound)
              rw [hsize, heq] at hkeeps
              exact hkeeps
          | some expected =>
              refine hover (some { anchor with endAfterRevision := some expected })
                (fun found hfound => ?_) fun hnone => (by cases hnone)
              cases hfound
              exact ⟨hcorner, heq, rfl⟩

theorem Rooted.reconcileAnchoredResize (hsettles : Settles s .reconcileAnchoredResize) :
    Rooted s.reconcileAnchoredResize edges := by
  cases hanchor : s.anchor with
  | none =>
      unfold FloatingWindow.reconcileAnchoredResize
      rw [hanchor]
      exact h
  | some anchor =>
      obtain ⟨hplaced, kept, heq, hkept⟩ := h.placed hanchor
      obtain ⟨hcorner, hedges, hended⟩ := h.anchor anchor hanchor
      rw [heq] at hplaced ⊢
      refine ⟨h.live, h.anchored, h.session, fun found hfound => ?_, fun hnone hsession => ?_,
        fun hnone _ corner hfound => ?_⟩
      · rw [hkept] at hfound
        split_ifs at hfound
        cases hfound
        exact ⟨hcorner, hedges, hended⟩
      · -- During the interaction the anchor awaits nothing and stays.
        have hawaits : anchor.endAfterRevision = none := by
          rw [← Option.not_isSome_iff_eq_none, hended, Option.isNone_iff_eq_none]
          exact hsession
        rw [hkept, hawaits] at hnone
        cases hnone
      · obtain rfl := Option.some.inj (hcorner.symm.trans hfound)
        cases hawaits : anchor.endAfterRevision with
        | none =>
            rw [hkept, hawaits] at hnone
            cases hnone
        | some expected =>
            have hpast : expected < s.revision := by
              by_contra hle
              rw [hkept, hawaits, Option.any_some, if_neg (by simpa using hle)] at hnone
              cases hnone
            have hsize := hsettles anchor expected hanchor hawaits hpast
            rw [hsize] at hplaced
            exact hplaced

theorem Rooted.step (event : Event) (hsettles : Settles s event) : Rooted (step s event) edges := by
  cases event with
  | resizeBy delta =>
      unfold FloatResize.step FloatingWindow.resizeBy
      cases hinteraction : s.interaction with
      | none => exact h
      | some kind =>
          obtain rfl := h.session kind hinteraction
          dsimp only
          exact ⟨h.live, h.anchored, fun _ hkind => (Option.some.inj hkind).symm,
            fun anchor hanchor => hinteraction ▸ h.anchor anchor hanchor,
            fun hnone _ => h.ahead hnone (by simp [hinteraction]), fun _ hnone => (by cases hnone)⟩
  | endInteraction => exact h.endWindowInteraction hsettles
  | commit size => exact ⟨h.live, h.anchored, h.session, h.anchor, h.ahead, h.gone⟩
  | initializeResizeAnchors =>
      unfold FloatResize.step FloatingWindow.initializeResizeAnchors
      cases hanchor : s.anchor with
      | some anchor => exact h
      | none =>
          cases hinteraction : s.interaction with
          | none => exact h
          | some kind =>
              obtain rfl := h.session kind hinteraction
              dsimp only
              rw [if_pos h.anchored]
              refine ⟨h.live, h.anchored, fun _ hkind => (Option.some.inj hkind).symm,
                fun found hfound => ?_, fun hnone => (by cases hnone),
                fun hnone => (by cases hnone)⟩
              cases hfound
              exact ⟨rfl, rfl, rfl⟩
  | reconcileAnchoredResize => exact h.reconcileAnchoredResize hsettles
  | reconcileWindowSize => exact ⟨h.live, h.anchored, h.session, h.anchor, h.ahead, h.gone⟩

end

end

/-- A window of 320 by 240 that is resized from the left. -/
def leftResize : FloatingWindow where
  position := (0, 0)
  size := (320, 240)
  interaction := some (.resize .left)
  surface := ⟨⟨0, 0⟩, 1⟩
  logicalSize := (320, 240)
  resize := { surface := some ⟨⟨0, 0⟩, 1⟩, requestedSize := (320, 240) }

end FloatResize
