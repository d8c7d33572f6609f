/-
**Composed views.**

A source in composited mode sends one opaque viewport for each toplevel.  `view.rs` of
`weld-hoist-core` retains the latest commit of every member of a view: the toplevel and the popups
whose owners lead to it.  Whenever a member changes it puts a new viewport together, with the regions
at which input is handed to which member.

Main definitions: `SourceViews`, `SourceViews.root`, `SourceViews.compose`,
`SourceViews.tryCompose`, `ViewEvent`.
-/

import Mathlib.Data.List.Sort
import Mathlib.Data.Prod.Lex
import Weld.BoundedWalk
import Weld.Dict
import Weld.FloatArithmetic
import Weld.HoistMessages

namespace Views

open Client Hoist

def maxViewSurfaces : ℕ := 128

def maxViewLayers : ℕ := 128

/-! ### What is composed -/

structure CompositionLayer where
  buffer : ClientBufferLease
  placement : SurfaceLayerPlacement
  deriving DecidableEq

/-- Layers from back to front, sampled into one buffer. -/
structure ComposedBuffer where
  extent : Extent
  logicalSize : LogicalSize
  layers : List CompositionLayer
  deriving DecidableEq

/-- Where input is handed to: a layer of a member, and its origin in the viewport. -/
structure ViewTarget where
  session : HoistSessionId
  surface : ClientSurfaceId
  layer : SurfaceLayerId
  origin : LogicalPoint
  deriving DecidableEq

structure HitRegion where
  target : ViewTarget
  regions : List SurfaceInputRect
  deriving DecidableEq

/-- An event for a session; the buffer of a composed commit gives access to its scene. -/
structure ViewEvent where
  session : HoistSessionId
  event : ClientSurfaceEvent
  scene : Option ComposedBuffer := none
  deriving DecidableEq

/-! ### What is retained -/

structure Surface where
  session : Option HoistSessionId := none
  role : Option ClientSurfaceRole := none
  commit : Option ClientSurfaceCommit := none
  deriving DecidableEq

structure View where
  revision : ℕ := 0
  hits : List HitRegion := []
  invalid : Bool := false
  deriving DecidableEq

/-- The next revision, larger than those before and than the one it is about. -/
def View.advance (view : View) (upstream : ℕ) : View × Except String ℕ :=
  match checkedSucc (max view.revision upstream) with
  | some revision => ({ view with revision := revision }, .ok revision)
  | none => (view, .error "composition revision exhausted")

inductive SurfaceStreamMode
  | independent | composited
  deriving DecidableEq, Repr

structure SourceViews where
  mode : SurfaceStreamMode := .independent
  surfaces : Dict ClientSurfaceId Surface := ∅
  views : Dict ClientSurfaceId View := ∅

namespace SourceViews

def new (mode : SurfaceStreamMode) : SourceViews := { mode := mode }

variable (s : SourceViews) (surface : ClientSurfaceId)

def isView : Bool := (s.views.lookup surface).isSome

/-- The owner of a popup. -/
def ownerOf : Option ClientSurfaceId :=
  (s.surfaces.lookup surface).bind fun state => state.role.bind (·.popupOwner)

/-- The view a surface belongs to: the first one on the way from owner to owner. -/
def root : Option ClientSurfaceId :=
  BoundedWalk.walk s.isView s.ownerOf maxViewSurfaces surface

/-! ### Putting a scene together -/

/-- The buffer of a layer that the commit brings or carries. -/
def retainedBuffer (commit : ClientSurfaceCommit) (layer : SurfaceLayerId) :
    Option ClientBufferLease :=
  commit.buffers.findSome? fun update =>
    match update.change with
    | .replaced _ buffer => if update.layer = layer then some buffer else none
    | .retained _ | .removed => none

def moved (point offset : LogicalPoint) : LogicalPoint :=
  ⟨point.x.add offset.x, point.y.add offset.y⟩

structure Scene where
  layers : List CompositionLayer := []
  hits : List HitRegion := []

/-- The layer at its place in the viewport. -/
def compositionLayer (commit : ClientSurfaceCommit) (offset : LogicalPoint)
    (placement : SurfaceLayerPlacement) : Except String CompositionLayer :=
  match retainedBuffer commit placement.layer with
  | some buffer => .ok ⟨buffer, { placement with position := moved placement.position offset }⟩
  | none => .error "composition layer has no retained buffer"

/-- Where a placement takes input. -/
def hitRegion (session : HoistSessionId) (surface : ClientSurfaceId) (offset : LogicalPoint)
    (input : SurfaceInputPlacement) : HitRegion :=
  ⟨⟨session, surface, input.layer, moved input.position offset⟩, input.regions⟩

/-- Add the layers of a surface and the regions at which it takes input. -/
def append (offset : LogicalPoint) (scene : Scene) : Except String Scene :=
  match s.surfaces.lookup surface with
  | none => .error "composition member disappeared"
  | some state =>
      match state.session, state.commit with
      | some session, some commit =>
          if commit.mapped then
            ((commit.root.toList ++ commit.overlays).mapM (compositionLayer commit offset)).map
              fun layers =>
                ⟨scene.layers ++ layers,
                  scene.hits ++ commit.inputs.map (hitRegion session surface offset)⟩
          else .ok scene
      | _, _ => .ok scene

/-- The order of popups: by stack index, then by identity. -/
def stackKey (entry : ClientSurfaceId × PopupState) : ℤ ×ₗ ℕ ×ₗ ℕ ×ₗ ℕ :=
  toLex (entry.2.stackIndex, toLex (entry.1.client.source,
    toLex (entry.1.client.localId, entry.1.localId)))

variable (root : ClientSurfaceId)

/-- The popups of a view.  Their keys are distinct, so the order in which a map yields its entries is
forgotten. -/
def popups : List (ClientSurfaceId × PopupState) :=
  (s.surfaces.entries.filterMap fun entry =>
    match entry.2.role with
    | some (.popup popup) => if s.root entry.1 = some root then some (entry.1, popup) else none
    | some (.toplevel _) | some .layer | none => none).insertionSort
      fun a b => stackKey a ≤ stackKey b

/-- A popup is placed relative to the geometry of its toplevel, inside the viewport if it fits. -/
def popupPosition (size : LogicalSize) (popup : PopupState) (commit : ClientSurfaceCommit) :
    Option LogicalPoint :=
  let origin := (commit.windowGeometry.map (·.origin)).getD {}
  ((commit.windowGeometry.map (·.view)).or (commit.root.map (·.view))).map fun view =>
    ⟨(popup.position.x.clamp (.finite 0) ((size.width.sub view.logicalWidth).max (.finite 0))).sub
        origin.x,
      (popup.position.y.clamp (.finite 0) ((size.height.sub view.logicalHeight).max (.finite 0))).sub
        origin.y⟩

def appendPopup (size : LogicalSize) (scene : Scene)
    (entry : ClientSurfaceId × PopupState) : Except String Scene :=
  match ((s.surfaces.lookup entry.1).bind (·.commit)).filter (·.mapped) with
  | none => .ok scene
  | some commit =>
      match popupPosition size entry.2 commit with
      | none => .ok scene
      | some position => s.append entry.1 position scene

/-- The displayed part of a toplevel: its window geometry, or all of it. -/
def viewport (commit : ClientSurfaceCommit) (placement : SurfaceLayerPlacement) :
    SurfaceWindowGeometry :=
  commit.windowGeometry.getD ⟨placement.position, placement.view⟩

def validViewport (view : SurfaceContentView) : Bool :=
  view.logicalWidth.isFinite && view.logicalHeight.isFinite &&
    FloatValue.lt (.finite 0) view.logicalWidth && FloatValue.lt (.finite 0) view.logicalHeight &&
    view.sourceWidth.isFinite && view.sourceHeight.isFinite &&
    FloatValue.lt (.finite 0) view.sourceWidth && FloatValue.lt (.finite 0) view.sourceHeight

/-- The toplevel first, its popups in order above it. -/
def assemble (geometry : SurfaceWindowGeometry) : Except String Scene :=
  if validViewport geometry.view then do
    let size : LogicalSize := ⟨geometry.view.logicalWidth, geometry.view.logicalHeight⟩
    let base ← s.append root ⟨geometry.origin.x.neg, geometry.origin.y.neg⟩ {}
    let scene ← (s.popups root).foldlM (s.appendPopup size) base
    if scene.layers.length ≤ maxViewLayers then .ok scene
    else .error "composition layer limit exceeded"
  else .error "invalid composition viewport"

/-! ### Composing a view -/

/-- A commit that shows nothing. -/
def hidden (revision : ℕ) : ClientSurfaceEvent :=
  ⟨surface, .commit { revision := revision, alphaMode := .discarded, mapped := false }⟩

/-- A commit that shows one opaque viewport. -/
def composed (layer : SurfaceLayerId) (geometry : SurfaceWindowGeometry)
    (scene : Scene) (session : HoistSessionId) (revision : ℕ) : ViewEvent :=
  let extent : Extent := ⟨geometry.view.sourceWidth.ceilU32, geometry.view.sourceHeight.ceilU32⟩
  let size : LogicalSize := ⟨geometry.view.logicalWidth, geometry.view.logicalHeight⟩
  let view : SurfaceContentView :=
    { sourceWidth := .ofU32 extent.width
      sourceHeight := .ofU32 extent.height
      logicalWidth := size.width
      logicalHeight := size.height }
  { session := session
    event :=
      ⟨root, .commit
        { revision := revision
          alphaMode := .discarded
          mapped := true
          root := some ⟨layer, {}, view⟩
          windowGeometry := some ⟨{}, view⟩
          inputs := [⟨layer, {}, [⟨{}, size⟩]⟩]
          buffers := [⟨layer, .replaced ⟨extent, true⟩
            ⟨⟨root.source, root.localId⟩, ⟨root.source, revision⟩⟩⟩] }⟩
    scene := some ⟨extent, size, scene.layers⟩ }

def setView (view : View) : SourceViews :=
  { s with views := s.views.insert root view }

def tryCompose : SourceViews × Except String (Option ViewEvent) :=
  match (s.surfaces.lookup root).bind fun state => state.session.bind fun session =>
      state.commit.map fun commit => (session, commit) with
  | none => (s, .ok none)
  | some (session, commit) =>
      match commit.root.filter fun _ => commit.mapped with
      | none =>
          match s.views.lookup root with
          | none => (s, .error "composition view disappeared")
          | some view =>
              match ({ view with hits := [] } : View).advance commit.revision with
              | (view, .error error) => (s.setView root view, .error error)
              | (view, .ok revision) =>
                  (s.setView root view, .ok (some ⟨session, hidden root revision, none⟩))
      | some placement =>
          match s.assemble root (viewport commit placement) with
          | .error error => (s, .error error)
          | .ok scene =>
              match s.views.lookup root with
              | none => (s, .error "composition view disappeared")
              | some view =>
                  match ({ view with hits := scene.hits } : View).advance commit.revision with
                  | (view, .error error) => (s.setView root view, .error error)
                  | (view, .ok revision) =>
                      (s.setView root view, .ok (some (composed root placement.layer
                        (viewport commit placement) scene session revision)))

/-- A view that cannot be composed is hidden until it can. -/
def compose : SourceViews × Except String (Option ViewEvent) :=
  match s.tryCompose root with
  | (s, .ok event) =>
      ({ s with views := s.views.modify root fun view => { view with invalid := false } }, .ok event)
  | (s, .error error) =>
      match s.views.lookup root with
      | none => (s, .error error)
      | some view =>
          let view := { view with invalid := true }
          match s.surfaces.lookup root with
          | none => (s.setView root view, .error "composition member disappeared")
          | some state =>
              match state.session with
              | none => (s.setView root view, .ok none)
              | some session =>
                  match view.advance ((state.commit.map (·.revision)).getD 0) with
                  | (view, .error error) => (s.setView root view, .error error)
                  | (view, .ok revision) =>
                      (s.setView root { view with hits := [] },
                        .ok (some ⟨session, hidden root revision, none⟩))

/-! ### Events -/

/-- What an event says about its surface; a commit is retained while its surface belongs to a view. -/
def Surface.note (state : Surface) (session : HoistSessionId) (composing : Bool) :
    ClientSurfaceEventKind → Surface
  | .role role => { state with session := some session, role := some role }
  | .commit commit =>
      { state with
        session := some session
        commit :=
          if composing then
            some ((state.commit.map commit.carryUnobservedContentFrom).getD commit)
          else none }
  | _ => { state with session := some session }

def noteEvent (session : HoistSessionId) (event : ClientSurfaceEvent)
    (composing : Bool) : SourceViews :=
  match event.kind with
  | .destroyed =>
      { s with surfaces := s.surfaces.erase event.surface, views := s.views.erase event.surface }
  | kind =>
      { s with
        surfaces := s.surfaces.insert event.surface
          (Surface.note ((s.surfaces.lookup event.surface).getD {}) session composing kind) }

/-- A toplevel in composited mode has a view. -/
def enlist (event : ClientSurfaceEvent) : SourceViews :=
  match event.kind with
  | .role (.toplevel _) =>
      if s.mode = .composited then { s with views := s.views.insertNew event.surface {} } else s
  | _ => s

/-- The root that a surface left for another one. -/
def leftRoot (oldRoot newRoot : Option ClientSurfaceId) : Option ClientSurfaceId :=
  oldRoot.filter fun previous =>
    newRoot.isSome && decide (some previous ≠ newRoot) && decide (previous ≠ surface)

/-- Compose the view, if there is one. -/
def composeIf : Option ClientSurfaceId → SourceViews × Except String (Option ViewEvent)
  | none => (s, .ok none)
  | some root => s.compose root

def observe (session : HoistSessionId) (event : ClientSurfaceEvent) :
    SourceViews × Except String (List ViewEvent) :=
  if s.mode = .independent then (s, .ok [⟨session, event, none⟩])
  else
    let s := s.enlist event
    let oldRoot := s.root event.surface
    let s := s.noteEvent session event oldRoot.isSome
    let newRoot := s.root event.surface
    match newRoot.or oldRoot with
    | none => (s, .ok [⟨session, event, none⟩])
    | some root =>
        match s.composeIf (leftRoot event.surface oldRoot newRoot) with
        | (s, .error error) => (s, .error error)
        | (s, .ok previous) =>
            match event.kind with
            | .metadata _ | .interaction _ | .stateRequest _ => (s, .ok [⟨session, event, none⟩])
            | kind =>
                let passed :=
                  match kind with
                  | .commit _ => []
                  | _ => [⟨session, event, none⟩]
                match s.compose root with
                | (s, .error error) => (s, .error error)
                | (s, .ok composed) => (s, .ok (previous.toList ++ passed ++ composed.toList))

def withdraw : SourceViews × Except String (Option ViewEvent) :=
  let root := s.root surface
  let s := { s with surfaces := s.surfaces.erase surface, views := s.views.erase surface }
  s.composeIf (root.filter fun root => decide (root ≠ surface))

end SourceViews

end Views
