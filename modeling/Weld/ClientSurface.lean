/-
**Client surfaces.**

The vocabulary the compositor and its client adapters share, from `weld-client`: who a surface is,
what a client says about it (`ClientSurfaceEvent`), and what the compositor asks of it
(`ClientRequest`).  Identifiers are unbounded numbers.

Main definitions: `ClientSurfaceId`, `ClientSurfaceRole`, `ClientSurfaceCommit`,
`ClientSurfaceEvent`, `ClientSurfaceCommit.carryUnobservedContentFrom`, `ClientRequest`,
`ClientPresentationClaim`, `ClientCursor`.
-/

import Mathlib.Data.List.Basic
import Mathlib.Data.Rat.Defs

namespace Client

/-! ### Identities -/

abbrev ClientSourceId := ℕ
abbrev SurfaceLayerId := ℕ
abbrev ClientOutputId := ℕ

structure ClientId where
  source : ClientSourceId
  localId : ℕ
  deriving DecidableEq, Repr

structure ClientSurfaceId where
  client : ClientId
  localId : ℕ
  deriving DecidableEq, Repr

def ClientSurfaceId.source (s : ClientSurfaceId) : ClientSourceId := s.client.source

structure ClientBufferId where
  source : ClientSourceId
  localId : ℕ
  deriving DecidableEq, Repr

structure ClientBufferUseId where
  source : ClientSourceId
  localId : ℕ
  deriving DecidableEq, Repr

/-! ### Numbers and extents -/

/-- A floating-point number, exactly.  Nothing here computes with one. -/
inductive FloatValue
  | finite (value : ℚ)
  | infinite (negative : Bool)
  | nan
  deriving DecidableEq

namespace FloatValue

def isFinite : FloatValue → Bool
  | finite _ => true
  | _ => false

/-- Floating-point equality: not a number is equal to nothing. -/
def same : FloatValue → FloatValue → Bool
  | finite a, finite b => a == b
  | infinite a, infinite b => a == b
  | _, _ => false

/-- Not equal to zero, as floating-point comparison sees it. -/
def nonzero : FloatValue → Bool
  | finite value => value ≠ 0
  | _ => true

end FloatValue

structure Extent where
  width : ℕ := 0
  height : ℕ := 0
  deriving DecidableEq, Repr

structure LogicalPoint where
  x : FloatValue := .finite 0
  y : FloatValue := .finite 0
  deriving DecidableEq

structure LogicalSize where
  width : FloatValue := .finite 0
  height : FloatValue := .finite 0
  deriving DecidableEq

/-! ### Roles -/

inductive WindowDecoration
  | clientSide | serverSide
  deriving DecidableEq, Repr

inductive ToplevelKind
  | normal | dialog | utility | toolbar | splash
  deriving DecidableEq, Repr

structure ToplevelHints where
  urgent : Bool := false
  kind : ToplevelKind := .normal
  minSize : Extent := {}
  maxSize : Extent := {}
  deriving DecidableEq, Repr

structure ToplevelState where
  parent : Option ClientSurfaceId := none
  decoration : WindowDecoration := .clientSide
  hints : ToplevelHints := {}
  deriving DecidableEq, Repr

structure PopupState where
  owner : ClientSurfaceId
  position : LogicalPoint := {}
  stackIndex : ℤ := 0
  deriving DecidableEq

/-- The role of a surface.  Layer surfaces are desktop content, never hoisted. -/
inductive ClientSurfaceRole
  | toplevel (state : ToplevelState)
  | popup (state : PopupState)
  | layer
  deriving DecidableEq

/-- The surface a popup belongs to. -/
def ClientSurfaceRole.popupOwner : ClientSurfaceRole → Option ClientSurfaceId
  | .popup state => some state.owner
  | _ => none

/-- The surface a role names: the parent of a toplevel, the owner of a popup. -/
def ClientSurfaceRole.referent : ClientSurfaceRole → Option ClientSurfaceId
  | .toplevel state => state.parent
  | .popup state => some state.owner
  | .layer => none

/-! ### Commits -/

structure ClientBufferMetadata where
  size : Extent
  isOpaque : Bool
  deriving DecidableEq, Repr

structure ClientBufferLease where
  buffer : ClientBufferId
  useId : ClientBufferUseId
  deriving DecidableEq, Repr

inductive SurfaceBufferChange
  | retained (metadata : ClientBufferMetadata)
  | replaced (metadata : ClientBufferMetadata) (buffer : ClientBufferLease)
  | removed
  deriving DecidableEq, Repr

def SurfaceBufferChange.isRetained : SurfaceBufferChange → Bool
  | .retained _ => true
  | _ => false

def SurfaceBufferChange.isReplaced : SurfaceBufferChange → Bool
  | .replaced _ _ => true
  | _ => false

structure SurfaceBufferUpdate where
  layer : SurfaceLayerId
  change : SurfaceBufferChange
  deriving DecidableEq, Repr

/-- Whether an adapter has discarded the transparency of the surface tree. -/
inductive SurfaceAlphaMode
  | preserved | discarded
  deriving DecidableEq, Repr

/-- The displayed part of a buffer and its logical extent. -/
structure SurfaceContentView where
  sourceX : FloatValue := .finite 0
  sourceY : FloatValue := .finite 0
  sourceWidth : FloatValue := .finite 0
  sourceHeight : FloatValue := .finite 0
  logicalWidth : FloatValue := .finite 0
  logicalHeight : FloatValue := .finite 0
  deriving DecidableEq

structure SurfaceLayerPlacement where
  layer : SurfaceLayerId
  position : LogicalPoint := {}
  view : SurfaceContentView := {}
  deriving DecidableEq

structure SurfaceWindowGeometry where
  origin : LogicalPoint := {}
  view : SurfaceContentView := {}
  deriving DecidableEq

structure SurfaceInputRect where
  position : LogicalPoint
  size : LogicalSize
  deriving DecidableEq

structure SurfaceInputPlacement where
  layer : SurfaceLayerId
  position : LogicalPoint := {}
  regions : List SurfaceInputRect := []
  deriving DecidableEq

/-- One atomic surface commit; `buffers` is the complete inventory of its layers. -/
structure ClientSurfaceCommit where
  revision : ℕ
  alphaMode : SurfaceAlphaMode := .preserved
  mapped : Bool
  root : Option SurfaceLayerPlacement := none
  windowGeometry : Option SurfaceWindowGeometry := none
  overlays : List SurfaceLayerPlacement := []
  inputs : List SurfaceInputPlacement := []
  buffers : List SurfaceBufferUpdate := []
  deriving DecidableEq

/-- Carry buffers this reader has not consumed yet through retained updates. -/
def ClientSurfaceCommit.carryUnobservedContentFrom (commit previous : ClientSurfaceCommit) :
    ClientSurfaceCommit :=
  { commit with
    buffers := commit.buffers.map fun buffer =>
      if buffer.change.isRetained then
        match previous.buffers.find? fun old =>
            old.layer == buffer.layer && old.change.isReplaced with
        | some old => { buffer with change := old.change }
        | none => buffer
      else buffer }

/-! ### Events -/

structure ClientSurfaceMetadata where
  appId : String := ""
  title : String := ""
  x11Instance : Option String := none
  localProcessId : Option ℕ := none
  localLaunchId : Option ℕ := none
  deriving DecidableEq, Repr

inductive WindowResizeEdge
  | top | bottom | left | right | topLeft | bottomLeft | topRight | bottomRight
  deriving DecidableEq, Repr

inductive ToplevelInteractionRequestKind
  | move
  | resize (edges : WindowResizeEdge)
  | finish
  deriving DecidableEq, Repr

inductive ToplevelStateRequestKind
  | fullscreen (enabled : Bool)
  deriving DecidableEq, Repr

inductive ClientSurfaceEventKind
  | role (role : ClientSurfaceRole)
  | commit (commit : ClientSurfaceCommit)
  | interaction (kind : ToplevelInteractionRequestKind)
  | stateRequest (kind : ToplevelStateRequestKind)
  | destroyed
  | metadata (metadata : ClientSurfaceMetadata)
  deriving DecidableEq

structure ClientSurfaceEvent where
  surface : ClientSurfaceId
  kind : ClientSurfaceEventKind
  deriving DecidableEq

/-! ### Cursors -/

def maxCursorExtent : ℕ := 128

/-- A canonical bitmap: its extent is bounded, its pixels are complete and its hotspot lies
inside. -/
structure ClientCursorImage where
  width : ℕ
  height : ℕ
  hotspot : ℕ × ℕ
  rgba : List UInt8
  width_bounds : 0 < width ∧ width ≤ maxCursorExtent
  height_bounds : 0 < height ∧ height ≤ maxCursorExtent
  complete : rgba.length = width * height * 4
  hotspot_inside : hotspot.1 < width ∧ hotspot.2 < height
  deriving DecidableEq

/-- A cursor; named ones are entries of the host's icon table. -/
inductive ClientCursor
  | named (icon : ℕ)
  | hidden
  | image (image : ClientCursorImage)
  deriving DecidableEq

structure ClientCursorUpdate where
  surface : ClientSurfaceId
  cursor : ClientCursor
  deriving DecidableEq

/-! ### Presentation -/

/-- A nominal refresh in millihertz, between 1 and 1000 Hz. -/
structure PresentationRate where
  millihertz : ℕ
  bounds : 1000 ≤ millihertz ∧ millihertz ≤ 1000000
  deriving DecidableEq

structure PresentationGroupId where
  raw : ℕ
  bounds : 1 ≤ raw ∧ raw ≤ 65535
  deriving DecidableEq

inductive PresentationRole
  | primary | companion | utility
  deriving DecidableEq, Repr

structure SurfaceBitratePreference where
  group : PresentationGroupId
  role : PresentationRole
  deriving DecidableEq

/-- An adapter's claim takes over implicit local presentation until released. -/
inductive ClientPresentationClaim
  | release
  | active (rate : Option PresentationRate)
  | paused
  deriving DecidableEq

structure ClientPresentationUpdate where
  surface : ClientSurfaceId
  claim : ClientPresentationClaim
  deriving DecidableEq

/-! ### Requests -/

inductive ToplevelLayout
  | floating | tiled
  deriving DecidableEq, Repr

inductive ClientSurfaceRequestKind
  | close
  | configure (logicalSize : Extent) (layout : ToplevelLayout) (resizing fullscreen : Bool)
  | setOutputs (outputs : List ClientOutputId) (preferred : Option ClientOutputId)
      (preferredScale120 : Option ℕ)
  | setPreferredScale (scale120 : Option ℕ)
  | setPresentation (rate : Option PresentationRate)
  | setBitratePreference (preference : Option SurfaceBitratePreference)
  deriving DecidableEq

structure ClientSurfaceRequest where
  surface : ClientSurfaceId
  kind : ClientSurfaceRequestKind
  deriving DecidableEq

/-- A keyboard focus request; `none` clears the focus of that source. -/
structure ClientFocusRequest where
  source : ClientSourceId
  surface : Option ClientSurfaceId
  deriving DecidableEq, Repr

inductive ClientRequest
  | surface (request : ClientSurfaceRequest)
  | focus (request : ClientFocusRequest)
  | clearFocus
  deriving DecidableEq

end Client
