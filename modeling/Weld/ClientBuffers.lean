/-
**The buffers of clients.**

A client attaches a buffer to a surface, together with a point of a timeline if it synchronizes
explicitly, and waits for both to be given back.  The compositor copies the pixels of a buffer in
shared memory and releases it at once; a DMA-BUF it hands to a release store, under an identity that
comes back when the GPU is done with it.

Everything an import does to a buffer or to a point is an effect, and the effects are recorded in
the order in which they happen.  A point whose signalling fails counts as signalled: the failure is
only logged.  The host is little-endian.

Main definitions: `Smithay`, `copyShmBuffer`, `surfaceContentView`, `cropRootView`,
`DmabufReleaseStore.register`, `importBuffer`, `releaseWithoutSampling`.
-/

import Weld.Dict
import Weld.FloatArithmetic
import Weld.HoistMessages

namespace SurfaceTree

open Client FloatValue

/-- A protocol object; no identity is used twice. -/
abbrev ObjectId := ℕ
abbrev DmabufReleaseId := ℕ
/-- A point of a timeline that a client waits for. -/
abbrev DrmSyncPoint := ℕ

/-! ### Geometry -/

structure Point where
  x : ℤ := 0
  y : ℤ := 0
  deriving DecidableEq

def Point.add (p q : Point) : Point := ⟨p.x + q.x, p.y + q.y⟩

structure Size where
  w : ℤ
  h : ℤ
  deriving DecidableEq

structure Rectangle where
  loc : Point
  size : Size
  deriving DecidableEq

/-- A rectangle in double precision. -/
structure FloatRectangle where
  x : FloatValue
  y : FloatValue
  w : FloatValue
  h : FloatValue
  deriving DecidableEq

structure ViewportCachedState where
  src : Option FloatRectangle := none
  dst : Option Size := none
  deriving DecidableEq

/-- What the protocol library computes. -/
structure Smithay where
  /-- The logical size of a buffer at a scale, without a transform. -/
  toLogical : Size → ℤ → Size
  ensureViewportValid : ViewportCachedState → Size → Bool
  viewportSize : ViewportCachedState → Option Size
  hasAlpha : ℕ → Bool
  intersection : Rectangle → Rectangle → Option Rectangle
  subtractRectsMany : List Rectangle → Rectangle → List Rectangle

/-! ### Buffers -/

inductive Transform
  | normal | rotated90 | rotated180 | rotated270
  | flipped | flipped90 | flipped180 | flipped270
  deriving DecidableEq, Repr

def Transform.name : Transform → String
  | normal => "Normal"
  | rotated90 => "_90"
  | rotated180 => "_180"
  | rotated270 => "_270"
  | flipped => "Flipped"
  | flipped90 => "Flipped90"
  | flipped180 => "Flipped180"
  | flipped270 => "Flipped270"

inductive ShmFormat
  | argb8888 | xrgb8888
  | other (code : ℕ)
  deriving DecidableEq, Repr

/-- The layout a client declares for a buffer in shared memory. -/
structure BufferData where
  offset : ℤ
  width : ℤ
  height : ℤ
  stride : ℤ
  format : ShmFormat
  deriving DecidableEq

structure Dmabuf where
  handle : ℕ
  size : Size
  format : ℕ
  deriving DecidableEq

inductive BufferContents
  | dmabuf (dmabuf : Dmabuf)
  | shm (pool : List UInt8) (data : BufferData)
  | unreadable
  deriving DecidableEq

structure WlBuffer where
  id : ObjectId
  contents : BufferContents
  deriving DecidableEq

def getDmabuf (buffer : WlBuffer) : Option Dmabuf :=
  match buffer.contents with
  | .dmabuf dmabuf => some dmabuf
  | _ => none

inductive BufferAssignment
  | newBuffer (buffer : WlBuffer)
  | removed
  deriving DecidableEq

/-- The buffer a surface was given, if any. -/
def attachedBuffer : Option BufferAssignment → Option WlBuffer
  | some (.newBuffer buffer) => some buffer
  | _ => none

structure SurfaceBufferMetadata where
  width : ℕ
  height : ℕ
  scale : ℕ
  transform : Transform
  deriving DecidableEq

/-! ### Shared memory -/

structure CopiedShmBuffer where
  width : ℕ
  height : ℕ
  bgraPixels : List UInt8
  isOpaque : Bool
  deriving DecidableEq

/-- A signed number as an unsigned one. -/
def tryUnsigned (context : String) (n : ℤ) : Except String ℕ :=
  if n < 0 then .error context else .ok n.toNat

/-- A number that has to fit below a limit. -/
def tryBelow (context : String) (limit n : ℕ) : Except String ℕ :=
  if n < limit then .ok n else .error context

def usizeLimit : ℕ := 2 ^ 64

def normalizeBgraRows (source : List UInt8) (width height stride : ℕ) (format : ShmFormat) :
    Except String (List UInt8) := do
  if format ≠ .argb8888 ∧ format ≠ .xrgb8888 then
    throw "unsupported SHM format"
  let rowBytes ← tryBelow "SHM row size overflow" usizeLimit (width * 4)
  let required ← tryBelow "SHM source size overflow" usizeLimit (stride * (height - 1) + rowBytes)
  if stride < rowBytes ∨ source.length < required then
    throw "invalid SHM row layout"
  let _ ← tryBelow "SHM destination size overflow" usizeLimit (rowBytes * height)
  let pixels := (List.range height).flatMap fun row => (source.drop (row * stride)).take rowBytes
  if format = .xrgb8888 then
    return pixels.mapIdx fun i byte => if i % 4 = 3 then 255 else byte
  else
    return pixels

def copyShmContents (pool : List UInt8) (data : BufferData) : Except String CopiedShmBuffer := do
  let width ← tryUnsigned "negative SHM width" data.width
  let height ← tryUnsigned "negative SHM height" data.height
  let stride ← tryUnsigned "negative SHM stride" data.stride
  let offset ← tryUnsigned "negative SHM offset" data.offset
  if width = 0 ∨ height = 0 then
    throw "zero-sized SHM buffer"
  let rowBytes ← tryBelow "SHM row size overflow" usizeLimit (width * 4)
  if stride < rowBytes then
    throw "SHM stride is shorter than one pixel row"
  let span ← tryBelow "SHM buffer size overflow" usizeLimit (stride * (height - 1) + rowBytes)
  let last ← tryBelow "SHM pool offset overflow" usizeLimit (offset + span)
  if pool.length < last then
    throw "SHM buffer extends beyond its pool"
  let bgraPixels ← normalizeBgraRows ((pool.drop offset).take span) width height stride data.format
  let width ← tryBelow "SHM width exceeds u32" (2 ^ 32) width
  let height ← tryBelow "SHM height exceeds u32" (2 ^ 32) height
  return { width, height, bgraPixels, isOpaque := data.format = .xrgb8888 }

def copyShmBuffer (buffer : WlBuffer) : Except String CopiedShmBuffer :=
  match buffer.contents with
  | .shm pool data => copyShmContents pool data
  | _ => .error "buffer is not readable Wayland SHM"

/-! ### Views -/

def checkedBufferScale (bufferScale : ℤ) : Except String ℕ :=
  if 0 < bufferScale then .ok bufferScale.toNat
  else .error ("invalid client buffer scale " ++ toString bufferScale)

section Views

variable (smithay : Smithay)

def translateSurfaceContentView (metadata : SurfaceBufferMetadata) (logicalBufferSize : Size)
    (viewport : ViewportCachedState) : Except String SurfaceContentView := do
  if metadata.transform ≠ .normal then
    throw "only normal client buffer transforms can be translated"
  let source := viewport.src.getD
    ⟨.finite 0, .finite 0, .finite logicalBufferSize.w, .finite logicalBufferSize.h⟩
  let destination := (smithay.viewportSize viewport).getD logicalBufferSize
  let sourceRight := source.x.add64 source.w
  let sourceBottom := source.y.add64 source.h
  if !source.x.isFinite || !source.y.isFinite || !source.w.isFinite || !source.h.isFinite ||
      source.x.lt (.finite 0) || source.y.lt (.finite 0) ||
      source.w.le (.finite 0) || source.h.le (.finite 0) ||
      lt (.finite logicalBufferSize.w) sourceRight ||
      lt (.finite logicalBufferSize.h) sourceBottom ||
      destination.w ≤ 0 || destination.h ≤ 0 then
    throw "invalid client surface viewport geometry"
  let scale : FloatValue := .finite metadata.scale
  let view : SurfaceContentView :=
    { sourceX := (source.x.mul64 scale).toSingle
      sourceY := (source.y.mul64 scale).toSingle
      sourceWidth := (source.w.mul64 scale).toSingle
      sourceHeight := (source.h.mul64 scale).toSingle
      logicalWidth := .ofI32 destination.w
      logicalHeight := .ofI32 destination.h }
  let values := [view.sourceX, view.sourceY, view.sourceWidth, view.sourceHeight,
    view.logicalWidth, view.logicalHeight]
  if !values.all isFinite ||
      (ofU32 metadata.width).lt (view.sourceX.add view.sourceWidth) ||
      (ofU32 metadata.height).lt (view.sourceY.add view.sourceHeight) then
    throw "client surface viewport cannot be represented by the SHM image path"
  return view

def surfaceContentView (viewport : ViewportCachedState) (metadata : SurfaceBufferMetadata) :
    Except String SurfaceContentView := do
  if metadata.transform ≠ .normal then
    throw ("unsupported client buffer transform " ++ metadata.transform.name ++
      "; the initial SHM path supports only normal")
  let width ← tryBelow "client buffer width exceeds i32" (2 ^ 31) metadata.width
  let height ← tryBelow "client buffer height exceeds i32" (2 ^ 31) metadata.height
  let scale ← tryBelow "client buffer scale exceeds i32" (2 ^ 31) metadata.scale
  let logicalBufferSize := smithay.toLogical ⟨width, height⟩ scale
  if !smithay.ensureViewportValid viewport logicalBufferSize then
    throw "client viewport source extends outside its buffer"
  translateSurfaceContentView smithay metadata logicalBufferSize viewport

end Views

/-- The part of a root view inside the window geometry, and where it begins. -/
def cropRootView (view : SurfaceContentView) (geometry : Option Rectangle) :
    SurfaceContentView × LogicalPoint :=
  match geometry with
  | none => (view, {})
  | some geometry =>
      let zero : FloatValue := .finite 0
      let rootWidth := view.logicalWidth
      let rootHeight := view.logicalHeight
      let left := max (.finite geometry.loc.x) zero
      let top := max (.finite geometry.loc.y) zero
      let right := min (add64 (.finite geometry.loc.x) (.finite geometry.size.w)) rootWidth
      let bottom := min (add64 (.finite geometry.loc.y) (.finite geometry.size.h)) rootHeight
      if right.le left || bottom.le top then
        (view, {})
      else if left.same zero && top.same zero && right.same rootWidth &&
          bottom.same rootHeight then
        (view, {})
      else
        let sourceLeft := view.sourceX
        let sourceTop := view.sourceY
        let sourceRight := view.sourceX.add view.sourceWidth
        let sourceBottom := view.sourceY.add view.sourceHeight
        let scaleX := view.sourceWidth.div64 rootWidth
        let scaleY := view.sourceHeight.div64 rootHeight
        let croppedLeft := (sourceLeft.add64 (left.mul64 scaleX)).clamp sourceLeft sourceRight
        let croppedTop := (sourceTop.add64 (top.mul64 scaleY)).clamp sourceTop sourceBottom
        let croppedRight := (sourceLeft.add64 (right.mul64 scaleX)).clamp croppedLeft sourceRight
        let croppedBottom := (sourceTop.add64 (bottom.mul64 scaleY)).clamp croppedTop sourceBottom
        let sourceX := croppedLeft.toSingle
        let sourceY := croppedTop.toSingle
        let sourceWidth := min (croppedRight.sub64 croppedLeft).toSingle
          (max ((view.sourceX.add view.sourceWidth).sub sourceX) zero)
        let sourceHeight := min (croppedBottom.sub64 croppedTop).toSingle
          (max ((view.sourceY.add view.sourceHeight).sub sourceY) zero)
        if sourceWidth.le zero || sourceHeight.le zero then
          (view, {})
        else
          ({ sourceX, sourceY, sourceWidth, sourceHeight
             logicalWidth := (right.sub64 left).toSingle
             logicalHeight := (bottom.sub64 top).toSingle },
            ⟨left.toSingle, top.toSingle⟩)

/-! ### The release store -/

structure BufferReleaseState where
  outstanding : ℕ
  resourceAlive : Bool
  deriving DecidableEq

/-- The uses of buffers that are still outstanding, each under an identity of its own. -/
structure ReleaseTracker where
  next : Option ℕ := some 1
  byKey : Dict ObjectId BufferReleaseState := ∅
  keyById : Dict DmabufReleaseId ObjectId := ∅

def ReleaseTracker.register (tracker : ReleaseTracker) (key : ObjectId) :
    Option (DmabufReleaseId × ReleaseTracker) := do
  let outstanding ←
    match tracker.byKey.lookup key with
    | none => some 1
    | some entry => Hoist.checkedSucc entry.outstanding
  let raw ← tracker.next
  let entry : BufferReleaseState :=
    match tracker.byKey.lookup key with
    | none => { outstanding, resourceAlive := true }
    | some entry => { entry with outstanding }
  return (raw,
    { next := Hoist.checkedSucc raw
      byKey := tracker.byKey.insert key entry
      keyById := tracker.keyById.insert raw key })

structure DmabufReleaseStore where
  tracker : ReleaseTracker := {}
  buffers : Dict ObjectId WlBuffer := ∅
  releasePoints : Dict DmabufReleaseId DrmSyncPoint := ∅

def DmabufReleaseStore.register (store : DmabufReleaseStore) (buffer : WlBuffer)
    (releasePoint : Option DrmSyncPoint) : Option (DmabufReleaseId × DmabufReleaseStore) := do
  let (id, tracker) ← store.tracker.register buffer.id
  return (id,
    { tracker
      buffers := store.buffers.insertNew buffer.id buffer
      releasePoints :=
        match releasePoint with
        | none => store.releasePoints
        | some point => store.releasePoints.insert id point })

/-! ### Effects -/

/-- What the reader of a snapshot gets for a layer. -/
inductive PendingSurfaceBufferContent
  | retained
  | shmPixels (pixels : List UInt8)
  | importedDmabuf (dmabuf : Dmabuf) (release : DmabufReleaseId)
  deriving DecidableEq

structure ImportedBuffer where
  metadata : SurfaceBufferMetadata
  view : SurfaceContentView
  content : PendingSurfaceBufferContent
  isOpaque : Bool
  deriving DecidableEq

/-- What is done to the things clients wait for, and what surfaces are given. -/
inductive Effect
  | released (buffer : WlBuffer)
  | handed (buffer : WlBuffer) (release : DmabufReleaseId)
  | signaled (point : DrmSyncPoint)
  | stored (point : DrmSyncPoint) (release : DmabufReleaseId)
  | allocated (surface : ObjectId) (layer : SurfaceLayerId)
  | imported (surface : ObjectId) (buffer : WlBuffer) (result : ImportedBuffer)
  deriving DecidableEq

namespace Effect

/-- The buffer an effect gives back or hands over. -/
def buffer? : Effect → Option WlBuffer
  | released buffer => some buffer
  | handed buffer _ => some buffer
  | _ => none

/-- The point an effect signals or hands over. -/
def point? : Effect → Option DrmSyncPoint
  | signaled point => some point
  | stored point _ => some point
  | _ => none

/-- What an import gives to a surface. -/
def importOf (surface : ObjectId) : Effect → Option ImportedBuffer
  | imported id _ result => if id = surface then some result else none
  | _ => none

end Effect

/-- The store that uses are registered in, and everything that was done so far. -/
structure Releases where
  store : DmabufReleaseStore := {}
  effects : List Effect := []

namespace Releases

def record (releases : Releases) (effect : Effect) : Releases :=
  { releases with effects := releases.effects ++ [effect] }

def release (releases : Releases) (buffer : WlBuffer) : Releases :=
  releases.record (.released buffer)

def signalReleasePoint (releases : Releases) : Option DrmSyncPoint → Releases
  | none => releases
  | some point => releases.record (.signaled point)

def register (releases : Releases) (buffer : WlBuffer) (releasePoint : Option DrmSyncPoint) :
    Option (DmabufReleaseId × Releases) :=
  (releases.store.register buffer releasePoint).map fun (id, store) =>
    (id,
      { store
        effects := releases.effects ++ .handed buffer id ::
          releasePoint.toList.map fun point => .stored point id })

end Releases

/-! ### Importing a buffer -/

section Import

variable (smithay : Smithay)

/-- Measure a buffer of a surface. -/
def measureBuffer (viewport : ViewportCachedState) (width height : ℕ) (bufferScale : ℤ)
    (transform : Transform) : Except String (SurfaceBufferMetadata × SurfaceContentView) := do
  let scale ← checkedBufferScale bufferScale
  let metadata : SurfaceBufferMetadata := { width, height, scale, transform }
  let view ← surfaceContentView smithay viewport metadata
  return (metadata, view)

/-- The size of a DMA-BUF as unsigned numbers. -/
def dmabufExtent (dmabuf : Dmabuf) : Except String (ℕ × ℕ) := do
  let width ← tryUnsigned "negative DMA-BUF width" dmabuf.size.w
  let height ← tryUnsigned "negative DMA-BUF height" dmabuf.size.h
  return (width, height)

/-- Register a use of a DMA-BUF that can be shown. -/
def importDmabuf (viewport : ViewportCachedState) (buffer : WlBuffer) (dmabuf : Dmabuf)
    (bufferScale : ℤ) (transform : Transform) (releasePoint : Option DrmSyncPoint)
    (releases : Releases) : Except String (ImportedBuffer × Releases) := do
  let (width, height) ← dmabufExtent dmabuf
  let (metadata, view) ← measureBuffer smithay viewport width height bufferScale transform
  match releases.register buffer releasePoint with
  | none => throw "DMA-BUF release identity space is exhausted"
  | some (release, releases) =>
      return ({ metadata, view, content := .importedDmabuf dmabuf release
                isOpaque := !smithay.hasAlpha dmabuf.format }, releases)

def importShm (viewport : ViewportCachedState) (copied : CopiedShmBuffer) (bufferScale : ℤ)
    (transform : Transform) : Except String ImportedBuffer := do
  let (metadata, view) ←
    measureBuffer smithay viewport copied.width copied.height bufferScale transform
  return { metadata, view, content := .shmPixels copied.bgraPixels, isOpaque := copied.isOpaque }

def importBuffer (viewport : ViewportCachedState) (buffer : WlBuffer) (bufferScale : ℤ)
    (bufferTransform : Transform) (releasePoint : Option DrmSyncPoint) (shmOnly : Bool)
    (releases : Releases) : Except String ImportedBuffer × Releases :=
  match getDmabuf buffer with
  | some dmabuf =>
      if shmOnly then
        (.error "surface consumer requires SHM buffers",
          (releases.release buffer).signalReleasePoint releasePoint)
      else
        match importDmabuf smithay viewport buffer dmabuf bufferScale bufferTransform releasePoint
          releases with
        | .ok (imported, releases) => (.ok imported, releases)
        | .error error => (.error error, (releases.signalReleasePoint releasePoint).release buffer)
  | none =>
      -- Only a DMA-BUF may carry a point.
      let releases := releases.signalReleasePoint releasePoint
      match copyShmBuffer buffer with
      | .error error => (.error error, releases.release buffer)
      | .ok copied =>
          (importShm smithay viewport copied bufferScale bufferTransform, releases.release buffer)

end Import

/-- Only a new buffer takes a release point along; any other one is signalled. -/
def retainReleaseForImport (releasePoint : Option DrmSyncPoint) (newBuffer : Bool)
    (releases : Releases) : Option DrmSyncPoint × Releases :=
  if newBuffer then (releasePoint, releases) else (none, releases.signalReleasePoint releasePoint)

def releaseWithoutSampling (assignment : Option BufferAssignment)
    (releasePoint : Option DrmSyncPoint) (releases : Releases) : Releases :=
  let releases :=
    match attachedBuffer assignment with
    | some buffer => releases.release buffer
    | none => releases
  releases.signalReleasePoint releasePoint

end SurfaceTree
