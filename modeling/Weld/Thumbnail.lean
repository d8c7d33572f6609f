/-
**The preview cache.**

`session/thumbnail.rs` keeps the last picture of every window somebody asked for.  A window that
changed is dirty; a request for a dirty window asks for a capture; `take` hands out one ticket at a
time, and the picture that comes back with the ticket is kept if the ticket is still current.

The entries are an ordered map in the source.  Its order decides only between entries that are
equally old, so it appears here as the last component of what `take` and `request` minimise.

Main definitions: `Cache`, `Cache.request`, `take`, `complete`, `invalidate`, `retain`,
`RecordedCache`, `CacheCall`.
-/

import Mathlib.Data.List.MinMax
import Mathlib.Data.Prod.Lex
import Weld.ClientSurface
import Weld.Dict

namespace Thumbnail

open Client

/-! ### Requests and pictures -/

/-- Nanoseconds since some origin. -/
abbrev Instant := ℕ

def cacheEntries : ℕ := 32

def refreshInterval : ℕ := 2 * 10 ^ 9

def captureTimeout : ℕ := 5 * 10 ^ 9

/-- Numbers of tickets are 64-bit. -/
def revisionLimit : ℕ := 2 ^ 64

def maxEdge : ℕ := 320

def maxImageBytes : ℕ := 512 * 1024

/-- A window and the application that occupies it. -/
structure ThumbnailTarget where
  window : ℕ
  surface : ClientSurfaceId
  deriving DecidableEq

/-- The order of targets is that of their fields. -/
def ThumbnailTarget.key (t : ThumbnailTarget) : ℕ ×ₗ ℕ ×ₗ ℕ ×ₗ ℕ :=
  toLex (t.window, toLex (t.surface.client.source, toLex (t.surface.client.localId,
    t.surface.localId)))

abbrev ThumbnailRevision := ℕ

structure ThumbnailRequest where
  target : ThumbnailTarget
  ifRevision : Option ThumbnailRevision

structure ThumbnailImageHeader where
  width : ℕ
  height : ℕ
  pngBytes : ℕ
  deriving DecidableEq

def ThumbnailImageHeader.validate (h : ThumbnailImageHeader) : Except String Unit :=
  if h.width = 0 ∨ h.height = 0 ∨ maxEdge < h.width ∨ maxEdge < h.height then
    .error "thumbnail extent exceeds bounds"
  else if h.pngBytes = 0 ∨ maxImageBytes < h.pngBytes then
    .error "thumbnail payload exceeds bounds"
  else .ok ()

/-- A picture whose header passes its own check and tells the size of the picture. -/
structure ThumbnailImage where
  header : ThumbnailImageHeader
  png : List UInt8
  valid : header.validate = .ok ()
  complete : header.pngBytes = png.length
  deriving DecidableEq

def ThumbnailImage.new (width height : ℕ) (png : List UInt8) : Except String ThumbnailImage :=
  let header : ThumbnailImageHeader := ⟨width, height, png.length⟩
  match h : header.validate with
  | .ok () => .ok ⟨header, png, h, rfl⟩
  | .error reason => .error reason

structure ThumbnailFreshness where
  ageMs : ℕ
  stale : Bool
  deriving DecidableEq

inductive ThumbnailStatus
  | image (revision : ThumbnailRevision) (freshness : ThumbnailFreshness)
      (header : ThumbnailImageHeader)
  | unchanged (revision : ThumbnailRevision) (freshness : ThumbnailFreshness)
  | pending
  deriving DecidableEq

structure ThumbnailResponse where
  target : ThumbnailTarget
  status : ThumbnailStatus
  image : Option ThumbnailImage

/-! ### The cache -/

/-- One capture ticket. -/
structure ThumbnailCapture where
  target : ThumbnailTarget
  revision : ThumbnailRevision
  deriving DecidableEq

structure Snapshot where
  revision : ThumbnailRevision
  image : ThumbnailImage
  captured : Instant

structure Entry where
  snapshot : Option Snapshot := none
  dirty : Bool := true
  requested : Bool := false
  lastAttempt : Option Instant := none
  lastUsed : Instant

structure Cache where
  entries : Dict ThumbnailTarget Entry := ∅
  active : Option (ThumbnailCapture × Instant) := none
  next : ℕ := 0

namespace Cache

variable (c : Cache) (x : ThumbnailTarget)

/-- A ticket for the target is out. -/
def capturing : Bool :=
  c.active.any fun ticket => decide (ticket.1.target = x)

def lastUsedOf : Instant :=
  ((c.entries.lookup x).map (·.lastUsed)).getD 0

/-- The entry that makes room: the one that was not used for longest, of those without a ticket. -/
def oldest : Option ThumbnailTarget :=
  (c.entries.keys.filter fun x => !c.capturing x).argmin fun x => toLex (c.lastUsedOf x, x.key)

def evictFor : Cache :=
  if x ∉ c.entries ∧ c.entries.size = cacheEntries then
    match c.oldest with
    | some y => { c with entries := c.entries.erase y }
    | none => c
  else c

def entryOf (now : Instant) : Entry :=
  (c.entries.lookup x).getD { lastUsed := now }

/-- A request uses the entry, and asks for a capture if it needs one. -/
def use (now : Instant) (entry : Entry) : Entry :=
  { entry with
    lastUsed := now
    requested := entry.requested || (entry.dirty || entry.snapshot.isNone && !c.capturing x) }

def respond (r : ThumbnailRequest) (now : Instant) (entry : Entry) (capturing : Bool) :
    ThumbnailResponse :=
  match entry.snapshot with
  | none => ⟨r.target, .pending, none⟩
  | some snapshot =>
      let freshness : ThumbnailFreshness :=
        ⟨min ((now - snapshot.captured) / 10 ^ 6) (2 ^ 64 - 1), entry.dirty || capturing⟩
      if r.ifRevision = some snapshot.revision then
        ⟨r.target, .unchanged snapshot.revision freshness, none⟩
      else
        ⟨r.target, .image snapshot.revision freshness snapshot.image.header, some snapshot.image⟩

def request (r : ThumbnailRequest) (now : Instant) : Cache × ThumbnailResponse :=
  let c := c.evictFor r.target
  let entry := c.use r.target now (c.entryOf r.target now)
  ({ c with entries := c.entries.insert r.target entry },
    respond r now entry (c.capturing r.target))

variable (capture : ThumbnailCapture)

/-- A ticket ran out: its target is asked for again. -/
def expire : Cache :=
  { c with
    active := none
    entries := c.entries.modify capture.target fun entry =>
      { entry with dirty := true, requested := true } }

def isDue (now : Instant) (x : ThumbnailTarget) : Bool :=
  (c.entries.lookup x).any fun entry =>
    entry.requested && entry.lastAttempt.all fun last => decide (refreshInterval ≤ now - last)

def lastAttemptOf : WithBot Instant :=
  (c.entries.lookup x).bind (·.lastAttempt)

/-- The target whose last capture is longest ago, of those that are asked for. -/
def due (now : Instant) : Option ThumbnailTarget :=
  (c.entries.keys.filter (c.isDue now)).argmin fun x => toLex (c.lastAttemptOf x, x.key)

def issue (now : Instant) : Cache × Option ThumbnailCapture :=
  match c.due now with
  | none => (c, none)
  | some x =>
      if c.next + 1 < revisionLimit then
        let capture : ThumbnailCapture := ⟨x, c.next + 1⟩
        ({ next := c.next + 1
           active := some (capture, now)
           entries := c.entries.modify x fun entry =>
             { entry with requested := false, dirty := false, lastAttempt := some now } },
          some capture)
      else (c, none)

/-- The ticket that is out is waited for until it runs out. -/
def take (now : Instant) : Cache × Option ThumbnailCapture :=
  match c.active with
  | some (capture, started) =>
      if now - started < captureTimeout then (c, none) else (c.expire capture).issue now
  | none => c.issue now

/-- The ticket is the one that is out, and has not run out. -/
def isCurrent (now : Instant) : Bool :=
  c.active.any fun ticket =>
    decide (ticket.1 = capture) && decide (now - ticket.2 < captureTimeout)

/-- What a ticket makes of its entry. -/
def Entry.complete (image : Option ThumbnailImage) (now : Instant) (entry : Entry) : Entry :=
  match image with
  | some image =>
      { entry with
        snapshot := some ⟨capture.revision, image, now⟩
        requested := entry.requested && entry.dirty }
  | none => { entry with dirty := true }

def complete (image : Option ThumbnailImage) (now : Instant) : Cache × Bool :=
  if c.isCurrent capture now then
    ({ c with
        active := none
        entries := c.entries.modify capture.target (Entry.complete capture image now) },
      decide (capture.target ∈ c.entries))
  else (c, false)

def invalidate : Cache :=
  { c with entries := c.entries.modify x fun entry => { entry with dirty := true } }

def retain (visible : ThumbnailTarget → Bool) : Cache :=
  { c with
    entries := c.entries.retain fun x _ => visible x
    active := c.active.filter fun ticket => visible ticket.1.target }

end Cache

/-! ### What happened -/

inductive CacheEvent
  | taken (capture : ThumbnailCapture) (now : Instant)
  | accepted (capture : ThumbnailCapture) (image : Option ThumbnailImage) (now : Instant)
  | invalidated (target : ThumbnailTarget)
  | retained (visible : ThumbnailTarget → Bool)

inductive CacheCall
  | request (request : ThumbnailRequest) (now : Instant)
  | take (now : Instant)
  | complete (capture : ThumbnailCapture) (image : Option ThumbnailImage) (now : Instant)
  | invalidate (target : ThumbnailTarget)
  | retain (visible : ThumbnailTarget → Bool)

/-- A cache, and what happened to it so far: the tickets it handed out, the completions it accepted,
the targets that changed and the windows that stayed. -/
structure RecordedCache where
  cache : Cache := {}
  log : List CacheEvent := []

def RecordedCache.step (r : RecordedCache) : CacheCall → RecordedCache
  | .request request now => { r with cache := (r.cache.request request now).1 }
  | .take now =>
      { cache := (r.cache.take now).1
        log := r.log ++ ((r.cache.take now).2.map (.taken · now)).toList }
  | .complete capture image now =>
      { cache := (r.cache.complete capture image now).1
        log := r.log ++
          if (r.cache.complete capture image now).2 then [.accepted capture image now] else [] }
  | .invalidate x => ⟨r.cache.invalidate x, r.log ++ [.invalidated x]⟩
  | .retain visible => ⟨r.cache.retain visible, r.log ++ [.retained visible]⟩

end Thumbnail
