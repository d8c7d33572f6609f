/-
**The sizes that clients are asked for.**

A window has a geometry of its own, and the client in it is asked for what the decorations leave of
that.  A pass goes over all windows, compares what each of them wants with what it asked its client
for last, and queues a request where they differ.  Requests carry whether the user is resizing the
window; a client that is in the middle of such a resize is told when it is over.

What a window asked for last is remembered for one client.  It is forgotten when the client unmaps,
when another one takes its place, and when an external controller takes over the size of the
application.  While a fullscreen request waits to be applied the window asks for nothing.

Main definitions: `ClientResizeState`, `World.reconcileWindow`, `World.reconcileWindowSizes`,
`Visit`, `Mark`, `step`.

Main results:

* `desiredSize_ne_zero` — no window wants an empty client.
-/

import Weld.Dict
import Weld.FloatArithmetic

namespace WindowSizes

open Client

abbrev Entity := ℕ
abbrev SurfaceId := ClientSurfaceId
abbrev UVec2 := ℕ × ℕ
abbrev Vec2 := FloatValue × FloatValue

/-! ### Sizes -/

/-- The largest signed integer of 32 bits, rounded to single precision. -/
def maximumExtent : FloatValue := .finite 2147483648

def roundedExtent (a : FloatValue) : ℕ := (a.round.clamp (.finite 1) maximumExtent).toU32

/-- Round a logical client size to what a configure can carry. -/
def roundedClientSize (size : Vec2) : UVec2 := (roundedExtent size.1, roundedExtent size.2)

structure PresentationInsets where
  left : FloatValue := .finite 0
  top : FloatValue := .finite 0
  right : FloatValue := .finite 0
  bottom : FloatValue := .finite 0
  deriving DecidableEq

def PresentationInsets.extent (insets : PresentationInsets) : Vec2 :=
  (insets.left.add insets.right, insets.top.add insets.bottom)

/-- What is left of a window for its client. -/
def desiredSize (size extent : Vec2) : UVec2 :=
  roundedClientSize
    (((size.1.sub extent.1).max (.finite 1)), ((size.2.sub extent.2).max (.finite 1)))

/-! ### Actions -/

/-- The action `SurfaceAction::Resize`. -/
structure Resize where
  surface : SurfaceId
  layout : ToplevelLayout
  logicalSize : UVec2
  resizing : Bool
  fullscreen : Bool
  deriving DecidableEq

structure PendingClientResize where
  surface : SurfaceId
  afterRevision : ℕ
  deriving DecidableEq

structure TerminalClientResize where
  layout : ToplevelLayout
  surface : SurfaceId
  logicalSize : UVec2
  fullscreen : Bool
  deriving DecidableEq

/-- The action that tells a client that the resize is over. -/
def TerminalClientResize.action (terminal : TerminalClientResize) : Resize where
  surface := terminal.surface
  layout := terminal.layout
  logicalSize := terminal.logicalSize
  resizing := false
  fullscreen := terminal.fullscreen

structure ClientResizeState where
  surface : Option SurfaceId := none
  requestedSize : UVec2 := (1, 1)
  requestedResizing : Bool := false
  requestedFullscreen : Bool := false
  requestedLayout : ToplevelLayout := .floating
  pending : Option PendingClientResize := none
  deriving DecidableEq

namespace ClientResizeState

def clearClient (resize : ClientResizeState) : Option TerminalClientResize × ClientResizeState :=
  match resize.surface with
  | none => (none, resize)
  | some surface =>
      (if resize.requestedResizing then
          some ⟨resize.requestedLayout, surface, resize.requestedSize, resize.requestedFullscreen⟩
        else none,
        { resize with
          surface := none
          requestedSize := (0, 0)
          requestedResizing := false
          requestedFullscreen := false
          pending := none })

def observeCommit (resize : ClientResizeState) (surface : SurfaceId) (revision : ℕ) :
    Option TerminalClientResize × ClientResizeState :=
  if resize.surface ≠ some surface then
    let cleared := resize.clearClient
    (cleared.1, { cleared.2 with
        surface := some surface
        requestedSize := (0, 0)
        requestedResizing := false
        requestedFullscreen := false
        pending := none })
  else
    match resize.pending with
    | none => (none, resize)
    | some pending =>
        if pending.surface = surface ∧ pending.afterRevision < revision then
          (none, { resize with pending := none })
        else
          (none, resize)

def request (resize : ClientResizeState) (desired : Resize) (afterRevision : ℕ) :
    ClientResizeState :=
  { resize with
    surface := some desired.surface
    requestedSize := desired.logicalSize
    requestedResizing := desired.resizing
    requestedFullscreen := desired.fullscreen
    requestedLayout := desired.layout
    pending := some ⟨desired.surface, afterRevision⟩ }

/-- What the client of a state was asked for. -/
def requested (resize : ClientResizeState) (surface : SurfaceId) : Resize where
  surface := surface
  layout := resize.requestedLayout
  logicalSize := resize.requestedSize
  resizing := resize.requestedResizing
  fullscreen := resize.requestedFullscreen

end ClientResizeState

/-! ### Windows -/

inductive WindowInteractionKind
  | move
  | resize (edge : ℕ)
  deriving DecidableEq, Repr

/-- The components of a window that a pass reads. -/
structure Components where
  size : Vec2
  presentation : Option Entity := none
  interaction : Option WindowInteractionKind := none
  fullscreen : Bool := false
  pendingFullscreenConfigure : Bool := false
  tiled : Bool := false
  externalControl : Bool := false
  occupant : Option Entity := none

/-- Whether the user is resizing the window. -/
def Components.activeResize (components : Components) : Bool :=
  match components.interaction with
  | some (.resize _) => true
  | _ => false

/-- What a pass did with a window: the client it found there, unless it left the window alone, and
the actions it queued. -/
structure Visit where
  client : Option SurfaceId
  externalControl : Bool
  actions : List Resize
  deriving DecidableEq

structure Window where
  components : Components
  resize : ClientResizeState := {}
  /-- The passes over the window, oldest first. -/
  visits : List Visit := []

structure ClientToplevel where
  surface : SurfaceId
  mapped : Bool
  deriving DecidableEq

structure World where
  windows : Dict Entity Window := ∅
  clients : Dict Entity ClientToplevel := ∅
  /-- The insets of the presentation roots. -/
  roots : Dict Entity PresentationInsets := ∅
  revisions : SurfaceId → ℕ := fun _ => 0

namespace World

/-! ### The pass -/

/-- The surface of the mapped client that occupies a window. -/
def mappedClient (world : World) (components : Components) : Option SurfaceId :=
  components.occupant.bind fun entity =>
    (world.clients.lookup entity).bind fun client =>
      if client.mapped then some client.surface else none

def insets (world : World) (components : Components) : PresentationInsets :=
  (components.presentation.bind fun root => world.roots.lookup root).getD {}

/-- What a window wants of a client: a fullscreen one has no decorations and is not resized. -/
def desired (world : World) (components : Components) (surface : SurfaceId) : Resize where
  surface := surface
  layout := if components.tiled then .tiled else .floating
  logicalSize := desiredSize components.size
    (if components.fullscreen then (.finite 0, .finite 0) else (world.insets components).extent)
  resizing := !components.fullscreen && components.activeResize
  fullscreen := components.fullscreen

def reconcileWindow (world : World) (components : Components) (resize : ClientResizeState) :
    ClientResizeState × List Resize :=
  if components.externalControl then
    (resize.clearClient.2, [])
  else
    match world.mappedClient components with
    | none =>
        let cleared := resize.clearClient
        (cleared.2, cleared.1.toList.map TerminalClientResize.action)
    | some surface =>
        let revision := world.revisions surface
        let observed := resize.observeCommit surface revision
        let told := observed.1.toList.map TerminalClientResize.action
        if components.pendingFullscreenConfigure then
          (observed.2, told)
        else
          let desired := world.desired components surface
          if desired.logicalSize = observed.2.requestedSize ∧
              desired.resizing = observed.2.requestedResizing ∧
              desired.fullscreen = observed.2.requestedFullscreen ∧
              desired.layout = observed.2.requestedLayout then
            (observed.2, told)
          else
            (observed.2.request desired revision, told ++ [desired])

/-- One window of a pass. -/
def visit (world : World) (window : Window) : Window :=
  let reconciled := world.reconcileWindow window.components window.resize
  { window with
    resize := reconciled.1
    visits := window.visits ++
      [{ client :=
          if window.components.externalControl then none else world.mappedClient window.components
         externalControl := window.components.externalControl
         actions := reconciled.2 }] }

/-- The pass over all windows; a window is not in the way of another. -/
def reconcileWindowSizes (world : World) (o : IterationOrder Entity) : World :=
  (o.arrange 0 world.windows.keys).foldl
    (fun world id => { world with windows := world.windows.modify id world.visit }) world

end World

/-! ### Runs -/

/-- Between passes the components of windows change, clients map and unmap and commit, and the
presentation roots come, change and go. -/
inductive Event
  | admitWindow (window : Entity) (components : Components)
  | change (window : Entity) (components : Components)
  | setClient (entity : Entity) (client : ClientToplevel)
  | removeClient (entity : Entity)
  | setInsets (root : Entity) (insets : PresentationInsets)
  | removeRoot (root : Entity)
  | commit (surface : SurfaceId)
  | reconcileWindowSizes (order : IterationOrder Entity)

def step (world : World) : Event → World
  | .admitWindow window components =>
      { world with windows := world.windows.insertNew window { components } }
  | .change window components =>
      { world with windows := world.windows.modify window fun found => { found with components } }
  | .setClient entity client => { world with clients := world.clients.insert entity client }
  | .removeClient entity => { world with clients := world.clients.erase entity }
  | .setInsets root insets => { world with roots := world.roots.insert root insets }
  | .removeRoot root => { world with roots := world.roots.erase root }
  | .commit surface =>
      { world with
        revisions := Function.update world.revisions surface (world.revisions surface + 1) }
  | .reconcileWindowSizes order => world.reconcileWindowSizes order

/-! ### What a surface sees -/

/-- What happened to a surface at a window: it was told something, or a pass over the window did not
find it there. -/
inductive Mark
  | told (action : Resize)
  | gap (externalControl : Bool)
  deriving DecidableEq

def Mark.isGap : Mark → Bool
  | .told _ => false
  | .gap _ => true

def Mark.action? : Mark → Option Resize
  | .told action => some action
  | .gap _ => none

/-- What came after the last action, the latest first. -/
def sinceTold (marks : List Mark) : List Mark := marks.reverse.takeWhile Mark.isGap

/-- The last action. -/
def lastTold (marks : List Mark) : Option Resize := (marks.filterMap Mark.action?).getLast?

/-- What one pass did to a surface. -/
def Visit.marks (visit : Visit) (surface : SurfaceId) : List Mark :=
  (visit.actions.filter fun action => action.surface = surface).map Mark.told ++
    if visit.client = some surface then [] else [.gap visit.externalControl]

/-- What the passes over a window did to a surface. -/
def marksOf (visits : List Visit) (surface : SurfaceId) : List Mark :=
  visits.flatMap fun visit => visit.marks surface

/-- The actions that the passes over a window queued for a surface. -/
def resizesOf (visits : List Visit) (surface : SurfaceId) : List Resize :=
  visits.flatMap fun visit => visit.actions.filter fun action => action.surface = surface

/-- Since the surface was told something at the window, a pass has found the window under external
control. -/
def externalSince (visits : List Visit) (surface : SurfaceId) : Bool :=
  (sinceTold (marksOf visits surface)).contains (.gap true)

/-! ### No empty client -/

theorem toU32_clamp_pos {a : FloatValue} (h : a ≠ .nan) :
    1 ≤ (a.clamp (.finite 1) maximumExtent).toU32 := by
  have hbound : ∀ q : ℚ, 1 ≤ q → 1 ≤ (FloatValue.finite q).toU32 := by
    intro q hq
    have hfloor : (1 : ℤ) ≤ ⌊q⌋ := Int.le_floor.mpr (by exact_mod_cast hq)
    simp only [FloatValue.toU32]
    omega
  cases a with
  | nan => exact absurd rfl h
  | infinite negative =>
      cases negative with
      | true => exact hbound 1 (le_refl 1)
      | false => exact hbound 2147483648 (by norm_num)
  | finite q =>
      simp only [FloatValue.clamp, FloatValue.lt, maximumExtent, decide_eq_true_eq]
      by_cases hlow : q < 1
      · rw [if_pos hlow, if_neg (by norm_num)]
        exact hbound 1 (le_refl 1)
      · rw [if_neg hlow]
        simp only [decide_eq_true_eq]
        split
        · exact hbound _ (by norm_num)
        · exact hbound q (not_lt.mp hlow)

/-- What is not a number counts as one. -/
theorem one_le_roundedExtent (a : FloatValue) : 1 ≤ roundedExtent (a.max (.finite 1)) := by
  refine toU32_clamp_pos ?_
  cases a with
  | nan => exact FloatValue.noConfusion
  | infinite negative =>
      cases negative with
      | true | false => exact FloatValue.noConfusion
  | finite q =>
      simp only [FloatValue.max]
      split <;> exact FloatValue.noConfusion

theorem desiredSize_ne_zero (size extent : Vec2) : desiredSize size extent ≠ (0, 0) := by
  intro hzero
  have hwidth := one_le_roundedExtent (size.1.sub extent.1)
  have hfirst : roundedExtent ((size.1.sub extent.1).max (.finite 1)) = 0 := congrArg Prod.fst hzero
  omega

end WindowSizes
