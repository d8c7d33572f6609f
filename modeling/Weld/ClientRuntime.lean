/-
**Local input.**

`ClientRuntime` of `weld-client` hands the input of the host to the adapters of the surfaces it is
meant for.  A key, a button, a gesture, a scroll and a touch contact each keep the route that was
resolved when they began, whatever happens meanwhile to focus, to routes and to the aliases of surfaces.

Main definitions: `ClientRuntime`, `ClientRuntime.dispatchUnconsumedInput`,
`ClientRuntime.retireLocalInput`, `ClientRuntime.drainEvents`, `RuntimeCall`, `ClientRuntime.step`.
-/

import Mathlib.Data.Finset.Sort
import Weld.BoundedWalk
import Weld.ClientInput
import Weld.Dict
import Weld.FloatArithmetic

namespace Client

/-! ### Routes -/

/-- An affine map from the host's coordinates to those of a layer, in double precision. -/
structure InputTransform where
  xx : FloatValue := .finite 1
  xy : FloatValue := .finite 0
  yx : FloatValue := .finite 0
  yy : FloatValue := .finite 1
  x : FloatValue := .finite 0
  y : FloatValue := .finite 0
  deriving DecidableEq

def InputTransform.transform (t : InputTransform) (position : InputPosition) : InputPosition :=
  ⟨((t.xx.mul64 position.x).add64 (t.xy.mul64 position.y)).add64 t.x,
    ((t.yx.mul64 position.x).add64 (t.yy.mul64 position.y)).add64 t.y⟩

def InputTransform.same (a b : InputTransform) : Bool :=
  a.xx.same b.xx && a.xy.same b.xy && a.yx.same b.yx && a.yy.same b.yy && a.x.same b.x && a.y.same b.y

structure ClientPointerRoute where
  surface : ClientSurfaceId
  layer : SurfaceLayerId
  transform : InputTransform := {}
  deriving DecidableEq

/-- Equality as floating-point comparison sees it. -/
def ClientPointerRoute.same (a b : ClientPointerRoute) : Bool :=
  a.surface == b.surface && a.layer == b.layer && a.transform.same b.transform

structure ClientKeyboardRoute where
  surface : ClientSurfaceId
  deriving DecidableEq

structure ClientPointerRouteUpdate where
  route : Option ClientPointerRoute
  position : InputPosition
  time : ℕ

structure ClientRouteAliasUpdate where
  destination : ClientSurfaceId
  source : Option ClientSurfaceId

structure ClientInputRetirement where
  surface : ClientSurfaceId
  time : ℕ

inductive ClientInputDispatchResult
  | delivered | noRoute | unknownAdapter | aliasCycle | unsupportedButton
  deriving DecidableEq, Repr

/-! ### Captures -/

inductive PointerCapture
  | idle
  | active (route : Option ClientPointerRoute)
  deriving DecidableEq

structure GestureCapture where
  kind : PointerGestureKind
  route : Option ClientPointerRoute
  deriving DecidableEq

structure FingerScrollCapture where
  route : Option ClientPointerRoute
  horizontalActive : Bool
  verticalActive : Bool
  deriving DecidableEq

def FingerScrollCapture.observe (c : FingerScrollCapture) (axis : RawScrollFrame) :
    FingerScrollCapture :=
  { c with
    horizontalActive := (c.horizontalActive || axis.horizontal.nonzero) && !axis.horizontalStop
    verticalActive := (c.verticalActive || axis.vertical.nonzero) && !axis.verticalStop }

def FingerScrollCapture.new (route : Option ClientPointerRoute) (axis : RawScrollFrame) :
    FingerScrollCapture :=
  (⟨route, false, false⟩ : FingerScrollCapture).observe axis

structure KeyboardCapture where
  route : ClientKeyboardRoute
  repeatAllowed : Bool
  deriving DecidableEq

structure TouchRouting where
  contacts : List (TouchId × ClientPointerRoute) := []
  pending : List ClientPointerRoute := []
  time : ℕ := 0
  deriving DecidableEq

def buttonWords : ℕ := 12

/-- The buttons that a bit set of twelve words has room for. -/
def PressedButtons.supports (button : LinuxButtonCode) : Bool := decide (button / 64 < buttonWords)

inductive RuntimeInputEventKind
  | input (event : InputEventKind)
  | hostFocusLost

/-! ### The runtime -/

/-- What is handed to an adapter: input, with the pointer route it takes, and calls; and, for whoever
reads the record later, that a surface is forgotten with the aliases that lead to it, and that the
keyboard focus changes. -/
inductive RuntimeRecord
  | input (route : Option ClientPointerRoute) (event : ClientInputEvent)
  | request (source : ClientSourceId) (request : ClientRequest)
  | retired (surface : ClientSurfaceId) (time : ℕ)
  | hostFocusLost (time : ℕ)
  | forgotten (surface : ClientSurfaceId) (aliases : List ClientSurfaceId)
  | refocused
  deriving DecidableEq

structure ClientRuntime where
  touch : TouchRouting := {}
  adapters : List ClientSourceId := []
  aliases : Dict ClientSurfaceId ClientSurfaceId := ∅
  retiredAliases : List ClientSurfaceId := []
  pointerRoute : Option ClientPointerRoute := none
  pendingPointerRoute : Option (Option ClientPointerRoute) := none
  keyboardRoute : Option ClientKeyboardRoute := none
  keyboardCaptures : Dict LinuxKeycode KeyboardCapture := ∅
  retiredLocalKeys : List LinuxKeycode := []
  retiredLocalButtons : List LinuxButtonCode := []
  pointerCapture : PointerCapture := .idle
  gestureCapture : Option GestureCapture := none
  fingerScrollCapture : Option FingerScrollCapture := none
  pressedButtons : Finset LinuxButtonCode := ∅
  pointerPosition : Option InputPosition := none
  log : List RuntimeRecord := []

namespace ClientRuntime

variable (s : ClientRuntime)

def record (r : RuntimeRecord) : ClientRuntime := { s with log := s.log ++ [r] }

/-! ### Aliases -/

variable (surface : ClientSurfaceId)

/-- Follow aliases to the surface they stand for. -/
def resolveAlias : Except ClientInputDispatchResult ClientSurfaceId :=
  if surface ∈ s.retiredAliases then .error .noRoute
  else
    match BoundedWalk.walk (fun current => (s.aliases.lookup current).isNone) s.aliases.lookup
        (s.aliases.size + 1) surface with
    | some target => .ok target
    | none => .error .aliasCycle

variable (route : Option ClientPointerRoute)

def resolvedPointerRoute : Except ClientInputDispatchResult (Option ClientPointerRoute) :=
  match route with
  | none => .ok none
  | some route => (s.resolveAlias route.surface).map fun surface => some { route with surface := surface }

def resolvedKeyboardRoute (route : Option ClientKeyboardRoute) :
    Except ClientInputDispatchResult (Option ClientKeyboardRoute) :=
  match route with
  | none => .ok none
  | some route => (s.resolveAlias route.surface).map fun surface => some ⟨surface⟩

def capturedOrCurrentPointerRoute : Except ClientInputDispatchResult (Option ClientPointerRoute) :=
  match s.pointerCapture with
  | .idle => s.resolvedPointerRoute s.pointerRoute
  | .active route => .ok route

def surfaceResolvesTo (candidate surface : ClientSurfaceId) : Bool :=
  candidate == surface || (s.resolveAlias candidate).toOption == some surface

def routeResolvesTo (surface : ClientSurfaceId) : Bool :=
  route.any fun route => s.surfaceResolvesTo route.surface surface

/-- The aliases that lead to a surface. -/
def aliasesOf : List ClientSurfaceId :=
  s.aliases.keys.filter fun candidate => s.surfaceResolvesTo candidate surface

/-! ### Handing out input -/

/-- Hand an event to the adapter of its surface. -/
def dispatchTo (event : ClientInputEvent) : ClientRuntime × ClientInputDispatchResult :=
  if event.target.surface.source ∈ s.adapters then (s.record (.input route event), .delivered)
  else (s, .unknownAdapter)

/-- An event in the coordinates of a layer. -/
def localEvent (at_ : Option InputPosition) : InputEventKind → InputEventKind
  | .pointerMotion position relative => .pointerMotion (at_.getD position) relative
  | .pointerLeft position => .pointerLeft (at_.getD position)
  | .pointerButton _ button state => .pointerButton at_ button state
  | .pointerAxis _ axis => .pointerAxis at_ axis
  | event => event

def dispatchPointerTo (event : InputEventKind)
    (position : Option InputPosition) (time : ℕ) : ClientRuntime × ClientInputDispatchResult :=
  match route with
  | none => (s, .noRoute)
  | some route =>
      s.dispatchTo (some route)
        { target := .pointer route.surface route.layer
          hostPosition := position
          event := localEvent (position.map route.transform.transform) event
          time := time }

def dispatchPointer (event : InputEventKind) (position : Option InputPosition)
    (time : ℕ) : ClientRuntime × ClientInputDispatchResult :=
  match s.capturedOrCurrentPointerRoute with
  | .ok route => s.dispatchPointerTo route event position time
  | .error error => (s, error)

def dispatchKeyboardTo (route : ClientKeyboardRoute) (event : InputEventKind)
    (time : ℕ) : ClientRuntime × ClientInputDispatchResult :=
  s.dispatchTo none { target := .keyboard route.surface, event := event, time := time }

/-! ### Touch -/

def sendTouch (route : ClientPointerRoute) (event : TouchEvent) (time : ℕ) :
    ClientRuntime × ClientInputDispatchResult :=
  s.dispatchTo (some route)
    { target := .touch route.surface route.layer, event := .touch event, time := time }

variable (routes : List ClientPointerRoute)

/-- Send to each route in turn; the result is that of the last one. -/
def sendTouchAll (event : TouchEvent) (time : ℕ) : ClientRuntime × ClientInputDispatchResult :=
  routes.foldl (fun sent route => sent.1.sendTouch route event time) (s, .noRoute)

def containsRoute (route : ClientPointerRoute) : Bool :=
  routes.any fun current => current.same route

def pushNew (route : ClientPointerRoute) : List ClientPointerRoute :=
  if containsRoute routes route then routes else routes ++ [route]

def withContacts (contacts : List (TouchId × ClientPointerRoute))
    (pending : List ClientPointerRoute) : ClientRuntime :=
  { s with touch := { s.touch with contacts := contacts, pending := pending } }

def cancelSurfaceTouch : ClientRuntime :=
  let routes := (s.touch.contacts.map Prod.snd ++ s.touch.pending).foldl
    (fun routes route => if route.surface = surface then pushNew routes route else routes) []
  let s := s.withContacts (s.touch.contacts.filter fun contact => decide (contact.2.surface ≠ surface))
    (s.touch.pending.filter fun route => decide (route.surface ≠ surface))
  (s.sendTouchAll routes .cancel s.touch.time).1

/-- The event in the coordinates of the route. -/
def localTouch (route : ClientPointerRoute) : TouchEvent → TouchEvent
  | .down id position => .down id (route.transform.transform position)
  | .motion id position => .motion id (route.transform.transform position)
  | event => event

/-- A contact event once its route is known. -/
def dispatchContact (id : TouchId) (route : ClientPointerRoute)
    (event : TouchEvent) (time : ℕ) : ClientRuntime × ClientInputDispatchResult :=
  let s := s.withContacts s.touch.contacts (pushNew s.touch.pending route)
  if (localTouch route event).isValid then
    match s.sendTouch route (localTouch route event) time with
    | (s, .delivered) => (s, .delivered)
    | (s, result) =>
        (s.withContacts (s.touch.contacts.filter fun contact => decide (contact.1 ≠ id))
          (s.touch.pending.filter fun current => !current.same route), result)
  else (s.cancelSurfaceTouch route.surface, .noRoute)

/-- Only a first contact takes the route that is given; later events keep that of their contact. -/
def dispatchTouch (event : TouchEvent) (time : ℕ) : ClientRuntime × ClientInputDispatchResult :=
  if event.isValid then
    let s := { s with touch := { s.touch with time := time } }
    let contacts := s.touch.contacts
    let pending := s.touch.pending
    match event with
    | .frame => (s.withContacts contacts []).sendTouchAll pending .frame time
    | .cancel =>
        (s.withContacts [] []).sendTouchAll ((contacts.map Prod.snd).foldl pushNew pending) .cancel time
    | .down id _ =>
        if (contacts.lookup id).isSome || decide (maxTouchContacts ≤ contacts.length) then (s, .noRoute)
        else
          match s.resolvedPointerRoute route with
          | .ok (some route) =>
              if decide (maxTouchContacts ≤ pending.length) && !containsRoute pending route then
                (s, .noRoute)
              else
                (s.withContacts (contacts ++ [(id, route)]) pending).dispatchContact id route event time
          | .ok none | .error _ => (s, .noRoute)
    | .motion id _ =>
        match contacts.lookup id with
        | none => (s, .noRoute)
        | some route => s.dispatchContact id route event time
    | .up id =>
        match contacts.lookup id with
        | none => (s, .noRoute)
        | some route =>
            (s.withContacts (contacts.eraseP fun contact => contact.1 == id) pending).dispatchContact id
              route event time
  else (s, .noRoute)

/-! ### Focus, routes and aliases -/

/-- Keys that are held stop repeating once the focus changes. -/
def invalidateKeyboardRepeats : ClientRuntime :=
  { s with
    keyboardCaptures := s.keyboardCaptures.mapValues fun _ capture =>
      { capture with repeatAllowed := false }
    log := s.log ++ [.refocused] }

def setKeyboardRoute (route : Option ClientKeyboardRoute) : ClientRuntime :=
  let s' := if s.keyboardRoute ≠ route then s.invalidateKeyboardRepeats else s
  { s' with keyboardRoute := route }

/-- Another set of aliases; held keys stop repeating if the focus leads elsewhere now. -/
def withAliases (aliases : Dict ClientSurfaceId ClientSurfaceId)
    (retired : List ClientSurfaceId) : ClientRuntime :=
  let previous := s.resolvedKeyboardRoute s.keyboardRoute
  let s := { s with aliases := aliases, retiredAliases := retired }
  if previous ≠ s.resolvedKeyboardRoute s.keyboardRoute then s.invalidateKeyboardRepeats else s

def setRouteAlias (destination source : ClientSurfaceId) : ClientRuntime :=
  if destination ≠ source then
    s.withAliases (s.aliases.insert destination source)
      (s.retiredAliases.filter fun retired => decide (retired ≠ destination))
  else s

def removeRouteAlias (destination : ClientSurfaceId) : ClientRuntime :=
  if (s.aliases.lookup destination).isSome then
    s.withAliases (s.aliases.erase destination) (destination :: s.retiredAliases)
  else s

def setPointerRoute : ClientRuntime :=
  match s.pointerCapture with
  | .active _ => { s with pendingPointerRoute := some route }
  | .idle => { s with pointerRoute := route }

/-! ### Requests -/

/-- The request as it reaches the surface that an alias stands for. -/
def resolveRequest : ClientRequest → Option ClientRequest
  | .surface request =>
      match request.kind with
      | .setPresentation _ =>
          if request.surface ∈ s.retiredAliases then none else some (.surface request)
      | _ => (s.resolveAlias request.surface).toOption.map fun surface =>
          .surface { request with surface := surface }
  | .focus request =>
      match request.surface with
      | none => some (.focus request)
      | some surface =>
          if surface.source ≠ request.source then none
          else (s.resolveAlias surface).toOption.map fun surface =>
            .focus ⟨surface.source, some surface⟩
  | .clearFocus => some .clearFocus

def applyFocus (focus : ClientFocusRequest) : ClientRuntime × Bool :=
  if focus.source ∈ s.adapters then
    let s := match s.keyboardRoute with
      | some previous =>
          if previous.surface.source ≠ focus.source ∧ previous.surface.source ∈ s.adapters then
            s.record (.request previous.surface.source (.focus ⟨previous.surface.source, none⟩))
          else s
      | none => s
    let s := s.record (.request focus.source (.focus focus))
    if focus.surface.isSome ∨ s.keyboardRoute.any fun route => route.surface.source == focus.source then
      (s.setKeyboardRoute (focus.surface.map ClientKeyboardRoute.mk), true)
    else (s, true)
  else (s, false)

def clearFocus : ClientRuntime × Bool :=
  match s.keyboardRoute with
  | none => (s, true)
  | some route =>
      if route.surface.source ∈ s.adapters then
        ((s.setKeyboardRoute none).record
          (.request route.surface.source (.focus ⟨route.surface.source, none⟩)), true)
      else (s, false)

def applyRequest (request : ClientRequest) : ClientRuntime × Bool :=
  match request with
  | .clearFocus => s.clearFocus
  | request =>
      match s.resolveRequest request with
      | none | some .clearFocus => (s, false)
      | some (.focus focus) => s.applyFocus focus
      | some (.surface request) =>
          if request.surface.source ∈ s.adapters then
            (s.record (.request request.surface.source (.surface request)), true)
          else (s, false)

/-! ### Pointers -/

/-- The first press takes the route that holds until the last release. -/
def startCapture (state : ButtonState) : Except ClientInputDispatchResult ClientRuntime :=
  if state = .pressed ∧ s.pressedButtons = ∅ then
    (s.resolvedPointerRoute s.pointerRoute).map fun route => { s with pointerCapture := .active route }
  else .ok s

/-- Count a button, and let go of the route with the last one. -/
def endButton (button : LinuxButtonCode) (state : ButtonState) : ClientRuntime :=
  let s := { s with
    pressedButtons := match state with
      | .pressed => insert button s.pressedButtons
      | .released => s.pressedButtons.erase button }
  if s.pressedButtons = ∅ ∧ s.pointerCapture ≠ .idle then
    { s with
      pointerCapture := .idle
      pointerRoute := s.pendingPointerRoute.getD s.pointerRoute
      pendingPointerRoute := none }
  else s

variable (position : Option InputPosition)

def dispatchButton (button : LinuxButtonCode)
    (state : ButtonState) (time : ℕ) : ClientRuntime × ClientInputDispatchResult :=
  if PressedButtons.supports button then
    match s.startCapture state with
    | .error error => (s, error)
    | .ok s =>
        match s.capturedOrCurrentPointerRoute with
        | .error error => (s, error)
        | .ok route =>
            match s.dispatchPointerTo route (.pointerButton position button state) position time with
            | (s, result) => (s.endButton button state, result)
  else (s, .unsupportedButton)

def dispatchLeft (position : InputPosition) (time : ℕ) :
    ClientRuntime × ClientInputDispatchResult :=
  match s.dispatchPointer (.pointerLeft position) (some position) time with
  | (s, result) =>
      match s.pointerCapture with
      | .active _ => ({ s with pendingPointerRoute := some none }, result)
      | .idle => ({ s with pointerRoute := none }, result)

/-- Cancel a scroll that is still going on. -/
def endFingerScroll (time : ℕ) : ClientRuntime :=
  match s.fingerScrollCapture with
  | none => s
  | some capture =>
      let s := { s with fingerScrollCapture := none }
      if capture.horizontalActive || capture.verticalActive then
        (s.dispatchPointerTo capture.route (.pointerAxis position
          (.cancelledFinger capture.horizontalActive capture.verticalActive)) position time).1
      else s

def dispatchAxis (axis : RawScrollFrame) (time : ℕ) : ClientRuntime × ClientInputDispatchResult :=
  if axis.source ≠ .finger then s.dispatchPointer (.pointerAxis position axis) position time
  else
    match axis.phase with
    | .started =>
        let s := s.endFingerScroll position time
        match s.capturedOrCurrentPointerRoute with
        | .error error => (s, error)
        | .ok route =>
            { s with fingerScrollCapture := some (.new route axis) }.dispatchPointerTo route
              (.pointerAxis position axis) position time
    | .moved =>
        match s.fingerScrollCapture with
        | none => (s, .noRoute)
        | some capture =>
            { s with fingerScrollCapture := some (capture.observe axis) }.dispatchPointerTo
              capture.route (.pointerAxis position axis) position time
    | .ended | .cancelled =>
        match s.fingerScrollCapture with
        | none => (s, .noRoute)
        | some capture =>
            { s with fingerScrollCapture := none }.dispatchPointerTo capture.route
              (.pointerAxis position axis) position time

/-- Cancel a gesture that is still going on. -/
def endGesture (time : ℕ) : ClientRuntime :=
  match s.gestureCapture with
  | none => s
  | some capture =>
      ({ s with gestureCapture := none }.dispatchPointerTo capture.route
        (.pointerGesture capture.kind.cancelled) none time).1

def dispatchGesture (gesture : PointerGesture) (time : ℕ) :
    ClientRuntime × ClientInputDispatchResult :=
  if gesture.isBegin then
    let s := s.endGesture time
    match s.capturedOrCurrentPointerRoute with
    | .error error => (s, error)
    | .ok route =>
        { s with gestureCapture := some ⟨gesture.kind, route⟩ }.dispatchPointerTo route
          (.pointerGesture gesture) none time
  else
    match s.gestureCapture with
    | none => (s, .noRoute)
    | some capture =>
        match s.dispatchPointerTo capture.route (.pointerGesture gesture) none time with
        | (s, result) => (if gesture.isEnd then { s with gestureCapture := none } else s, result)

/-! ### Keys -/

/-- Hand a key to the surface that has the focus. -/
def dispatchFocused (event : InputEventKind) (time : ℕ) :
    Option ClientKeyboardRoute × ClientRuntime × ClientInputDispatchResult :=
  match s.resolvedKeyboardRoute s.keyboardRoute with
  | .ok (some route) => (some route, s.dispatchKeyboardTo route event time)
  | .ok none => (none, s, .noRoute)
  | .error error => (none, s, error)

/-- Release a key that is still held. -/
def releaseKey (keycode : LinuxKeycode) (time : ℕ) : ClientRuntime :=
  match s.keyboardCaptures.lookup keycode with
  | none => s
  | some previous =>
      ({ s with keyboardCaptures := s.keyboardCaptures.erase keycode }.dispatchKeyboardTo
        previous.route (.keyboard keycode .released) time).1

def dispatchKey (keycode : LinuxKeycode) (state : KeyboardKeyState) (time : ℕ) :
    ClientRuntime × ClientInputDispatchResult :=
  match state with
  | .repeated =>
      match s.keyboardCaptures.lookup keycode with
      | none => (s, .noRoute)
      | some capture =>
          if !capture.repeatAllowed ∨
              s.resolvedKeyboardRoute s.keyboardRoute ≠ .ok (some capture.route) then (s, .noRoute)
          else s.dispatchKeyboardTo capture.route (.keyboard keycode .repeated) time
  | .pressed =>
      let s := s.releaseKey keycode time
      match s.dispatchFocused (.keyboard keycode .pressed) time with
      | (some route, s, .delivered) =>
          ({ s with keyboardCaptures := s.keyboardCaptures.insert keycode ⟨route, true⟩ }, .delivered)
      | (_, s, result) => (s, result)
  | .released =>
      match s.keyboardCaptures.lookup keycode with
      | some capture =>
          { s with keyboardCaptures := s.keyboardCaptures.erase keycode }.dispatchKeyboardTo
            capture.route (.keyboard keycode .released) time
      | none => (s.dispatchFocused (.keyboard keycode .released) time).2

/-! ### Events of the host -/

/-- The release of a key or button whose surface was retired is not handed out, nor are its repeats; a
fresh press is. -/
def consumeRetiredLocalEdge : RuntimeInputEventKind → ClientRuntime × Bool
  | .input (.keyboard keycode state) =>
      if keycode ∈ s.retiredLocalKeys then
        (if state = .repeated then s
          else { s with
            retiredLocalKeys := s.retiredLocalKeys.filter fun key => decide (key ≠ keycode) },
          decide (state ≠ .pressed))
      else (s, false)
  | .input (.pointerButton _ button state) =>
      if button ∈ s.retiredLocalButtons then
        ({ s with
          retiredLocalButtons := s.retiredLocalButtons.filter fun other => decide (other ≠ button) },
          decide (state = .released))
      else (s, false)
  | _ => (s, false)

def hostFocusLost (time : ℕ) : ClientRuntime × ClientInputDispatchResult :=
  let s := (s.dispatchTouch none .cancel time).1.record (.hostFocusLost time)
  ({ s with
    pointerRoute := none
    pendingPointerRoute := none
    keyboardRoute := none
    pointerCapture := .idle
    keyboardCaptures := ∅
    retiredLocalKeys := []
    retiredLocalButtons := []
    gestureCapture := none
    fingerScrollCapture := none
    pressedButtons := ∅
    pointerPosition := none }, if s.adapters = [] then .noRoute else .delivered)

/-- The position an event brings replaces the one that is known. -/
def atPosition : ClientRuntime :=
  { s with pointerPosition := position.or s.pointerPosition }

def dispatchInput (event : InputEventKind) (time : ℕ) : ClientRuntime × ClientInputDispatchResult :=
  match event with
  | .touch event => s.dispatchTouch s.pointerRoute event time
  | .pointerMotion position relative =>
      (s.atPosition (some position)).dispatchPointer (.pointerMotion position relative) (some position)
        time
  | .pointerLeft position => (s.atPosition (some position)).dispatchLeft position time
  | .pointerButton position button state =>
      let s := s.atPosition position
      s.dispatchButton s.pointerPosition button state time
  | .pointerAxis position axis =>
      let s := s.atPosition position
      s.dispatchAxis s.pointerPosition axis time
  | .pointerGesture gesture => s.dispatchGesture gesture time
  | .keyboard keycode state => s.dispatchKey keycode state time
  | .text text => (s.dispatchFocused (.text text) time).2

def dispatchUnconsumedInput (event : RuntimeInputEventKind) (time : ℕ) :
    ClientRuntime × ClientInputDispatchResult :=
  match s.consumeRetiredLocalEdge event with
  | (s, true) => (s, .noRoute)
  | (s, false) =>
      match event with
      | .input event => s.dispatchInput event time
      | .hostFocusLost => s.hostFocusLost time

/-- Publish a route and settle focus: the surface of another adapter is left, unless a button is
held. -/
def publishPointerRoute (update : ClientPointerRouteUpdate) :
    ClientRuntime × ClientInputDispatchResult :=
  match update.route with
  | none => s.dispatchUnconsumedInput (.input (.pointerLeft update.position)) update.time
  | some route =>
      match s.capturedOrCurrentPointerRoute, s.resolvedPointerRoute (some route) with
      | .error error, _ => (s, error)
      | .ok _, .error error => (s, error)
      | .ok previous, .ok next =>
          let leaves := s.pointerCapture = .idle ∧ previous.any fun previous => next.any fun next =>
            previous.surface.source != next.surface.source
          let s := if leaves then
              (s.dispatchPointerTo previous (.pointerLeft update.position) (some update.position)
                update.time).1
            else s
          (s.setPointerRoute (some route)).dispatchUnconsumedInput
            (.input (.pointerMotion update.position none)) update.time

/-! ### Surfaces that go away -/

/-- The keys held by surfaces that lead to this one. -/
def heldKeys (keys : List LinuxKeycode) : List LinuxKeycode :=
  keys.filter fun key => (s.keyboardCaptures.lookup key).any fun capture =>
    s.surfaceResolvesTo capture.route.surface surface

/-- Release the keys of a surface, in the order in which the captures are found. -/
def retireKeys (order : IterationOrder LinuxKeycode) (call : ℕ)
    (surface : ClientSurfaceId) (time : ℕ) : ClientRuntime :=
  (s.heldKeys surface (order.arrange call s.keyboardCaptures.keys)).foldl (fun s key =>
      ({ s with
        keyboardCaptures := s.keyboardCaptures.erase key
        retiredLocalKeys := key :: s.retiredLocalKeys }.dispatchKeyboardTo ⟨surface⟩
          (.keyboard key .released) time).1) s

def retireGesture (time : ℕ) : ClientRuntime :=
  if s.gestureCapture.any fun capture => s.routeResolvesTo capture.route surface then s.endGesture time
  else s

def retireFingerScroll (time : ℕ) : ClientRuntime :=
  match s.fingerScrollCapture with
  | none => s
  | some capture =>
      if s.routeResolvesTo capture.route surface then
        ({ s with fingerScrollCapture := none }.dispatchPointerTo capture.route
          (.pointerAxis s.pointerPosition
            (.cancelledFinger capture.horizontalActive capture.verticalActive)) s.pointerPosition
            time).1
      else s

def retireButtons (time : ℕ) : ClientRuntime :=
  let pointer := s.capturedOrCurrentPointerRoute.toOption.join
  if s.routeResolvesTo pointer surface then
    let s := (s.pressedButtons.sort (· ≤ ·)).foldl (fun s button =>
        ({ s with retiredLocalButtons := button :: s.retiredLocalButtons }.dispatchPointerTo pointer
          (.pointerButton s.pointerPosition button .released) s.pointerPosition time).1) s
    ({ s with pressedButtons := ∅, pointerCapture := .idle }.dispatchPointerTo pointer
      (.pointerLeft (s.pointerPosition.getD {})) s.pointerPosition time).1
  else s

/-- No route leads to the surface any more. -/
def retireRoutes : ClientRuntime :=
  let s := if s.routeResolvesTo s.pointerRoute surface then { s with pointerRoute := none } else s
  let s :=
    if s.pendingPointerRoute.any fun route => s.routeResolvesTo route surface then
      { s with pendingPointerRoute := some none }
    else s
  let s :=
    if s.pointerCapture = .idle then
      { s with
        pointerRoute := s.pendingPointerRoute.getD s.pointerRoute
        pendingPointerRoute := none }
    else s
  if s.keyboardRoute.any fun route => s.surfaceResolvesTo route.surface surface then s.clearFocus.1
  else s

/-- End all input of a surface, and keep quiet about what is still held until it is released. -/
def retireLocalInput (order : IterationOrder LinuxKeycode) (call : ℕ)
    (retirement : ClientInputRetirement) : ClientRuntime :=
  match s.resolveAlias retirement.surface with
  | .error _ => s
  | .ok surface =>
      let s := s.cancelSurfaceTouch surface
      let s := s.retireKeys order call surface retirement.time
      let s := s.retireGesture surface retirement.time
      let s := s.retireFingerScroll surface retirement.time
      let s := s.retireButtons surface retirement.time
      let s := s.retireRoutes surface
      if surface.source ∈ s.adapters then s.record (.retired surface retirement.time) else s

/-- Forget what leads to a surface that was destroyed. -/
def forgetSurface : ClientRuntime :=
  let s := s.cancelSurfaceTouch surface
  let gone := fun candidate => s.surfaceResolvesTo candidate surface
  let goneRoute := fun route => s.routeResolvesTo route surface
  let keyboardDestroyed := s.keyboardRoute.any fun route => gone route.surface
  let captureDestroyed := match s.pointerCapture with
    | .active route => goneRoute route
    | .idle => false
  let pointerRoute := if goneRoute s.pointerRoute then none else s.pointerRoute
  let pendingPointerRoute :=
    if s.pendingPointerRoute.any goneRoute then some none else s.pendingPointerRoute
  { s with
    keyboardCaptures := s.keyboardCaptures.retain fun _ capture => !gone capture.route.surface
    aliases := s.aliases.retain fun destination source =>
      decide (destination ≠ surface) && decide (source ≠ surface)
    retiredAliases := s.retiredAliases ++ s.aliases.keys.filter fun destination =>
      destination == surface || s.aliases.lookup destination == some surface
    pointerRoute := if captureDestroyed then pendingPointerRoute.getD pointerRoute else pointerRoute
    pendingPointerRoute := if captureDestroyed then none else pendingPointerRoute
    keyboardRoute := if keyboardDestroyed then none else s.keyboardRoute
    pointerCapture := if captureDestroyed then .idle else s.pointerCapture
    pressedButtons := if captureDestroyed then ∅ else s.pressedButtons
    gestureCapture := s.gestureCapture.filter fun capture => !goneRoute capture.route
    fingerScrollCapture := s.fingerScrollCapture.filter fun capture => !goneRoute capture.route
    log := s.log ++ (.forgotten surface (s.aliasesOf surface) ::
      if keyboardDestroyed then [.refocused] else []) }

/-- An update of an alias that the adapter of its destination publishes. -/
def applyAliasUpdate (adapter : ClientSourceId) (update : ClientRouteAliasUpdate) : ClientRuntime :=
  if update.destination.source ≠ adapter then s
  else
    match update.source with
    | some target =>
        if target.source ∈ s.adapters then s.setRouteAlias update.destination target else s
    | none => s.removeRouteAlias update.destination

/-- The adapters report surfaces that are destroyed and aliases that change; those that observe the
events of others may report more surfaces after that. -/
def drainEvents (destroyed : List ClientSurfaceId)
    (updates : List (ClientSourceId × ClientRouteAliasUpdate)) (observed : List ClientSurfaceId) :
    ClientRuntime :=
  let s := { s with retiredAliases := [] }
  let s := destroyed.foldl forgetSurface s
  let s := updates.foldl (fun s update => s.applyAliasUpdate update.1 update.2) s
  observed.foldl forgetSurface s

end ClientRuntime

/-! ### Calls -/

inductive RuntimeCall
  | input (event : RuntimeInputEventKind) (time : ℕ)
  | touch (route : Option ClientPointerRoute) (event : TouchEvent) (time : ℕ)
  | setPointerRoute (route : Option ClientPointerRoute)
  | publishPointerRoute (update : ClientPointerRouteUpdate)
  | setKeyboardRoute (route : Option ClientKeyboardRoute)
  | setRouteAlias (destination source : ClientSurfaceId)
  | removeRouteAlias (destination : ClientSurfaceId)
  | request (request : ClientRequest)
  | retire (call : ℕ) (retirement : ClientInputRetirement)
  | drain (destroyed : List ClientSurfaceId) (updates : List (ClientSourceId × ClientRouteAliasUpdate))
      (observed : List ClientSurfaceId)

/-- The runtime after a call; keys are retired in the given order. -/
def ClientRuntime.step (order : IterationOrder LinuxKeycode) (s : ClientRuntime) :
    RuntimeCall → ClientRuntime
  | .input event time => (s.dispatchUnconsumedInput event time).1
  | .touch route event time => (s.dispatchTouch route event time).1
  | .setPointerRoute route => s.setPointerRoute route
  | .publishPointerRoute update => (s.publishPointerRoute update).1
  | .setKeyboardRoute route => s.setKeyboardRoute route
  | .setRouteAlias destination source => s.setRouteAlias destination source
  | .removeRouteAlias destination => s.removeRouteAlias destination
  | .request request => (s.applyRequest request).1
  | .retire call retirement => s.retireLocalInput order call retirement
  | .drain destroyed updates observed => s.drainEvents destroyed updates observed

end Client
