/-
**Input of composed views.**

The peer of a source in composited mode sees one surface for each view and sends its input there.
`view_input.rs` of `weld-hoist-core` hands it to the member below the pointer or the finger, and keeps
handing it there: a contact stays with the surface it began at, and while a button, a gesture or a
scroll with fingers is open a motion takes the pointer nowhere else.

Main definitions: `ViewInput`, `touchMonitor`, `pointerMonitor`, `Unabandoned`.

Main results:

* `Touches.route`, `Touches.remove` — contacts and frames reach those they are due to;
* `Points.route`, `Points.remove` — so does what is open;
* `composed_input_keeps_its_targets` — **over every run in which the pointer does not leave an
  open gesture or scroll**;
* `leaving_abandons_the_scroll` — a scroll that the pointer leaves is never ended.
-/

import Mathlib.Data.Finset.Erase
import Mathlib.Data.Finset.Insert
import Weld.Monitor
import Weld.SourceViews
import Weld.Transition

namespace Views

open Client Hoist Transition

/-! ### Hits -/

/-- The position as seen from the origin of the layer. -/
def ViewTarget.local (target : ViewTarget) (position : InputPosition) : InputPosition :=
  ⟨position.x.sub64 target.origin.x, position.y.sub64 target.origin.y⟩

def HitRegion.contains (hit : HitRegion) (position : InputPosition) : Bool :=
  let inner := hit.target.local position
  hit.regions.any fun region =>
    region.position.x.le inner.x && region.position.y.le inner.y &&
      inner.x.lt (region.position.x.add region.size.width) &&
      inner.y.lt (region.position.y.add region.size.height)

/-- The target whose region is hit, the foremost one. -/
def SourceViews.hit (s : SourceViews) (root : ClientSurfaceId) (position : InputPosition) :
    Option ViewTarget :=
  (s.views.lookup root).bind fun view =>
    (view.hits.reverse.find? (·.contains position)).map (·.target)

def SourceViews.session (s : SourceViews) (surface : ClientSurfaceId) : Option HoistSessionId :=
  (s.surfaces.lookup surface).bind (·.session)

/-- The input event of a view that arrives in the session of the view. -/
def SourceViews.inputOf (s : SourceViews) (envelope : DestinationEnvelope) :
    Option WireClientInputEvent :=
  match envelope.message with
  | .input input =>
      if s.root input.target.surface = some input.target.surface ∧
          s.session input.target.surface = some envelope.session then some input
      else none
  | _ => none

/-! ### What is kept -/

/-- Targets are equal if their origins are, as numbers. -/
def ViewTarget.same (a b : ViewTarget) : Bool :=
  decide (a.session = b.session) && decide (a.surface = b.surface) && decide (a.layer = b.layer) &&
    a.origin.x.same b.origin.x && a.origin.y.same b.origin.y

def pushNew (targets : List ViewTarget) (target : ViewTarget) : List ViewTarget :=
  if targets.any (·.same target) then targets else targets ++ [target]

/-- What of a pointer is open. -/
structure Grabs where
  buttons : Finset LinuxButtonCode := ∅
  gesture : Bool := false
  scrolling : Bool := false
  deriving DecidableEq

structure Pointer extends Grabs where
  target : Option ViewTarget := none
  deriving DecidableEq

structure ViewInput where
  pointers : Dict ClientSurfaceId Pointer := ∅
  contacts : Dict (ClientSurfaceId × TouchId) ViewTarget := ∅
  touched : Dict ClientSurfaceId (List ViewTarget) := ∅

/-- Nothing is open. -/
def Grabs.free (grabs : Grabs) : Bool :=
  decide (grabs.buttons = ∅) && !grabs.gesture && !grabs.scrolling

/-- What an event opens and ends. -/
def Grabs.track (grabs : Grabs) : InputEventKind → Grabs
  | .pointerButton _ button .pressed => { grabs with buttons := insert button grabs.buttons }
  | .pointerButton _ button .released => { grabs with buttons := grabs.buttons.erase button }
  | .pointerGesture gesture =>
      { grabs with gesture := !gesture.isEnd && (gesture.isBegin || grabs.gesture) }
  | .pointerAxis _ axis =>
      if axis.source = .finger then
        { grabs with scrolling := decide (axis.phase ≠ .ended ∧ axis.phase ≠ .cancelled) }
      else grabs
  | _ => grabs

/-- The input event, handed to a target in its session. -/
def handed (target : ViewTarget) (input : WireClientInputEvent) : DestinationEnvelope :=
  ⟨target.session, .input { input with
    target := if input.target.isTouch then .touch target.surface target.layer
      else .pointer target.surface target.layer }⟩

def positionOf : InputEventKind → Option InputPosition
  | .pointerMotion position _ | .pointerLeft position => some position
  | .pointerButton position _ _ | .pointerAxis position _ => position
  | _ => none

/-- The event with its position changed. -/
def mapPosition (f : InputPosition → InputPosition) : InputEventKind → InputEventKind
  | .pointerMotion position relative => .pointerMotion (f position) relative
  | .pointerLeft position => .pointerLeft (f position)
  | .pointerButton position button state => .pointerButton (position.map f) button state
  | .pointerAxis position axis => .pointerAxis (position.map f) axis
  | event => event

def leaving : InputEventKind → Bool
  | .pointerLeft _ => true
  | _ => false

namespace ViewInput

variable (order : IterationOrder (ClientSurfaceId × TouchId)) (call : ℕ) (s : ViewInput)
  (views : SourceViews) (input : WireClientInputEvent)

/-! ### Routing -/

/-- The target is owed a frame. -/
def touch (root : ClientSurfaceId) (target : ViewTarget) : ViewInput :=
  { s with touched := s.touched.insert root (pushNew ((s.touched.lookup root).getD []) target) }

/-- Those a frame or a cancellation goes to. -/
def framed (root : ClientSurfaceId) : List ViewTarget :=
  (order.arrange call s.contacts.keys).foldl (fun targets key =>
    if key.1 = root then (s.contacts.lookup key).elim targets (pushNew targets) else targets)
    ((s.touched.lookup root).getD [])

def routeTouch (root : ClientSurfaceId) : TouchEvent → ViewInput × List DestinationEnvelope
  | .down id position =>
      if maxTouchContacts ≤ s.contacts.size ∨ (root, id) ∈ s.contacts then (s, [])
      else
        match views.hit root position with
        | none => (s, [])
        | some target =>
            (touch { s with contacts := s.contacts.insert (root, id) target } root target,
              [handed target { input with event := .touch (.down id (target.local position)) }])
  | .motion id position =>
      match s.contacts.lookup (root, id) with
      | none => (s, [])
      | some target =>
          (s.touch root target,
            [handed target { input with event := .touch (.motion id (target.local position)) }])
  | .up id =>
      match s.contacts.lookup (root, id) with
      | none => (s, [])
      | some target =>
          (touch { s with contacts := s.contacts.erase (root, id) } root target,
            [handed target input])
  | .frame =>
      ({ s with touched := s.touched.erase root }, (s.framed order call root).map (handed · input))
  | .cancel =>
      ({ s with
          touched := s.touched.erase root
          contacts := s.contacts.retain fun key _ => decide (key.1 ≠ root) },
        (s.framed order call root).map (handed · input))

def pointer (root : ClientSurfaceId) : Pointer := (s.pointers.lookup root).getD {}

/-- The pointer after an event has chosen its target: a motion does while nothing is open. -/
def aimed (root : ClientSurfaceId) : Pointer :=
  match positionOf input.event with
  | some position =>
      if !leaving input.event && (s.pointer root).free then
        { s.pointer root with target := views.hit root position }
      else s.pointer root
  | none => s.pointer root

def routePointer (root : ClientSurfaceId) : ViewInput × List DestinationEnvelope :=
  let pointer := s.aimed views input root
  match pointer.target with
  | none => ({ s with pointers := s.pointers.insert root pointer }, [])
  | some target =>
      let grabs := pointer.track input.event
      let left := leaving input.event && decide (grabs.buttons = ∅)
      ({ s with pointers := s.pointers.insert root ⟨grabs, if left then none else some target⟩ },
        [handed target { input with event := mapPosition target.local input.event }])

/-- Input of a view is handed on to its members; everything else is left as it is. -/
def route (envelope : DestinationEnvelope) : ViewInput × List DestinationEnvelope :=
  match views.inputOf envelope with
  | none => (s, [envelope])
  | some input =>
      match input.target, input.event with
      | .touch root _, .touch event => s.routeTouch order call views input root event
      | .pointer root _, _ => s.routePointer views input root
      | _, _ => (s, [envelope])

/-- The surface is gone. -/
def remove (surface : ClientSurfaceId) : ViewInput where
  pointers := s.pointers.retain fun root pointer =>
    decide (root ≠ surface) && pointer.target.all fun target => decide (target.surface ≠ surface)
  contacts := s.contacts.retain fun key target =>
    decide (key.1 ≠ surface) && decide (target.surface ≠ surface)
  touched := (s.touched.mapValues fun _ targets =>
    targets.filter fun target => decide (target.surface ≠ surface)).retain fun root targets =>
      decide (root ≠ surface) && !targets.isEmpty

end ViewInput

/-! ### What input has to do -/

/-- A call that was made, and what input it sent. -/
inductive InputRecord
  | routed (views : SourceViews) (envelope : DestinationEnvelope) (sent : List DestinationEnvelope)
  | removed (surface : ClientSurfaceId)

/-- The contacts of a view, and the targets that had an event of one since the last frame. -/
structure Contacts where
  held : TouchId → Option ViewTarget := fun _ => none
  unframed : List ViewTarget := []

def touchOf (root : ClientSurfaceId) (views : SourceViews) (envelope : DestinationEnvelope) :
    Option (WireClientInputEvent × TouchEvent) :=
  (views.inputOf envelope).bind fun input =>
    match input.target, input.event with
    | .touch surface _, .touch event => if surface = root then some (input, event) else none
    | _, _ => none

def pointerOf (root : ClientSurfaceId) (views : SourceViews) (envelope : DestinationEnvelope) :
    Option InputEventKind :=
  (views.inputOf envelope).bind fun input =>
    match input.target with
    | .pointer surface _ => if surface = root then some input.event else none
    | _ => none

/-- A contact goes to the target it went down at, in the coordinates of the target.  A frame and a
cancellation go to all that are owed one; no contact is left by a cancellation. -/
def touchMonitor (root : ClientSurfaceId) : Monitor InputRecord Contacts where
  init := {}
  next
    | c, .routed views envelope sent =>
        match touchOf root views envelope with
        | some (_, .down id position) =>
            if sent = [] then c
            else ⟨Function.update c.held id (views.hit root position),
              (views.hit root position).toList ++ c.unframed⟩
        | some (_, .motion id _) => ⟨c.held, (c.held id).toList ++ c.unframed⟩
        | some (_, .up id) => ⟨Function.update c.held id none, (c.held id).toList ++ c.unframed⟩
        | some (_, .frame) => ⟨c.held, []⟩
        | some (_, .cancel) => {}
        | none => c
    | c, .removed surface =>
        if root = surface then {}
        else ⟨fun id => (c.held id).filter fun target => decide (target.surface ≠ surface),
          c.unframed.filter fun target => decide (target.surface ≠ surface)⟩
  allows
    | c, .routed views envelope sent =>
        match touchOf root views envelope with
        | some (input, .down id position) => sent = [] ∨ c.held id = none ∧
            ∃ target, views.hit root position = some target ∧ sent =
              [handed target { input with event := .touch (.down id (target.local position)) }]
        | some (input, .motion id position) => sent = (c.held id).toList.map fun target =>
            handed target { input with event := .touch (.motion id (target.local position)) }
        | some (input, .up id) => sent = (c.held id).toList.map (handed · input)
        | some (input, .frame) | some (input, .cancel) => ∀ target,
            target ∈ c.unframed ∨ (∃ id, c.held id = some target) → handed target input ∈ sent
        | none => True
    | _, .removed _ => True

/-- Where the input of an envelope goes. -/
def receiverOf (envelope : DestinationEnvelope) : Option (HoistSessionId × ClientInputTarget) :=
  match envelope.message with
  | .input input => some (envelope.session, input.target)
  | _ => none

/-- While something of the pointer is open, all its events go to one target. -/
def pointerMonitor (root : ClientSurfaceId) :
    Monitor InputRecord (Option ((HoistSessionId × ClientInputTarget) × Grabs)) where
  init := none
  next
    | held, .routed views envelope sent =>
        match pointerOf root views envelope, sent.head?.bind receiverOf with
        | some event, some receiver =>
            let grabs := ((held.map Prod.snd).getD {}).track event
            if grabs.free then none else some (receiver, grabs)
        | _, _ => held
    | held, .removed surface =>
        held.filter fun h => decide (root ≠ surface) && decide (h.1.2.surface ≠ surface)
  allows
    | held, .routed views envelope sent => (pointerOf root views envelope).isSome →
        ∀ h ∈ held, ∃ e, sent = [e] ∧ receiverOf e = some h.1
    | _, .removed _ => True

inductive InputStep
  | route (call : ℕ) (views : SourceViews) (envelope : DestinationEnvelope)
  | remove (surface : ClientSurfaceId)

/-- The pointer does not leave a gesture or a scroll that is open, unless a button is. -/
def Unabandoned (s : ViewInput × List InputRecord) : InputStep → Prop
  | .route _ views envelope => ∀ root position,
      pointerOf root views envelope = some (.pointerLeft position) →
        (s.1.pointer root).buttons = ∅ → (s.1.pointer root).free = true
  | .remove _ => True

/-- One call; the views may have changed since the last one. -/
def step (order : IterationOrder (ClientSurfaceId × TouchId)) (s : ViewInput × List InputRecord) :
    InputStep → ViewInput × List InputRecord
  | .route call views envelope =>
      let result := s.1.route order call views envelope
      (result.1, s.2 ++ [.routed views envelope result.2])
  | .remove surface => (s.1.remove surface, s.2 ++ [.removed surface])

/-! ### Contacts -/

variable {order : IterationOrder (ClientSurfaceId × TouchId)} {call : ℕ} {s : ViewInput}
  {root surface : ClientSurfaceId} {target t : ViewTarget} {targets : List ViewTarget}
  {input : WireClientInputEvent}

def ViewTarget.receiver (target : ViewTarget) : HoistSessionId × ClientSurfaceId × SurfaceLayerId :=
  (target.session, target.surface, target.layer)

theorem handed_congr (h : t.receiver = target.receiver) : handed t input = handed target input := by
  simp only [ViewTarget.receiver, Prod.mk.injEq] at h
  simp only [handed, h]

/-- A target with this receiver is in the list. -/
def Listed (targets : List ViewTarget) (target : ViewTarget) : Prop :=
  ∃ t ∈ targets, t.receiver = target.receiver

theorem Listed.push (h : Listed targets target) : Listed (pushNew targets t) target := by
  obtain ⟨old, hold, hsame⟩ := h
  unfold pushNew
  split_ifs
  · exact ⟨old, hold, hsame⟩
  · exact ⟨old, List.mem_append_left _ hold, hsame⟩

theorem listed_pushNew : Listed (pushNew targets target) target := by
  unfold pushNew
  split_ifs with h
  · obtain ⟨t, ht, hsame⟩ := List.any_eq_true.mp h
    simp only [ViewTarget.same, Bool.and_eq_true, decide_eq_true_eq] at hsame
    exact ⟨t, ht, by simp [ViewTarget.receiver, hsame]⟩
  · exact ⟨target, List.mem_append_right _ List.mem_cons_self, rfl⟩

/-- A frame goes to those touched and to those with a contact. -/
theorem listed_framed (h : Listed ((s.touched.lookup root).getD []) target ∨
    ∃ id, s.contacts.lookup (root, id) = some target) :
    Listed (s.framed order call root) target := by
  have hmem : Listed ((s.touched.lookup root).getD []) target ∨
      ∃ id, s.contacts.lookup (root, id) = some target ∧
        (root, id) ∈ order.arrange call s.contacts.keys := by
    refine h.imp_right fun ⟨id, hid⟩ => ⟨id, hid, ?_⟩
    rw [IterationOrder.mem_arrange]
    exact AList.mem_keys_of_lookup hid
  unfold ViewInput.framed
  generalize (s.touched.lookup root).getD [] = targets at hmem
  generalize order.arrange call s.contacts.keys = keys at hmem
  induction keys generalizing targets with
  | nil => exact hmem.resolve_right fun ⟨_, _, hnil⟩ => List.not_mem_nil hnil
  | cons key keys ih =>
      refine ih _ ?_
      dsimp only
      rcases hmem with hold | ⟨id, hid, hmem⟩
      · left
        split_ifs
        · cases s.contacts.lookup key with
          | none => exact hold
          | some _ => exact hold.push
        · exact hold
      · rcases List.mem_cons.mp hmem with rfl | hmem
        · left
          rw [if_pos rfl, hid]
          exact listed_pushNew
        · exact .inr ⟨id, hid, hmem⟩

/-- What is kept for the contacts of a view. -/
structure Touches (root : ClientSurfaceId) (s : ViewInput) (c : Contacts) : Prop where
  held : ∀ id, c.held id = s.contacts.lookup (root, id)
  unframed : ∀ target ∈ c.unframed, Listed ((s.touched.lookup root).getD []) target

variable {c : Contacts} {views : SourceViews} {envelope : DestinationEnvelope}

theorem Touches.touch {held : TouchId → Option ViewTarget} (h : Touches root s ⟨held, c.unframed⟩) :
    Touches root (s.touch root target) ⟨held, target :: c.unframed⟩ := by
  refine ⟨h.held, fun other hother => ?_⟩
  simp only [ViewInput.touch, AList.lookup_insert_eq, if_true, Option.getD_some]
  rcases List.mem_cons.mp hother with rfl | hother
  · exact listed_pushNew
  · exact (h.unframed other hother).push

theorem Touches.routeTouch (h : Touches root s c) (event : TouchEvent)
    (hof : touchOf root views envelope = some (input, event)) :
    let result := s.routeTouch order call views input root event
    (touchMonitor root).allows c (.routed views envelope result.2) ∧
      Touches root result.1 ((touchMonitor root).next c (.routed views envelope result.2)) := by
  have hframed : ∀ target, target ∈ c.unframed ∨ (∃ id, c.held id = some target) →
      handed target input ∈ (s.framed order call root).map (handed · input) := by
    intro target hdue
    obtain ⟨t, ht, hsame⟩ : Listed (s.framed order call root) target := listed_framed
      (hdue.imp (h.unframed target) fun ⟨id, hid⟩ => ⟨id, (h.held id).symm.trans hid⟩)
    exact List.mem_map.mpr ⟨t, ht, handed_congr hsame⟩
  simp only [touchMonitor, hof]
  cases event with
  | down id position =>
      by_cases hbusy : maxTouchContacts ≤ s.contacts.size ∨ (root, id) ∈ s.contacts
      · simp only [ViewInput.routeTouch, if_pos hbusy]
        exact ⟨.inl trivial, h⟩
      · have hnone : s.contacts.lookup (root, id) = none :=
          AList.lookup_eq_none.mpr fun hmem => hbusy (.inr hmem)
        simp only [ViewInput.routeTouch, if_neg hbusy]
        cases hhit : views.hit root position with
        | none => exact ⟨.inl rfl, h⟩
        | some target =>
            refine ⟨.inr ⟨(h.held id).trans hnone, target, rfl, rfl⟩, ?_⟩
            refine Touches.touch ⟨fun other => ?_, h.unframed⟩
            simp [Function.update_apply, h.held]
  | motion id position =>
      simp only [ViewInput.routeTouch, h.held]
      cases s.contacts.lookup (root, id) with
      | none => exact ⟨rfl, h⟩
      | some target => exact ⟨rfl, Touches.touch h⟩
  | up id =>
      simp only [ViewInput.routeTouch, h.held]
      cases hid : s.contacts.lookup (root, id) with
      | none =>
          refine ⟨rfl, ⟨fun other => ?_, h.unframed⟩⟩
          by_cases heq : other = id
          · subst heq
            simp [hid]
          · simp [heq, h.held]
      | some target =>
          refine ⟨rfl, Touches.touch ⟨fun other => ?_, h.unframed⟩⟩
          simp [Function.update_apply, h.held]
  | frame => exact ⟨hframed, h.held, fun _ hmem => absurd hmem List.not_mem_nil⟩
  | cancel =>
      refine ⟨hframed, fun id => ?_, fun _ hmem => absurd hmem List.not_mem_nil⟩
      simp [ViewInput.routeTouch]

/-- Contacts of other views are left alone. -/
theorem routeTouch_elsewhere (h : root ≠ surface) (event : TouchEvent) :
    (∀ id, (s.routeTouch order call views input surface event).1.contacts.lookup (root, id) =
      s.contacts.lookup (root, id)) ∧
    (s.routeTouch order call views input surface event).1.touched.lookup root =
      s.touched.lookup root := by
  cases event with
  | down id position =>
      simp only [ViewInput.routeTouch]
      split_ifs
      · exact ⟨fun _ => rfl, rfl⟩
      · split <;> simp [ViewInput.touch, h]
  | motion | up =>
      simp only [ViewInput.routeTouch]
      split <;> simp [ViewInput.touch, h]
  | frame => simp [ViewInput.routeTouch, h]
  | cancel =>
      refine ⟨fun id => ?_, by simp [ViewInput.routeTouch, h]⟩
      rw [ViewInput.routeTouch, AList.lookup_retain]
      cases s.contacts.lookup (root, id) with
      | none => rfl
      | some target => exact if_pos (decide_eq_true h)

/-- **One routed event, for the contacts of a view.** -/
theorem Touches.route (h : Touches root s c) :
    let result := s.route order call views envelope
    (touchMonitor root).allows c (.routed views envelope result.2) ∧
      Touches root result.1 ((touchMonitor root).next c (.routed views envelope result.2)) := by
  have hother : ∀ {s'}, touchOf root views envelope = none →
      (∀ id, s'.contacts.lookup (root, id) = s.contacts.lookup (root, id)) →
      s'.touched.lookup root = s.touched.lookup root → ∀ sent,
      (touchMonitor root).allows c (.routed views envelope sent) ∧
        Touches root s' ((touchMonitor root).next c (.routed views envelope sent)) := by
    intro s' hof hcontacts htouched sent
    simp only [touchMonitor, hof, true_and]
    exact ⟨fun id => (h.held id).trans (hcontacts id).symm, htouched ▸ h.unframed⟩
  unfold ViewInput.route
  cases hinput : views.inputOf envelope with
  | none => exact hother (by simp [touchOf, hinput]) (fun _ => rfl) rfl _
  | some input =>
      dsimp only
      split
      · rename_i surface _ event htarget hevent
        by_cases hroot : root = surface
        · subst hroot
          exact h.routeTouch event (by simp [touchOf, hinput, htarget, hevent])
        · obtain ⟨hcontacts, htouched⟩ := routeTouch_elsewhere (s := s) hroot event
          refine hother ?_ hcontacts htouched _
          simp [touchOf, hinput, htarget, hevent, Ne.symm hroot]
      · rename_i htarget
        refine hother (by simp [touchOf, hinput, htarget]) ?_ ?_ _
        · unfold ViewInput.routePointer
          dsimp only
          split <;> exact fun _ => rfl
        · unfold ViewInput.routePointer
          dsimp only
          split <;> rfl
      · refine hother ?_ (fun _ => rfl) rfl _
        simp only [touchOf, hinput, Option.bind_some]

theorem Touches.remove (h : Touches root s c) :
    Touches root (s.remove surface) ((touchMonitor root).next c (.removed surface)) := by
  simp only [touchMonitor]
  split_ifs with hroot
  · exact ⟨fun id => by simp [ViewInput.remove, hroot], fun _ hmem => absurd hmem List.not_mem_nil⟩
  · refine ⟨fun id => by simp [ViewInput.remove, h.held, hroot], fun target hmem => ?_⟩
    obtain ⟨hmem, hkept⟩ := List.mem_filter.mp hmem
    obtain ⟨t, ht, hsame⟩ := h.unframed target hmem
    have hsurface : t.surface = target.surface := congrArg (·.2.1) hsame
    cases htouched : s.touched.lookup root with
    | none => simp [htouched] at ht
    | some targets =>
        rw [htouched, Option.getD_some] at ht
        refine ⟨t, ?_, hsame⟩
        simp only [ViewInput.remove, AList.lookup_retain, AList.lookup_mapValues, htouched,
          Option.map_some, Option.filter_some]
        rw [if_pos (by simpa [hroot] using ⟨t, ht, of_decide_eq_true (hsurface ▸ hkept)⟩)]
        exact List.mem_filter.mpr ⟨ht, hsurface ▸ hkept⟩

/-! ### The pointer -/

theorem Grabs.free_iff {grabs : Grabs} : grabs.free = true ↔ grabs = {} := by
  obtain ⟨buttons, gesture, scrolling⟩ := grabs
  cases gesture <;> cases scrolling <;> simp [Grabs.free]

theorem Grabs.track_leaving {grabs : Grabs} {event : InputEventKind} (h : leaving event = true) :
    grabs.track event = grabs := by
  cases event <;> first | rfl | cases h

/-- What is open, with the target it is kept for. -/
def opened (pointer : Pointer) : Option ((HoistSessionId × ClientInputTarget) × Grabs) :=
  if pointer.free then none
  else pointer.target.map fun t => ((t.session, .pointer t.surface t.layer), pointer.toGrabs)

/-- What is kept for the pointer of a view. -/
def Points (root : ClientSurfaceId) (s : ViewInput)
    (held : Option ((HoistSessionId × ClientInputTarget) × Grabs)) : Prop :=
  ((s.pointer root).free = false → (s.pointer root).target ≠ none) ∧ held = opened (s.pointer root)

variable {held : Option ((HoistSessionId × ClientInputTarget) × Grabs)}

theorem aimed_spec (s : ViewInput) (views : SourceViews) (input : WireClientInputEvent)
    (root : ClientSurfaceId) : (s.aimed views input root).toGrabs = (s.pointer root).toGrabs ∧
    ((s.pointer root).free = false → s.aimed views input root = s.pointer root) := by
  unfold ViewInput.aimed
  split
  · split_ifs with hfree
    · refine ⟨rfl, fun hopen => ?_⟩
      rw [hopen, Bool.and_false] at hfree
      cases hfree
    · exact ⟨rfl, fun _ => rfl⟩
  · exact ⟨rfl, fun _ => rfl⟩

theorem Points.routePointer (h : Points root s held) {layer : SurfaceLayerId}
    (htarget : input.target = .pointer root layer)
    (hof : pointerOf root views envelope = some input.event)
    (hkept : leaving input.event = true → (s.pointer root).buttons = ∅ →
      (s.pointer root).free = true) :
    let result := s.routePointer views input root
    (pointerMonitor root).allows held (.routed views envelope result.2) ∧
      Points root result.1 ((pointerMonitor root).next held (.routed views envelope result.2)) := by
  obtain ⟨hopen, rfl⟩ := h
  obtain ⟨hgrabs, hsame⟩ := aimed_spec s views input root
  have hpointer : ∀ p,
      ({ s with pointers := s.pointers.insert root p } : ViewInput).pointer root = p :=
    fun p => by simp [ViewInput.pointer]
  unfold ViewInput.routePointer
  dsimp only
  rw [hgrabs]
  cases haimed : (s.aimed views input root).target with
  | none =>
      have hfree : (s.pointer root).free = true := by
        by_contra hbusy
        rw [Bool.not_eq_true] at hbusy
        exact hopen hbusy (hsame hbusy ▸ haimed)
      have hnone : opened (s.pointer root) = none := if_pos hfree
      rw [hnone]
      refine ⟨fun _ => nofun, ?_⟩
      simp only [pointerMonitor, hof, Points, hpointer, opened, hgrabs, hfree]
      simp
  | some t =>
      have hreceiver : receiverOf (handed t
          { input with event := mapPosition t.local input.event }) =
            some (t.session, .pointer t.surface t.layer) := by
        simp [receiverOf, handed, htarget, ClientInputTarget.isTouch]
      have hbefore : (s.pointer root).free = false → opened (s.pointer root) =
          some ((t.session, .pointer t.surface t.layer), (s.pointer root).toGrabs) := by
        intro hbusy
        rw [hsame hbusy] at haimed
        simp [opened, hbusy, haimed]
      have hpast : ((opened (s.pointer root)).map Prod.snd).getD {} = (s.pointer root).toGrabs := by
        cases hfree : (s.pointer root).free with
        | true => rw [opened, if_pos hfree, Grabs.free_iff.mp hfree]; rfl
        | false => rw [hbefore hfree]; rfl
      refine ⟨?_, ?_⟩
      · intro _ h hh
        cases hfree : (s.pointer root).free with
        | true => simp [opened, hfree] at hh
        | false =>
            rw [hbefore hfree] at hh
            cases hh
            exact ⟨_, rfl, hreceiver⟩
      · simp only [pointerMonitor, hof, List.head?_cons, Option.bind_some, hreceiver, hpast, Points,
          hpointer]
        cases hafter : ((s.pointer root).track input.event).free with
        | true => simp [opened, hafter]
        | false =>
            have hstays : (leaving input.event &&
                decide (((s.pointer root).track input.event).buttons = ∅)) = false := by
              cases hleaving : leaving input.event with
              | false => rfl
              | true =>
                  rw [Grabs.track_leaving hleaving] at hafter ⊢
                  refine decide_eq_false fun hbuttons => ?_
                  exact absurd (hkept hleaving hbuttons) (Bool.eq_false_iff.mp hafter)
            simp [opened, hafter, hstays]

/-- **One routed event, for the pointer of a view.** -/
theorem Points.route (h : Points root s held)
    (hkept : ∀ position, pointerOf root views envelope = some (.pointerLeft position) →
      (s.pointer root).buttons = ∅ → (s.pointer root).free = true) :
    let result := s.route order call views envelope
    (pointerMonitor root).allows held (.routed views envelope result.2) ∧
      Points root result.1 ((pointerMonitor root).next held (.routed views envelope result.2)) := by
  have hother : ∀ {s'}, pointerOf root views envelope = none → s'.pointer root = s.pointer root →
      ∀ sent, (pointerMonitor root).allows held (.routed views envelope sent) ∧
        Points root s' ((pointerMonitor root).next held (.routed views envelope sent)) := by
    intro s' hof hsame sent
    rw [Points, hsame]
    simp only [pointerMonitor, hof]
    exact ⟨nofun, h⟩
  unfold ViewInput.route
  cases hinput : views.inputOf envelope with
  | none => exact hother (by simp [pointerOf, hinput]) rfl _
  | some input =>
      dsimp only
      split
      · rename_i event htarget _
        refine hother (by simp [pointerOf, hinput, htarget]) ?_ _
        cases event <;> simp only [ViewInput.routeTouch] <;> (repeat' split) <;> rfl
      · rename_i surface _ htarget
        by_cases hroot : root = surface
        · subst hroot
          have hof : pointerOf root views envelope = some input.event := by
            simp [pointerOf, hinput, htarget]
          refine h.routePointer htarget hof fun hleaving => ?_
          cases hevent : input.event <;> rw [hevent] at hleaving <;> cases hleaving
          exact hkept _ (hof.trans (congrArg some hevent))
        · refine hother (by simp [pointerOf, hinput, htarget, Ne.symm hroot]) ?_ _
          unfold ViewInput.routePointer
          dsimp only
          split <;> simp [ViewInput.pointer, hroot]
      · refine hother ?_ rfl _
        simp only [pointerOf, hinput, Option.bind_some]

theorem Points.remove (h : Points root s held) :
    Points root (s.remove surface) ((pointerMonitor root).next held (.removed surface)) := by
  obtain ⟨hopen, rfl⟩ := h
  have hpointer : (s.remove surface).pointer root =
      if decide (root ≠ surface) &&
          (s.pointer root).target.all fun t => decide (t.surface ≠ surface) then s.pointer root
      else {} := by
    have hfilter : ∀ (o : Option Pointer) (p : Pointer → Bool),
        (o.filter p).getD {} = if p (o.getD {}) then o.getD {} else {} := by
      rintro (_ | pointer) p
      · exact (ite_self _).symm
      · exact apply_ite (fun o : Option Pointer => o.getD {}) _ _ _
    rw [ViewInput.pointer, ViewInput.remove, AList.lookup_retain]
    exact hfilter _ _
  simp only [pointerMonitor, Points, hpointer]
  cases hfree : (s.pointer root).free with
  | true =>
      have hnone : opened (s.pointer root) = none := if_pos hfree
      rw [hnone]
      split_ifs
      · exact ⟨hopen, hnone.symm⟩
      · exact ⟨nofun, rfl⟩
  | false =>
      obtain ⟨t, ht⟩ := Option.ne_none_iff_exists'.mp (hopen hfree)
      have hsome : opened (s.pointer root) =
          some ((t.session, .pointer t.surface t.layer), (s.pointer root).toGrabs) := by
        simp [opened, hfree, ht]
      rw [hsome, Option.filter_some, ht, Option.all_some]
      by_cases hkeep : (decide (root ≠ surface) && decide (t.surface ≠ surface)) = true
      · rw [if_pos hkeep]
        exact ⟨hopen, (if_pos hkeep).trans hsome.symm⟩
      · rw [if_neg hkeep]
        exact ⟨nofun, if_neg hkeep⟩

/-! ### Runs -/

/-- **Input of composed views keeps its targets.** -/
theorem composed_input_keeps_its_targets (order : IterationOrder (ClientSurfaceId × TouchId))
    (root : ClientSurfaceId) (steps : List InputStep) :
    let s := exec (step order) ({}, []) steps
    (touchMonitor root).Follows (fun c => ∀ id, c.held id = s.1.contacts.lookup (root, id)) s.2 ∧
      (Meets (step order) Unabandoned ({}, []) steps → (pointerMonitor root).Accepts s.2) := by
  refine ⟨?_, fun hmeets => ?_⟩
  · refine (exec_invariant (P := fun s : ViewInput × List InputRecord =>
      (touchMonitor root).Follows (Touches root s.1) s.2) (fun s e h => ?_)
      (Monitor.follows_nil ⟨fun _ => rfl, nofun⟩) steps).imp fun h => h.held
    cases e with
    | route call views envelope => exact h.concat h.2.route.1 h.2.route.2
    | remove surface => exact h.concat trivial h.2.remove
  · refine (hmeets.invariant (P := fun s : ViewInput × List InputRecord =>
      (pointerMonitor root).Follows (Points root s.1) s.2) (fun s e h hok => ?_)
      (Monitor.follows_nil ⟨nofun, rfl⟩)).1
    cases e with
    | route call views envelope =>
        exact h.concat (h.2.route (hok root)).1 (h.2.route (hok root)).2
    | remove surface => exact h.concat trivial h.2.remove

/-! ### A scroll that the pointer leaves -/

def window : ClientSurfaceId := ⟨⟨0, 1⟩, 1⟩

/-- The view of a window of one unit that takes input everywhere. -/
def windowView : SourceViews where
  mode := .composited
  surfaces := AList.insert window { session := some 1 } ∅
  views := AList.insert window { hits := [⟨⟨1, window, 0, {}⟩, [⟨{}, ⟨.finite 1, .finite 1⟩⟩]⟩] } ∅

def pointing (event : InputEventKind) : InputStep :=
  .route 0 windowView ⟨1, .input ⟨.pointer window 0, event, 0⟩⟩

/-- The pointer leaves while fingers scroll, and the end of the scroll goes nowhere. -/
theorem leaving_abandons_the_scroll : ¬ (pointerMonitor window).Accepts
    (exec (step (.stored _)) ({}, []) [pointing (.pointerMotion {} none),
      pointing (.pointerAxis none { source := .finger, phase := .started }),
      pointing (.pointerLeft {}),
      pointing (.pointerAxis none { source := .finger, phase := .ended })]).2 := by
  intro h
  obtain ⟨e, hsent, -⟩ := h.last rfl ((1, .pointer window 0), { scrolling := true })
    (Option.mem_def.mpr (by decide +kernel))
  exact absurd ((congrArg List.length hsent).trans List.length_singleton) (by decide +kernel)

end Views
