/-
**What a pair of relays agrees on.**

The destination accepts every record of a source relay: what it has mapped, and the cursors it has
recorded, are what the records tell.  With nothing in flight it has therefore the latest cursor of
every surface that is mapped.

The source is stricter with its peer.  A message that is late because its surface was unmapped is
ignored; a message that is late because the surface was mapped again since then arrives under the
old session, and tears the connection down.  A focus clear is about the surface that the source
believes to have the focus, so an ignored focus request has the same effect.  With no such message
neither relay ever fails.

Main definitions: `Reflects`, `RelayPair.Sound`, `RelayPair.InOrder`.

Main results:

* `RelayPair.latest_cursor_recorded` — the cursors of the two relays agree;
* `RelayPair.neither_fails` — the condition under which neither relay fails.
-/

import Weld.SourceStream

namespace Hoist

open Client Gamepad Transition

/-! ### The cursor of a mapping -/

/-- What one more event makes of the cursor recorded for a destination surface. -/
def noteCursor (surface : ClientSurfaceId) (cursor : Option ClientCursor) :
    RouteEvent → Option ClientCursor
  | .mapped x => if x = surface then none else cursor
  | .cursor x c => if x = surface then some c else cursor
  | .published _ => cursor

/-- The last cursor recorded for the current mapping of a destination surface. -/
def lastCursor (surface : ClientSurfaceId) (trace : List RouteEvent) : Option ClientCursor :=
  trace.foldl (noteCursor surface) none

theorem lastCursor_append (surface : ClientSurfaceId) (trace : List RouteEvent) (e : RouteEvent) :
    lastCursor surface (trace ++ [e]) = noteCursor surface (lastCursor surface trace) e := by
  rw [lastCursor, List.foldl_append]
  rfl

/-- The last cursor the destination recorded for the current mapping of a source surface. -/
def DestinationRelayAdapter.recorded (s : DestinationRelayAdapter) (x : ClientSurfaceId) :
    Option ClientCursor :=
  lastCursor (s.relocated x) s.trace

/-! ### What the destination says -/

theorem polite_input (upstream : ClientSourceId) (session : HoistSessionId)
    (input : WireClientInputEvent) : Polite upstream ⟨session, .input input⟩ := by
  constructor <;> simp

variable {upstream : ClientSourceId}

theorem polite_request {request : ClientRequest}
    (h : ∀ focus, request = .focus focus → focus.source = upstream) (session : HoistSessionId) :
    Polite upstream ⟨session, .request request⟩ := by
  refine ⟨by simp, fun focus hfocus => h focus ?_⟩
  simpa using hfocus

/-- Between the states the destination may have spoken: its messages acknowledge `acks`, and none is
about a gamepad while it has none. -/
structure Spoke (acks : List CursorInFlight) (s t : DestinationRelayAdapter) : Prop where
  upstreamSource : t.upstreamSource = s.upstreamSource
  descriptor : t.descriptor = s.descriptor
  failed : t.failed = s.failed
  gamepad : s.gamepad = none → t.gamepad = none
  messages : ∃ more, t.messages = s.messages ++ more ∧ acknowledgements more = acks ∧
    (s.gamepad = none → ∀ envelope ∈ more, Polite s.upstreamSource envelope)

/-- Nor has it mapped a surface, taken one away or recorded a cursor. -/
structure Stayed (s t : DestinationRelayAdapter) : Prop extends Spoke [] s t where
  sessions : t.sessions = s.sessions
  recorded : ∀ surface, lastCursor surface t.trace = lastCursor surface s.trace

open Stayed

variable {record : DestinationPortRecord}

section Destination

variable {env : DestinationEnvironment} {s t u : DestinationRelayAdapter}
  {acks more : List CursorInFlight}

theorem Spoke.refl (s : DestinationRelayAdapter) : Spoke [] s s :=
  ⟨rfl, rfl, rfl, id, [], by simp, rfl, by simp⟩

theorem Spoke.trans (h : Spoke acks s t) (h' : Spoke more t u) : Spoke (acks ++ more) s u where
  upstreamSource := h'.upstreamSource.trans h.upstreamSource
  descriptor := h'.descriptor.trans h.descriptor
  failed := h'.failed.trans h.failed
  gamepad hs := h'.gamepad (h.gamepad hs)
  messages := by
    obtain ⟨first, hfirst, hacks, hpolite⟩ := h.messages
    obtain ⟨second, hsecond, hacks', hpolite'⟩ := h'.messages
    refine ⟨first ++ second, ?_, ?_, ?_⟩
    · rw [hsecond, hfirst, List.append_assoc]
    · rw [acknowledgements_append, hacks, hacks']
    · intro hs envelope henvelope
      rcases List.mem_append.mp henvelope with hmem | hmem
      · exact hpolite hs envelope hmem
      · rw [← h.upstreamSource]
        exact hpolite' (h.gamepad hs) envelope hmem

theorem Stayed.refl (s : DestinationRelayAdapter) : Stayed s s :=
  ⟨Spoke.refl s, rfl, fun _ => rfl⟩

theorem Stayed.trans (h : Stayed s t) (h' : Stayed t u) : Stayed s u where
  toSpoke := h.toSpoke.trans h'.toSpoke
  sessions := h'.sessions.trans h.sessions
  recorded d := (h'.recorded d).trans (h.recorded d)

theorem Stayed.publish (s : DestinationRelayAdapter) (event : ClientSurfaceEvent) :
    Stayed s (s.publish event) := by
  refine ⟨⟨rfl, rfl, rfl, id, [], by simp [DestinationRelayAdapter.messages,
    DestinationRelayAdapter.publish], rfl, by simp⟩, rfl, fun d => ?_⟩
  exact lastCursor_append d s.trace _

theorem Stayed.publishRole (s : DestinationRelayAdapter) (x : ClientSurfaceId)
    (role : ClientSurfaceRole) : Stayed s (s.publishRole x role) := by
  unfold DestinationRelayAdapter.publishRole
  split
  · exact publish s _
  · exact refl s

theorem Stayed.tick (s : DestinationRelayAdapter) : Stayed s s.tick :=
  ⟨⟨rfl, rfl, rfl, id, [], by simp [DestinationRelayAdapter.messages,
    DestinationRelayAdapter.tick], rfl, by simp⟩, rfl, fun _ => rfl⟩

variable (env) in
theorem Stayed.refreshChildrenOf (s : DestinationRelayAdapter) (x : ClientSurfaceId) :
    Stayed s (s.refreshChildrenOf env x) := by
  refine Cascade.foldl_invariant (P := Stayed s) ?_ (tick s)
  intro t child _ ht
  exact ht.trans (publishRole t child.1 child.2)

theorem messages_append (s : DestinationRelayAdapter) (command : DestinationPortCommand) :
    (s.submitted ++ [command]).filterMap (·.envelope) = s.messages ++ command.envelope.toList := by
  rw [List.filterMap_append]
  cases henvelope : command.envelope with
  | none | some => simp [DestinationRelayAdapter.messages, henvelope]

/-! ### Asking the port -/

variable (henv : env.ErrorFree)
include henv

theorem destination_submit_eq (s : DestinationRelayAdapter) (command : DestinationPortCommand) :
    s.submit env command =
      ({ s with submitted := s.submitted ++ [command], calls := s.calls + 1 }, true) := by
  unfold DestinationRelayAdapter.submit
  rw [henv]

/-- The port is told something that is no message. -/
theorem Stayed.submit (s : DestinationRelayAdapter) (command : DestinationPortCommand)
    (hnone : command.envelope = none) : Stayed s (s.submit env command).1 := by
  rw [destination_submit_eq henv]
  refine ⟨⟨rfl, rfl, rfl, id, [], ?_, rfl, by simp⟩, rfl, fun _ => rfl⟩
  have hmessages := messages_append s command
  rw [hnone] at hmessages
  exact hmessages

variable {session : HoistSessionId} {m : Mirror} {message : DestinationMessage}

theorem Spoke.sendDestination (s : DestinationRelayAdapter)
    (hpolite : s.gamepad = none → Polite s.upstreamSource ⟨session, message⟩) :
    Spoke (acknowledgements [⟨session, message⟩]) s (s.sendDestination env session message) ∧
      (s.sendDestination env session message).sessions = s.sessions ∧
      (s.sendDestination env session message).trace = s.trace := by
  rw [DestinationRelayAdapter.sendDestination, destination_submit_eq henv]
  refine ⟨⟨rfl, rfl, rfl, id, [⟨session, message⟩], messages_append s _, rfl, ?_⟩, rfl, rfl⟩
  intro hs envelope henvelope
  rw [List.mem_singleton.mp henvelope]
  exact hpolite hs

/-- A message that acknowledges nothing. -/
theorem Stayed.sendDestination (s : DestinationRelayAdapter)
    (hpolite : s.gamepad = none → Polite s.upstreamSource ⟨session, message⟩)
    (hnone : DestinationEnvelope.acknowledged ⟨session, message⟩ = none) :
    Stayed s (s.sendDestination env session message) := by
  obtain ⟨hspoke, hsessions, htrace⟩ := Spoke.sendDestination henv s hpolite
  have hacks : acknowledgements [⟨session, message⟩] = [] := by
    rw [acknowledgements, List.filterMap_cons, hnone, List.filterMap_nil]
  rw [hacks] at hspoke
  exact ⟨hspoke, hsessions, fun d => by rw [htrace]⟩

/-! ### What the host asks -/

theorem Stayed.sendGamepad (s : DestinationRelayAdapter) : Stayed s (s.sendGamepad env) := by
  unfold DestinationRelayAdapter.sendGamepad
  split_ifs
  · exact refl s
  · split
    · exact refl s
    · rename_i controller hgamepad
      split
      · exact refl s
      · have hpopped : Stayed s ({ s with gamepad := some controller.pop.1 } :
            DestinationRelayAdapter) := by
          refine ⟨⟨rfl, rfl, rfl, fun hs => ?_, [], by simp [DestinationRelayAdapter.messages], rfl,
            by simp⟩, rfl, fun _ => rfl⟩
          rw [hs] at hgamepad
          cases hgamepad
        refine hpopped.trans (sendDestination henv _ (fun hs => ?_) rfl)
        cases hs

omit henv in
theorem sourceSurface_source {destination source : ClientSurfaceId}
    (h : s.sourceSurface destination = some source) : source.source = s.upstreamSource := by
  unfold DestinationRelayAdapter.sourceSurface at h
  split_ifs at h
  cases h
  rfl

theorem Stayed.applyRequest (s : DestinationRelayAdapter) (request : ClientRequest) :
    Stayed s (s.applyRequest env request) := by
  unfold DestinationRelayAdapter.applyRequest
  split
  · exact refl s
  · rename_i source hsource
    have hown : source.source = s.upstreamSource := by
      obtain ⟨destination, -, hdestination⟩ := Option.bind_eq_some_iff.mp hsource
      exact sourceSurface_source hdestination
    unfold DestinationRelayAdapter.applyRequestTo
    split
    · split_ifs
      · exact submit henv s .focusCleared rfl
      · exact refl s
    · have hobserved : Stayed s (s.observeRequest request) :=
        ⟨⟨rfl, rfl, rfl, id, [], by simp [DestinationRelayAdapter.messages,
          DestinationRelayAdapter.observeRequest], rfl, by simp⟩, rfl, fun _ => rfl⟩
      refine hobserved.trans (sendDestination henv _ (fun _ => polite_request ?_ _) rfl)
      -- a focus request is rewritten to the focus of the source
      intro focus hfocus
      cases request with
      | clearFocus => cases hfocus
      | surface request =>
          obtain ⟨x, kind⟩ := request
          cases kind <;> cases hfocus
      | focus request =>
          obtain ⟨target, surface⟩ := request
          cases surface with
          | none =>
              cases hfocus
              rfl
          | some surface =>
              cases hfocus
              exact hown

theorem Stayed.forwardInput (s : DestinationRelayAdapter) (session : HoistSessionId)
    (source : ClientSurfaceId) (event : ClientInputEvent) :
    Stayed s (s.forwardInput env session source event) := by
  exact sendDestination henv s (fun _ => polite_input _ _ _) rfl

omit henv in
/-- The ledger of the destination is no message. -/
theorem Stayed.input (s : DestinationRelayAdapter) (input : RemoteInputState) (calls : ℕ) :
    Stayed s { s with input := input, calls := calls } :=
  ⟨⟨rfl, rfl, rfl, id, [], by simp [DestinationRelayAdapter.messages], rfl, by simp⟩, rfl,
    fun _ => rfl⟩

theorem Stayed.applyInput (s : DestinationRelayAdapter) (event : ClientInputEvent) :
    Stayed s (s.applyInput env event) := by
  have hrecorded : Stayed s (s.recordInput event) := input s _ s.calls
  unfold DestinationRelayAdapter.applyInput
  split
  · exact refl s
  · split_ifs
    · exact hrecorded.trans (forwardInput henv _ _ _ _)
    · exact hrecorded

theorem Stayed.hostFocusLost (s : DestinationRelayAdapter) (time : ℕ) :
    Stayed s (s.hostFocusLost env time) := by
  refine Cascade.foldl_invariant (P := Stayed s) ?_ (input s _ _)
  intro t effect _ ht
  refine ht.trans ?_
  unfold DestinationRelayAdapter.applyRelease
  split_ifs
  · exact refl t
  · split
    · exact refl t
    · exact refl t
    · split
      · exact refl t
      · exact forwardInput henv t _ _ _
    · exact (input t _ t.calls).trans (applyRequest henv _ _)

/-- The host moves nothing. -/
theorem Stayed.step (s : DestinationRelayAdapter) {event : DestinationEvent}
    (hport : event ≠ .pollFailed) (hrecord : ∀ record, event ≠ .record record) :
    Stayed s (s.step env event) := by
  cases event with
  | record record => exact absurd rfl (hrecord record)
  | pollFailed => exact absurd rfl hport
  | sendGamepad => exact sendGamepad henv s
  | gamepad use =>
      refine ⟨⟨rfl, rfl, rfl, fun hs => ?_, [], by simp [DestinationRelayAdapter.messages,
        DestinationRelayAdapter.step], rfl, by simp⟩, rfl, fun _ => rfl⟩
      change s.gamepad.map use = none
      rw [hs]
      rfl
  | applyRequest request => exact applyRequest henv s request
  | applyInput event => exact applyInput henv s event
  | hostFocusLost time => exact hostFocusLost henv s time
  | drainEvents =>
      exact ⟨⟨rfl, rfl, rfl, id, [], by simp [DestinationRelayAdapter.messages,
        DestinationRelayAdapter.step, DestinationRelayAdapter.drainEvents], rfl, by simp⟩, rfl,
        fun _ => rfl⟩
  | drainCursorUpdates =>
      exact ⟨⟨rfl, rfl, rfl, id, [], by simp [DestinationRelayAdapter.messages,
        DestinationRelayAdapter.step, DestinationRelayAdapter.drainCursorUpdates], rfl, by simp⟩,
        rfl, fun _ => rfl⟩

/-! ### Records -/

omit henv in
/-- The destination has not failed, and knows what the records tell. -/
structure Reflects (upstream : ClientSourceId) (m : Mirror) (s : DestinationRelayAdapter) :
    Prop where
  upstreamSource : s.upstreamSource = upstream
  alive : s.failed = false
  sessions : ∀ x, s.sessions.lookup x = m.sessions x
  own : ∀ x session, m.sessions x = some session → x.source = upstream
  cursors : ∀ x, m.sessions x ≠ none → s.recorded x = m.cursors x

omit henv in
theorem Reflects.stayed (h : Reflects upstream m s) (hs : Stayed s t) : Reflects upstream m t where
  upstreamSource := hs.upstreamSource.trans h.upstreamSource
  alive := hs.failed.trans h.alive
  sessions x := by
    rw [hs.sessions]
    exact h.sessions x
  own := h.own
  cursors x hx := by
    rw [DestinationRelayAdapter.recorded, DestinationRelayAdapter.relocated, hs.descriptor,
      hs.recorded]
    exact h.cursors x hx

omit henv in
/-- The surfaces of one source keep apart. -/
theorem Reflects.relocated_inj (h : Reflects upstream m s) {x y : ClientSurfaceId}
    (hsource : x.source = upstream) (hy : m.sessions y ≠ none)
    (hsame : s.relocated x = s.relocated y) : y = x := by
  obtain ⟨k, hk⟩ := Option.ne_none_iff_exists'.mp hy
  exact relocatedSurface_injOn ((h.own y k hk).trans hsource.symm) hsame.symm

section

variable (h : Reflects upstream m s)
include h

/-- Taking a surface away, with the port notified. -/
theorem Reflects.destroySurface (x : ClientSurfaceId) :
    Reflects upstream (m.forget x) (s.destroySurface env x) ∧
      Spoke [] s (s.destroySurface env x) := by
  have hdropped : Stayed s (s.dropCursor x) :=
    ⟨⟨rfl, rfl, rfl, id, [], by simp [DestinationRelayAdapter.messages,
      DestinationRelayAdapter.dropCursor], rfl, by simp⟩, rfl, fun _ => rfl⟩
  have hforget : ∀ {t : DestinationRelayAdapter}, Reflects upstream m t → x ∉ t.sessions →
      Reflects upstream (m.forget x) t := by
    intro t ht hx
    refine ⟨ht.upstreamSource, ht.alive, fun y => ?_, fun y session hy => ?_, fun y hy => ?_⟩
    · simp only [Mirror.forget, Function.update_apply]
      split_ifs with hyx
      · rw [hyx]
        exact AList.lookup_eq_none.mpr hx
      · exact ht.sessions y
    · simp only [Mirror.forget, Function.update_apply] at hy
      split_ifs at hy
      exact ht.own y session hy
    · simp only [Mirror.forget, Function.update_apply] at hy ⊢
      split_ifs at hy ⊢
      · exact absurd rfl hy
      · exact ht.cursors y hy
  unfold DestinationRelayAdapter.destroySurface
  split_ifs with hmem
  · have hretired : Reflects upstream (m.forget x) ((s.dropCursor x).retire env x) := by
      have hd := h.stayed hdropped
      refine ⟨hd.upstreamSource, hd.alive, fun y => ?_, fun y session hy => ?_, fun y hy => ?_⟩
      · change ((s.dropCursor x).sessions.erase x).lookup y = _
        rw [AList.lookup_erase_eq]
        simp only [Mirror.forget, Function.update_apply]
        split_ifs
        · rfl
        · exact hd.sessions y
      · simp only [Mirror.forget, Function.update_apply] at hy
        split_ifs at hy
        exact hd.own y session hy
      · simp only [Mirror.forget, Function.update_apply] at hy ⊢
        split_ifs at hy ⊢
        · exact absurd rfl hy
        · exact hd.cursors y hy
    have hspoke : Spoke [] s ((s.dropCursor x).retire env x) :=
      ⟨rfl, rfl, rfl, id, [], by simp [DestinationRelayAdapter.messages,
        DestinationRelayAdapter.dropCursor, DestinationRelayAdapter.retire], rfl, by simp⟩
    have hsaid := (submit henv ((s.dropCursor x).retire env x)
      (.routeUnmapped (s.relocated x)) rfl).trans (publish _ ⟨s.relocated x, .destroyed⟩)
    exact ⟨hretired.stayed hsaid, hspoke.trans hsaid.toSpoke⟩
  · exact ⟨hforget (h.stayed hdropped) hmem, hdropped.toSpoke⟩

/-- A surface that is new to the destination is mapped. -/
theorem Reflects.mapSurface (session : HoistSessionId) {x : ClientSurfaceId}
    (hsource : x.source = upstream) (hnew : m.sessions x = none) :
    Reflects upstream (m.step ⟨session, .mappedSurface x⟩) (s.mapSurface env session x).1 ∧
      Spoke [] s (s.mapSurface env session x).1 := by
  have hown : ¬ x.source ≠ s.upstreamSource := by
    rw [h.upstreamSource]
    exact not_not.mpr hsource
  have hlookup : s.sessions.lookup x = none := (h.sessions x).trans hnew
  have henlisted : Reflects upstream (m.step ⟨session, .mappedSurface x⟩) (s.enlist session x) := by
    refine ⟨h.upstreamSource, h.alive, fun y => ?_, fun y k hy => ?_, fun y hy => ?_⟩
    · change (s.sessions.insert x session).lookup y = _
      rw [AList.lookup_insert_eq]
      simp only [Mirror.step, Function.update_apply]
      split_ifs
      · rfl
      · exact h.sessions y
    · simp only [Mirror.step, Function.update_apply] at hy
      split_ifs at hy with hyx
      · rw [hyx]
        exact hsource
      · exact h.own y k hy
    · change lastCursor (s.relocated y) (s.trace ++ [.mapped (s.relocated x)]) = _
      simp only [Mirror.step, Function.update_apply] at hy ⊢
      rw [lastCursor_append, noteCursor]
      by_cases hyx : y = x
      · rw [hyx, if_pos rfl, if_pos rfl]
      · rw [if_neg hyx] at hy
        rw [if_neg hyx, if_neg fun hsame => hyx (h.relocated_inj hsource hy hsame)]
        exact h.cursors y hy
  have hspoke : Spoke [] s (s.enlist session x) :=
    ⟨rfl, rfl, rfl, id, [], by simp [DestinationRelayAdapter.messages,
      DestinationRelayAdapter.enlist], rfl, by simp⟩
  unfold DestinationRelayAdapter.mapSurface
  rw [if_neg hown]
  simp only [hlookup]
  have hport := submit henv (s.enlist session x) (.routeMapped x (s.relocated x)) rfl
  rw [destination_submit_eq henv] at hport ⊢
  have hsaid := hport.trans (refreshChildrenOf env _ x)
  exact ⟨henlisted.stayed hsaid, hspoke.trans hsaid.toSpoke⟩

/-- A cursor of a mapped surface is recorded, and acknowledged in any case. -/
theorem Reflects.applyCursor {update : ClientCursorUpdate} (sequence : ℕ)
    (hsource : update.surface.source = upstream)
    (hsession : ∀ k, m.sessions update.surface = some k → k = session) :
    Reflects upstream (m.step ⟨session, .cursor update sequence⟩)
        (s.applyCursor env session update sequence).1 ∧
      Spoke [⟨session, update.surface, sequence⟩] s
        (s.applyCursor env session update sequence).1 := by
  have hown : ¬ update.surface.source ≠ s.upstreamSource := by
    rw [h.upstreamSource]
    exact not_not.mpr hsource
  have hsay : ∀ {t : DestinationRelayAdapter} {m : Mirror}, Reflects upstream m t → Spoke [] s t →
      Reflects upstream m
          (t.sendDestination env session (.cursorReceived update.surface sequence)) ∧
        Spoke [⟨session, update.surface, sequence⟩] s
          (t.sendDestination env session (.cursorReceived update.surface sequence)) := by
    intro t m ht hspoke
    have hpolite : Polite t.upstreamSource ⟨session, .cursorReceived update.surface sequence⟩ := by
      constructor <;> simp
    obtain ⟨hsaid, hsessions, htrace⟩ := Spoke.sendDestination henv t fun _ => hpolite
    refine ⟨⟨hsaid.upstreamSource.trans ht.upstreamSource, hsaid.failed.trans ht.alive, fun y => ?_,
      ht.own, fun y hy => ?_⟩, hspoke.trans hsaid⟩
    · rw [hsessions]
      exact ht.sessions y
    · rw [DestinationRelayAdapter.recorded, DestinationRelayAdapter.relocated, hsaid.descriptor,
        htrace]
      exact ht.cursors y hy
  unfold DestinationRelayAdapter.applyCursor
  rw [if_neg hown]
  cases hlookup : s.sessions.lookup update.surface with
  | none =>
      have hnone : m.sessions update.surface = none := (h.sessions _).symm.trans hlookup
      have hstep : m.step ⟨session, .cursor update sequence⟩ = m := by
        simp only [Mirror.step, hnone, if_true]
      rw [hstep]
      exact hsay h (Spoke.refl s)
  | some current =>
      have hmapped : m.sessions update.surface = some current := (h.sessions _).symm.trans hlookup
      simp only [hsession current hmapped, ne_eq, not_true_eq_false, if_false]
      refine hsay ?_ ⟨rfl, rfl, rfl, id, [], by simp [DestinationRelayAdapter.messages,
        DestinationRelayAdapter.recordCursor], rfl, by simp⟩
      have hstep : m.step ⟨session, .cursor update sequence⟩ =
          ⟨m.sessions, Function.update m.cursors update.surface (some update.cursor)⟩ := by
        simp only [Mirror.step, hmapped, reduceCtorEq, if_false]
      rw [hstep]
      refine ⟨h.upstreamSource, h.alive, h.sessions, h.own, fun y hy => ?_⟩
      change lastCursor (s.relocated y)
        (s.trace ++ [.cursor (s.relocated update.surface) update.cursor]) = _
      simp only [Function.update_apply]
      rw [lastCursor_append, noteCursor]
      by_cases hyx : y = update.surface
      · rw [hyx, if_pos rfl, if_pos rfl]
      · rw [if_neg hyx, if_neg fun hsame => hyx (h.relocated_inj hsource hy hsame)]
        exact h.cursors y hy

/-- **The destination takes every record for what it is.** -/
theorem Reflects.applyRecord (haccepts : m.Accepts upstream record) :
    Reflects upstream (m.step record) (s.applyRecord env record).1 ∧
      Spoke record.cursorUpdate.toList s (s.applyRecord env record).1 := by
  obtain ⟨session, event⟩ := record
  cases event with
  | gamepad status =>
      have hsession : session = gamepadSession := haccepts
      have hstayed : Stayed s (s.observeGamepad status) := by
        refine ⟨⟨rfl, rfl, rfl, fun hs => ?_, [], by simp [DestinationRelayAdapter.messages,
          DestinationRelayAdapter.observeGamepad], rfl, by simp⟩, rfl, fun _ => rfl⟩
        change s.gamepad.map _ = none
        rw [hs]
        rfl
      simp only [DestinationRelayAdapter.applyRecord, hsession, ne_eq, not_true_eq_false, if_false]
      exact ⟨h.stayed hstayed, hstayed.toSpoke⟩
  | mappedSurface x => exact h.mapSurface henv session haccepts.1 haccepts.2
  | withdrawSurface x => exact h.destroySurface henv x
  | ended => exact haccepts.elim
  | cursor update sequence => exact h.applyCursor henv sequence haccepts.1 haccepts.2
  | surface event =>
      obtain ⟨hsource, hmapped, hlayer⟩ := haccepts
      have hown : ¬ event.surface.source ≠ s.upstreamSource := by
        rw [h.upstreamSource]
        exact not_not.mpr hsource
      have hlookup : ¬ s.sessions.lookup event.surface ≠ some session :=
        not_not.mpr ((h.sessions _).trans hmapped)
      simp only [DestinationRelayAdapter.applyRecord, DestinationRelayAdapter.applySurface]
      rw [if_neg hown, if_neg hlookup]
      obtain ⟨x, kind⟩ := event
      cases kind with
      | destroyed => exact h.destroySurface henv x
      | metadata metadata => exact ⟨h.stayed (publish s _), (publish s _).toSpoke⟩
      | commit commit => exact ⟨h.stayed (publish s _), (publish s _).toSpoke⟩
      | interaction kind => exact ⟨h.stayed (publish s _), (publish s _).toSpoke⟩
      | stateRequest kind => exact ⟨h.stayed (publish s _), (publish s _).toSpoke⟩
      | role role =>
          have hset : Stayed s (s.setRole x role) :=
            ⟨⟨rfl, rfl, rfl, id, [], by simp [DestinationRelayAdapter.messages,
              DestinationRelayAdapter.setRole], rfl, by simp⟩, rfl, fun _ => rfl⟩
          have hrole := hset.trans (publishRole _ x role)
          cases role with
          | layer => exact absurd rfl hlayer
          | toplevel | popup => exact ⟨h.stayed hrole, hrole.toSpoke⟩

end

end Destination

/-! ### Between two calls -/

variable {records : List DestinationPortRecord}

section Source

variable {calm : Prop} {upstream : ClientSourceId} {past : List DestinationPortRecord} {r : ℕ}
  {acks : List CursorInFlight} {late : List ClientSurfaceId} {s : SourceRelayAdapter}

/-- A call begins. -/
theorem Conveys.calmed (h : Conveys False upstream past r acks late s)
    (halive : calm → s.failed = false ∧ s.admission = .manual)
    (hnext : calm → s.nextCursorSequence ≠ none) :
    Conveys calm upstream s.stream r acks late s := by
  refine ⟨⟨halive, h.wellFormed, h.own, h.mapped, h.unmapped, h.sent, ⟨?_, List.prefix_rfl⟩,
    h.increasing, h.below, h.single, h.inFlight, fun hc hnone => absurd hnone (hnext hc),
    h.upstream⟩, h.offered, h.idle⟩
  exact h.received.1.trans h.received.2.length_le

/-- A call is over. -/
theorem Conveys.settled (h : Conveys calm upstream past r acks late s) :
    Conveys False upstream s.stream r acks late s := by
  refine ⟨⟨False.elim, h.wellFormed, h.own, h.mapped, h.unmapped, h.sent, ⟨?_, List.prefix_rfl⟩,
    h.increasing, h.below, h.single, h.inFlight, False.elim, h.upstream⟩, h.offered, h.idle⟩
  exact h.received.1.trans h.received.2.length_le

/-- The next record arrives, and its acknowledgement is on its way. -/
theorem Conveys.delivered (h : Conveys False upstream s.stream r acks late s)
    (hrecords : s.stream.drop r = record :: records) :
    Conveys False upstream s.stream (r + 1) (acks ++ record.cursorUpdate.toList) late s := by
  have hdrop : s.stream.drop (r + 1) = records := by
    rw [← List.drop_drop, hrecords]
    rfl
  have hsplit : acks ++ cursorUpdates (s.stream.drop r) =
      acks ++ record.cursorUpdate.toList ++ cursorUpdates (s.stream.drop (r + 1)) := by
    rw [hdrop, hrecords, cursorUpdates, List.filterMap_cons, List.append_assoc]
    cases record.cursorUpdate <;> rfl
  refine ⟨⟨h.alive, h.wellFormed, h.own, h.mapped, h.unmapped, h.sent, ⟨?_, List.prefix_rfl⟩,
    h.increasing, h.below, ?_, ?_, h.fresh, h.upstream⟩, h.offered, h.idle⟩
  · have hlength := congrArg List.length hrecords
    rw [List.length_drop, List.length_cons] at hlength
    omega
  · rw [← hsplit]
    exact h.single
  · rw [← hsplit]
    exact h.inFlight

end Source

/-! ### The pair -/

/-- Access is not revoked while the source works. -/
def PairEvent.Authorized : PairEvent → Prop
  | .source env _ | .poll env _ => ∀ i, env.authorized i = true
  | .destination _ | .deliver => True

namespace RelayPair

/-- The records the destination was handed. -/
def handed (p : RelayPair) : List DestinationPortRecord := p.source.stream.take p.received

/-- The source has a sequence number left, and is handed no message for a surface that is mapped
under another session. -/
def InOrder (p : RelayPair) : PairEvent → Prop
  | .source _ _ => p.source.nextCursorSequence ≠ none
  | .poll env count => p.source.nextCursorSequence ≠ none ∧
      SourceRelayAdapter.Along env Current
        ((({ p.source with calls := 0 } : SourceRelayAdapter).beginPoll env).prepareBatch env)
        (p.messages.take count)
  | .destination _ | .deliver => True

/-- The source conveys what it knows, the destination reflects what it was told, and in calm
surroundings the source is alive and the messages to it are polite. -/
structure Sound (calm : Prop) (upstream : ClientSourceId) (p : RelayPair) : Prop where
  source : Conveys False upstream p.source.stream p.received (acknowledgements p.messages) []
    p.source
  alive : calm → p.source.failed = false ∧ p.source.admission = .manual
  destination : Reflects upstream (Mirror.replay p.handed) p.destination
  quiet : calm → p.destination.gamepad = none
  polite : calm → ∀ envelope ∈ p.destination.messages, Polite upstream envelope
  consumed : p.consumed ≤ p.destination.messages.length

section Pair

variable {calm : Prop} {upstream : ClientSourceId} {env : DestinationEnvironment} {p : RelayPair}

theorem sound_new (upstream descriptor : ClientSourceId) (admission : SourceAdmission)
    (provider access : Bool) {gamepad : Option Pending}
    (hcalm : calm → admission = .manual ∧ gamepad = none) :
    Sound calm upstream (new upstream descriptor admission provider access gamepad) where
  source := by
    have hmappings : ∀ x, x ∉ (∅ : Dict ClientSurfaceId HoistSessionId) := AList.notMem_empty
    refine ⟨⟨False.elim, History.each_nil, fun x hx => absurd hx (hmappings x), fun x session hx => ?_,
      fun _ _ _ => rfl, fun _ x cursor hx => ?_, ⟨le_rfl, List.prefix_rfl⟩, List.Pairwise.nil,
      fun _ _ q hq => ?_, Nat.zero_le 1, fun _ => rfl, False.elim, rfl⟩,
      fun _ x hx => absurd hx (hmappings x), fun _ => rfl⟩
    · have hnone : (none : Option HoistSessionId) = some session := hx
      cases hnone
    · have hnone : (none : Option ClientCursor) = some cursor := hx
      cases hnone
    · exact absurd hq List.not_mem_nil
  alive hc := ⟨rfl, (hcalm hc).1⟩
  destination := by
    refine ⟨rfl, rfl, fun _ => rfl, fun x session hx => ?_, fun x hx => absurd rfl hx⟩
    have hnone : (none : Option HoistSessionId) = some session := hx
    cases hnone
  quiet hc := (hcalm hc).2
  polite _ envelope henvelope := absurd henvelope List.not_mem_nil
  consumed := le_rfl

/-- The source has done something; `acks` had been on their way before. -/
theorem Sound.advance (h : Sound calm upstream p) {t : SourceRelayAdapter} (consumed : ℕ)
    (hs : Conveys calm upstream p.source.stream p.received
      (acknowledgements (p.destination.messages.drop consumed)) [] t)
    (hconsumed : consumed ≤ p.destination.messages.length) :
    Sound calm upstream { p with source := t, consumed := consumed } := by
  have hhanded : t.stream.take p.received = p.source.stream.take p.received := by
    obtain ⟨more, hmore⟩ := hs.received.2
    rw [← hmore, List.take_append_of_le_length hs.received.1]
  refine ⟨hs.settled, hs.alive, ?_, h.quiet, h.polite, hconsumed⟩
  change Reflects upstream (Mirror.replay (t.stream.take p.received)) p.destination
  rw [hhanded]
  exact h.destination

/-- The destination has spoken. -/
theorem Sound.spoke (h : Sound calm upstream p) {t : DestinationRelayAdapter}
    {acks : List CursorInFlight} (hs : Spoke acks p.destination t) :
    (calm → t.gamepad = none) ∧ (calm → ∀ envelope ∈ t.messages, Polite upstream envelope) ∧
      p.consumed ≤ t.messages.length ∧
      acknowledgements (t.messages.drop p.consumed) = acknowledgements p.messages ++ acks := by
  obtain ⟨more, hmore, hacks, hpolite⟩ := hs.messages
  refine ⟨fun hc => hs.gamepad (h.quiet hc), fun hc envelope henvelope => ?_, ?_, ?_⟩
  · rw [hmore] at henvelope
    rcases List.mem_append.mp henvelope with hmem | hmem
    · exact h.polite hc envelope hmem
    · rw [← h.destination.upstreamSource]
      exact hpolite (h.quiet hc) envelope hmem
  · rw [hmore, List.length_append]
    exact Nat.le_add_right_of_le h.consumed
  · rw [hmore, List.drop_append_of_le_length h.consumed, acknowledgements_append, hacks]
    rfl

/-- The records the destination has not been handed are well formed, given the others. -/
theorem Sound.accepts (h : Sound calm upstream p) (hrecords : p.records = record :: records) :
    (Mirror.replay p.handed).Accepts upstream record ∧
      p.source.stream.take (p.received + 1) = p.handed ++ [record] := by
  have hstream : p.source.stream = p.handed ++ record :: records := by
    have hall := List.take_append_drop p.received p.source.stream
    rw [show p.source.stream.drop p.received = record :: records from hrecords] at hall
    exact hall.symm
  have hlength : p.handed.length = p.received := by
    rw [handed, List.length_take]
    exact min_eq_left h.source.received.1
  constructor
  · have haccepts := h.source.wellFormed p.handed record records hstream
    rw [h.source.upstream] at haccepts
    exact haccepts
  · rw [hstream, List.take_append, hlength, Nat.add_sub_cancel_left, List.take_of_length_le]
    · rfl
    · omega

/-- **Every event keeps the invariant**, in calm surroundings if no message crosses sessions. -/
theorem Sound.step (henv : env.ErrorFree) (h : Sound calm upstream p) {e : PairEvent}
    (he : e.Conforms) (hcalm : calm → e.Authorized ∧ p.InOrder e) :
    Sound calm upstream (p.step env e) := by
  cases e with
  | source senv call =>
      have hconforming : Conforming calm senv := ⟨he.1, fun hc => (hcalm hc).1⟩
      refine h.advance p.consumed ?_ h.consumed
      exact (h.source.calmed h.alive fun hc => (hcalm hc).2).step hconforming he.2.1 he.2.2
  | poll senv count =>
      have hconforming : Conforming calm senv := ⟨he, fun hc => (hcalm hc).1⟩
      have hstart := h.source.calmed h.alive fun hc => (hcalm hc).2.1
      have hrest : p.destination.messages.drop (p.consumed + (p.messages.take count).length) =
          p.messages.drop count := by
        have hmessages : p.destination.messages.drop p.consumed = p.messages := rfl
        rw [← List.drop_drop, hmessages, List.length_take]
        exact List.drop_eq_drop_min.symm
      have hsplit : acknowledgements p.messages =
          acknowledgements (p.messages.take count) ++ acknowledgements (p.messages.drop count) := by
        rw [← acknowledgements_append, List.take_append_drop]
      rw [hsplit] at hstart
      refine h.advance _ ?_ ?_
      · rw [hrest]
        have hrestarted := Conveys.same (SamePort.restart p.source) hstart
        refine hrestarted.poll hconforming ?_ fun hc => (hcalm hc).2.2
        intro hc envelope henvelope
        exact h.polite hc envelope (List.mem_of_mem_drop (List.mem_of_mem_take henvelope))
      · have hlength : (p.messages.take count).length ≤
            p.destination.messages.length - p.consumed := by
          rw [List.length_take, messages, List.length_drop]
          exact min_le_right _ _
        have hconsumed := h.consumed
        omega
  | destination event =>
      have hstayed := Stayed.step henv p.destination he.1 he.2
      obtain ⟨hquiet, hpolite, hconsumed, hacks⟩ := h.spoke hstayed.toSpoke
      refine ⟨?_, h.alive, h.destination.stayed hstayed, hquiet, hpolite, hconsumed⟩
      change Conveys False upstream p.source.stream p.received
        (acknowledgements ((p.destination.step env event).messages.drop p.consumed)) [] p.source
      rw [hacks, List.append_nil]
      exact h.source
  | deliver =>
      simp only [RelayPair.step, deliver]
      split
      · exact h
      · rename_i record records hrecords
        obtain ⟨haccepts, hhanded⟩ := h.accepts hrecords
        obtain ⟨hreflects, hspoke⟩ := h.destination.applyRecord henv haccepts
        obtain ⟨hquiet, hpolite, hconsumed, hacks⟩ := h.spoke hspoke
        refine ⟨?_, h.alive, ?_, hquiet, hpolite, hconsumed⟩
        · change Conveys False upstream p.source.stream (p.received + 1)
            (acknowledgements ((p.destination.step env (.record record)).messages.drop p.consumed))
            [] p.source
          have hdelivered := h.source.delivered hrecords
          rw [← hacks] at hdelivered
          exact hdelivered
        · change Reflects upstream (Mirror.replay (p.source.stream.take (p.received + 1))) _
          rw [hhanded, Mirror.replay_append_singleton]
          exact hreflects

/-! ### Whole runs -/

/-- **Neither relay fails** while access is not revoked, as long as no message arrives for a surface
that is mapped under another session by then and sequence numbers are left. -/
theorem neither_fails (henv : env.ErrorFree) (upstream descriptor : ClientSourceId)
    (provider access : Bool) {es : List PairEvent}
    (hconforms : ∀ e ∈ es, e.Conforms ∧ e.Authorized)
    (hmeets : Meets (step env) InOrder
      (new upstream descriptor .manual provider access none) es) :
    let p := exec (step env) (new upstream descriptor .manual provider access none) es
    p.source.failed = false ∧ p.destination.failed = false := by
  intro p
  have hall : Meets (step env) (fun q e => (e.Conforms ∧ e.Authorized) ∧ q.InOrder e)
      (new upstream descriptor .manual provider access none) es :=
    hmeets.imp_mem fun q e he hok => ⟨hconforms e he, hok⟩
  have hp : Sound True upstream p := hall.invariant (P := Sound True upstream)
    (fun q e hq he => hq.step henv he.1.1 fun _ => ⟨he.1.2, he.2⟩)
    (sound_new upstream descriptor .manual provider access fun _ => ⟨rfl, rfl⟩)
  exact ⟨(hp.alive trivial).1, hp.destination.alive⟩

end Pair

/-! ### Late messages -/

/-- Two windows of the source. -/
def firstWindow : ClientSurfaceId := ⟨⟨0, 0⟩, 1⟩

def secondWindow : ClientSurfaceId := ⟨⟨0, 0⟩, 2⟩

/-- A window is observed and mapped, and the destination hears of it. -/
def mapRun (session : HoistSessionId) (window : ClientSurfaceId) : List PairEvent :=
  [.source {} (.observe ⟨window, .role (.toplevel {})⟩), .source {} (.map session window), .deliver,
    .deliver]

/-- The window hides the cursor, and the update is acknowledged. -/
def cursorRun : List PairEvent :=
  mapRun 1 firstWindow ++ [.source {} (.observeCursorUpdate ⟨firstWindow, .hidden⟩), .deliver,
    .poll {} 1, .deliver]

/-- The destination asks to close the window. -/
def closeRun : List PairEvent :=
  mapRun 1 firstWindow ++
    [.destination (.applyRequest (.surface ⟨relocatedSurface 1 firstWindow, .close⟩))]

/-- The window is mapped again before the request arrives. -/
def remapRun : List PairEvent :=
  closeRun ++ [.source {} (.unmap firstWindow), .source {} (.map 2 firstWindow), .poll {} 1]

/-- The focus moves to a window that is unmapped already, and is cleared there. -/
def refocusRun : List PairEvent :=
  mapRun 1 firstWindow ++ mapRun 2 secondWindow ++
    [.source {} (.unmap secondWindow),
      .destination (.applyRequest (.focus ⟨1, some (relocatedSurface 1 firstWindow)⟩)),
      .destination (.applyRequest (.focus ⟨1, some (relocatedSurface 1 secondWindow)⟩)),
      .destination (.applyRequest (.focus ⟨1, none⟩)), .poll {} 3]

theorem errorFree_default : ({} : SourceEnvironment).ErrorFree :=
  ⟨fun _ => rfl, fun _ => rfl, fun _ => rfl, fun _ _ claim => ⟨claim, rfl⟩⟩

/-- A request that arrives in time is no harm. -/
theorem neither_fails_of_close :
    (exec (step {}) (new 0 1 .manual false false none)
      (closeRun ++ [.poll {} 1])).source.failed = false := by
  have hconforms : ∀ e ∈ closeRun ++ [.poll {} 1], e.Conforms ∧ e.Authorized := by
    simp [closeRun, mapRun, PairEvent.Conforms, PairEvent.Authorized, errorFree_default]
  have hcurrent : ∀ s : SourceRelayAdapter, s.mappings.lookup firstWindow = some 1 →
      Current s ⟨1, .request (.surface ⟨firstWindow, .close⟩)⟩ := by
    intro s hs x session hx hsession
    obtain rfl : firstWindow = x := Option.some.inj hx
    exact Option.some.inj (hsession.symm.trans hs)
  have hmessages : (exec (step {}) (new 0 1 .manual false false none)
      closeRun).messages.take 1 = [⟨1, .request (.surface ⟨firstWindow, .close⟩)⟩] := by
    decide
  have hpoll : (exec (step {}) (new 0 1 .manual false false none) closeRun).InOrder
      (.poll {} 1) := by
    refine ⟨by decide, ?_⟩
    rw [hmessages]
    exact ⟨hcurrent _ (by decide), fun _ => trivial⟩
  have hsource : ∀ (p : RelayPair) (senv : SourceEnvironment) (call : SourceCall),
      p.source.nextCursorSequence ≠ none → p.InOrder (.source senv call) := fun _ _ _ h => h
  have hmeets : Meets (step {}) InOrder (new 0 1 .manual false false none)
      (closeRun ++ [.poll {} 1]) :=
    ⟨hsource _ _ _ (by decide), hsource _ _ _ (by decide), trivial, trivial, trivial, hpoll, trivial⟩
  have henv : ({} : DestinationEnvironment).ErrorFree := fun _ => rfl
  exact (neither_fails henv 0 1 false false hconforms hmeets).1

/-- **Late messages disconnect**: a request for a window that was mapped again under a fresh session
since then, and a focus clear after a focus request that was ignored, fail the source. -/
theorem late_messages_disconnect :
    (∀ e ∈ remapRun ++ refocusRun, e.Conforms ∧ e.Authorized) ∧
      (exec (step {}) (new 0 1 .manual false false none) remapRun).source.failed =
        true ∧
      (exec (step {}) (new 0 1 .manual false false none) refocusRun).source.failed =
        true := by
  refine ⟨?_, by decide, by decide⟩
  simp [remapRun, refocusRun, closeRun, mapRun, PairEvent.Conforms, PairEvent.Authorized,
    errorFree_default]

end RelayPair

end Hoist
