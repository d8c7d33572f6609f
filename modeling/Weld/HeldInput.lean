/-
**The ledger of held input is exact.**

What a seat holds after everything a relay emitted is what the relay's ledger says: every forwarded
press is recorded, every recorded press is released when its surface or the peer goes.

The one exception is in the source: a ledger entry is replaced by the next press of the same key or
button, but gestures are pushed, so a second gesture of one kind on another surface leaves two
entries, and releasing one of them ends the gesture at the seat while the other entry stays.  The
results are about runs in which no gesture begins while one of its kind is open on another surface.

Main definitions: `RemoteInputState.GesturesApart`, `SourceRelayAdapter.Overlaps`, `InStep`.

Main results:

* `RemoteInputState.replay_releases` — releasing does to the seat what it does to the ledger;
* `HostedRelay.ledger_exact` — the ledger is exact in every run without overlapping gestures;
* `HostedRelay.overlapping_gestures_diverge` — with one, it is not.
-/

import Weld.SourceRelayInvariant
import Weld.Transition

namespace Hoist

open Client Gamepad TouchLedger Transition AList

/-! ### What a seat holds after a list of releases -/

namespace Seat

variable (s : Seat)

@[simp] theorem replay_nil : s.replay [] = s := rfl

@[simp] theorem replay_input (input : ClientInputEvent) (effects : List ClientAdapterEffect) :
    s.replay (.input input :: effects) = (s.observe input).replay effects := rfl

@[simp] theorem replay_request (request : ClientRequest) (effects : List ClientAdapterEffect) :
    s.replay (.request request :: effects) = s.replay effects := rfl

theorem replay_append (es fs : List ClientAdapterEffect) :
    s.replay (es ++ fs) = (s.replay es).replay fs :=
  List.foldl_append ..

theorem replay_requests {α : Type} (l : List α) (f : α → ClientRequest) :
    s.replay (l.map fun a => .request (f a)) = s := by
  induction l with
  | nil => rfl
  | cons a l ih => rw [List.map_cons, replay_request, ih]

theorem replay_cancels (targets : List ClientInputTarget) (time : ℕ) :
    s.replay ((targets.map fun target => ⟨target, none, .touch .cancel, time⟩).map .input) =
      { s with
        contacts := fun id => (s.contacts id).filter fun target => decide (target ∉ targets)
        unframed := fun target => s.unframed target && decide (target ∉ targets) } := by
  induction targets generalizing s with
  | nil =>
      have hkeep : ∀ o : Option ClientInputTarget, o.filter (fun _ => true) = o := by
        intro o
        cases o <;> rfl
      simp [hkeep]
  | cons target targets ih =>
      rw [List.map_cons, List.map_cons, replay_input, ih]
      simp only [observe, observeTouch, mk.injEq, true_and]
      refine ⟨funext fun id => ?_, funext fun other => ?_⟩
      · rw [Option.filter_filter]
        congr 1
        funext current
        by_cases h : current = target
        · simp [h]
        · simp [h]
      · by_cases h : other = target
        · simp [h]
        · simp [h]

theorem replay_buttons (l : List LinuxButtonCode) (f : LinuxButtonCode → Option ClientInputEvent)
    (hf : ∀ b e, f b = some e → ∃ p, e.event = .pointerButton p b .released) :
    s.replay ((l.filterMap f).map .input) =
      { s with
        buttons := fun b => if b ∈ l ∧ (f b).isSome = true then none else s.buttons b } := by
  induction l generalizing s with
  | nil => simp
  | cons a l ih =>
      cases ha : f a with
      | none =>
          rw [List.filterMap_cons_none ha, ih]
          congr 1
          funext b
          by_cases hb : b = a
          · simp [hb, ha]
          · simp [hb]
      | some e =>
          obtain ⟨p, hp⟩ := hf a e ha
          rw [List.filterMap_cons_some ha, List.map_cons, replay_input, ih]
          simp only [observe, hp, mk.injEq, true_and]
          refine ⟨funext fun b => ?_, trivial⟩
          by_cases hb : b = a
          · simp [hb, ha]
          · simp [hb]

theorem replay_keys (l : List LinuxKeycode) (f : LinuxKeycode → Option ClientInputEvent)
    (hf : ∀ k e, f k = some e → e.event = .keyboard k .released) :
    s.replay ((l.filterMap f).map .input) =
      { s with keys := fun k => if k ∈ l ∧ (f k).isSome = true then none else s.keys k } := by
  induction l generalizing s with
  | nil => simp
  | cons a l ih =>
      cases ha : f a with
      | none =>
          rw [List.filterMap_cons_none ha, ih]
          congr 1
          funext b
          by_cases hb : b = a
          · simp [hb, ha]
          · simp [hb]
      | some e =>
          rw [List.filterMap_cons_some ha, List.map_cons, replay_input, ih]
          simp only [observe, hf a e ha, mk.injEq, and_true]
          funext b
          by_cases hb : b = a
          · simp [hb, ha]
          · simp [hb]

theorem replay_gestures (l : List (PointerGestureKind × ClientInputTarget)) (time : ℕ) :
    s.replay ((l.map fun capture =>
        ⟨capture.2, none, .pointerGesture capture.1.cancelled, time⟩).map .input) =
      { s with
        gestures := fun kind =>
          if l.any (fun c => c.1 == kind) = true then none else s.gestures kind } := by
  induction l generalizing s with
  | nil => simp
  | cons c l ih =>
      rw [List.map_cons, List.map_cons, replay_input, ih]
      simp only [observe, PointerGestureKind.isBegin_cancelled, PointerGestureKind.isEnd_cancelled,
        PointerGestureKind.kind_cancelled, if_true, mk.injEq, true_and, and_true, Bool.false_eq_true,
        if_false]
      funext kind
      by_cases hk : c.1 = kind
      · subst hk
        simp
      · have hne : kind ≠ c.1 := fun h => hk h.symm
        rw [Function.update_of_ne hne, List.any_cons, beq_false_of_ne hk, Bool.false_or]

/-- A seat that holds nothing holds nothing anywhere. -/
theorem not_holds_empty (surface : ClientSurfaceId) : ¬ empty.Holds surface := by
  simp [Holds, HasTarget, empty]

end Seat

/-! ### The ledger as a seat -/

theorem latestGesture_eq (gestures : List (PointerGestureKind × ClientInputTarget))
    (kind : PointerGestureKind) :
    latestGesture gestures kind =
      ((gestures.filter fun capture => capture.1 == kind).getLast?).map (·.2) := by
  rw [latestGesture, List.findRev?_eq_find?_reverse, ← List.head?_filter, List.filter_reverse,
    List.head?_reverse]

variable {s : Seat}

namespace RemoteInputState

/-- The open gestures of one kind are on one surface. -/
def GesturesApart (r : RemoteInputState) : Prop :=
  ∀ c ∈ r.gestures, ∀ c' ∈ r.gestures, c.1 = c'.1 → c.2.surface = c'.2.surface

variable {r : RemoteInputState} {p : ClientSurfaceId → Bool} {α : Type}

/-- What is left of one kind when the captures on some surfaces go: all or nothing. -/
theorem latestGesture_release (h : r.GesturesApart)
    (p : ClientSurfaceId → Bool) (kind : PointerGestureKind) :
    latestGesture (r.gestures.filter fun c => !p c.2.surface) kind =
      if (r.gestures.filter fun c => p c.2.surface).any (fun c => c.1 == kind) = true then none
      else latestGesture r.gestures kind := by
  rw [latestGesture_eq, latestGesture_eq, List.filter_filter]
  split_ifs with hreleased
  · obtain ⟨c, hc, hkind⟩ := List.any_eq_true.mp hreleased
    rw [List.mem_filter] at hc
    rw [beq_iff_eq] at hkind
    have hnone : (r.gestures.filter fun c' => c'.1 == kind && !p c'.2.surface) = [] := by
      rw [List.filter_eq_nil_iff]
      intro c' hc' hsame
      rw [Bool.and_eq_true, beq_iff_eq] at hsame
      have hsurface := h c' hc' c hc.1 (by rw [hsame.1, hkind])
      rw [hsurface, hc.2] at hsame
      exact absurd hsame.2 (by decide)
    rw [hnone]
    rfl
  · have hsame : (r.gestures.filter fun c => c.1 == kind && !p c.2.surface) =
        r.gestures.filter fun c => c.1 == kind := by
      refine List.filter_congr fun c hc => ?_
      by_cases hkind : c.1 = kind
      · have hkeep : p c.2.surface = false := by
          by_contra hp
          rw [Bool.not_eq_false] at hp
          refine hreleased (List.any_eq_true.mpr ⟨c, List.mem_filter.mpr ⟨hc, hp⟩, ?_⟩)
          rw [beq_iff_eq, hkind]
        simp [hkeep]
      · simp [hkind]
    rw [hsame]

variable {e : ClientInputEvent} {f : α → Option ClientInputTarget} {a b : α}

theorem buttonRelease_event {b : LinuxButtonCode} (h : r.buttonRelease p b = some e) :
    ∃ position, e.event = .pointerButton position b .released := by
  unfold buttonRelease at h
  split at h
  · split_ifs at h
    cases h
    exact ⟨_, rfl⟩
  · cases h

theorem keyRelease_event {k : LinuxKeycode}
    (h : r.keyRelease p k = some e) : e.event = .keyboard k .released := by
  unfold keyRelease at h
  split at h
  · split_ifs at h
    cases h
    rfl
  · cases h

theorem replay_scrollRelease (r : RemoteInputState) (p : ClientSurfaceId → Bool)
    (hs : s.scroll = r.fingerScroll.map (·.target)) :
    s.replay ((r.scrollRelease p).map .input) =
      { s with
        scroll := (r.fingerScroll.filter fun scroll => !p scroll.target.surface).map
          (·.target) } := by
  unfold scrollRelease
  cases hfinger : r.fingerScroll with
  | none =>
      rw [hfinger] at hs
      simp [← hs]
  | some scroll =>
      rw [hfinger] at hs
      cases hp : p scroll.target.surface with
      | true => simp [hp, Option.filter, Seat.observe, RawScrollFrame.cancelledFinger]
      | false => simp [hp, Option.filter, ← hs]

/-- **Releasing does to the seat what it does to the ledger.** -/
theorem replay_releases (h : r.GesturesApart) (orders : InputOrders)
    (call : ℕ) (p : ClientSurfaceId → Bool) :
    r.held.replay ((r.releases orders call p).map .input) = (r.forget orders call p).held := by
  simp only [releases, List.map_append, Seat.replay_append]
  rw [Seat.replay_cancels, Seat.replay_buttons _ _ _ fun _ _ => buttonRelease_event,
    Seat.replay_keys _ _ _ fun _ _ => keyRelease_event, Seat.replay_gestures,
    replay_scrollRelease r p rfl]
  simp only [held, forget, retire, Seat.mk.injEq]
  refine ⟨?_, ?_, ?_, trivial, ?_, ?_⟩
  · funext k
    cases hk : r.keys.lookup k with
    | none => simp [hk, keyRelease]
    | some capture =>
        cases hp : p capture.target.surface <;>
          simp [hk, hp, Option.filter, keyRelease, mem_keys_of_lookup hk]
  · funext b
    cases hb : r.buttons.lookup b with
    | none => simp [hb, buttonRelease]
    | some capture =>
        cases hp : p capture.1.surface <;>
          simp [hb, hp, Option.filter, buttonRelease, mem_keys_of_lookup hb]
  · funext kind
    exact (latestGesture_release h p kind).symm
  · funext id
    rw [lookup_retain]
    rfl
  · funext target
    rw [Bool.eq_iff_iff]
    simp only [Bool.and_eq_true, decide_eq_true_eq, List.mem_filter]
    exact and_congr_right fun _ => decide_eq_true_iff

/-- Forgetting keeps the open gestures apart. -/
theorem GesturesApart.forget (h : r.GesturesApart) (orders : InputOrders)
    (call : ℕ) (p : ClientSurfaceId → Bool) : (r.forget orders call p).GesturesApart :=
  fun c hc c' hc' => h c (List.mem_of_mem_filter hc) c' (List.mem_of_mem_filter hc')

/-- A gesture of this kind is open on another surface. -/
def OpenElsewhere (r : RemoteInputState) (kind : PointerGestureKind) (surface : ClientSurfaceId) :
    Prop :=
  ∃ c ∈ r.gestures, c.1 = kind ∧ c.2.surface ≠ surface

/-! ### One input -/

theorem observe_gesture (r : RemoteInputState) (input : ClientInputEvent)
    {gesture : PointerGesture} (hevent : input.event = .pointerGesture gesture) :
    (r.observeInput input).1.held = r.held.observe input := by
  simp only [observeInput, observeGesture, hevent, Seat.observe]
  split_ifs with hbegin hend
  · simp only [held, Seat.mk.injEq, true_and, and_true]
    funext kind
    rw [latestGesture_eq, List.filter_append]
    by_cases hkind : kind = gesture.kind
    · subst hkind
      simp
    · have hne : gesture.kind ≠ kind := fun h => hkind h.symm
      rw [Function.update_of_ne hkind, latestGesture_eq,
        List.filter_cons_of_neg (by simpa using hne), List.filter_nil, List.append_nil]
  · simp only [held, Seat.mk.injEq, true_and, and_true]
    funext kind
    rw [latestGesture_eq, List.filter_filter]
    by_cases hkind : kind = gesture.kind
    · subst hkind
      have hnone : (r.gestures.filter fun c => c.1 == gesture.kind && c.1 != gesture.kind) = [] := by
        rw [List.filter_eq_nil_iff]
        intro c _ hc
        simp at hc
      rw [hnone, Function.update_self]
      rfl
    · rw [Function.update_of_ne hkind, latestGesture_eq]
      congr 2
      refine List.filter_congr fun c _ => ?_
      by_cases hc : c.1 = kind
      · simp [hc, hkind]
      · simp [hc]
  · rfl

theorem observe_touch (l : TouchLedger) (target : ClientInputTarget) (event : TouchEvent) (s : Seat)
    (hcontacts : s.contacts = l.contacts.lookup)
    (hunframed : s.unframed = fun t => decide (t ∈ l.pending))
    (haccepts : l.accepts target event = true) :
    s.observeTouch target event =
      { s with
        contacts := (l.observe target event).1.contacts.lookup
        unframed := fun t => decide (t ∈ (l.observe target event).1.pending) } := by
  have hpending : ∀ pending : List ClientInputTarget,
      (fun t => decide (t ∈ if target ∈ pending then pending else pending ++ [target])) =
        Function.update (fun t => decide (t ∈ pending)) target true := by
    intro pending
    funext t
    by_cases ht : t = target
    · subst ht
      by_cases hmem : t ∈ pending <;> simp [hmem]
    · by_cases hmem : target ∈ pending <;> simp [hmem, ht]
  have hframe : ∀ pending : List ClientInputTarget,
      (fun t => decide (t ∈ pending.filter (· != target))) =
        Function.update (fun t => decide (t ∈ pending)) target false := by
    intro pending
    funext t
    by_cases ht : t = target
    · subst ht
      simp
    · simp [ht]
  simp only [observe, haccepts, if_true]
  cases event with
  | down id position =>
      simp only [Seat.observeTouch, touchContacts, touchPending,
        hcontacts, hunframed, Seat.mk.injEq, true_and]
      refine ⟨funext fun other => ?_, (hpending _).symm⟩
      by_cases h : other = id
      · subst h
        simp
      · simp [h]
  | motion id position =>
      simp only [Seat.observeTouch, touchContacts, touchPending,
        hcontacts, hunframed, Seat.mk.injEq, true_and]
      exact (hpending _).symm
  | up id =>
      simp only [Seat.observeTouch, touchContacts, touchPending,
        hcontacts, hunframed, Seat.mk.injEq, true_and]
      refine ⟨funext fun other => ?_, (hpending _).symm⟩
      by_cases h : other = id
      · subst h
        simp
      · simp [h]
  | frame =>
      simp only [Seat.observeTouch, touchContacts, touchPending,
        hcontacts, hunframed, Seat.mk.injEq, true_and]
      exact (hframe _).symm
  | cancel =>
      simp only [Seat.observeTouch, touchContacts, touchPending,
        hcontacts, hunframed, Seat.mk.injEq, true_and]
      refine ⟨funext fun id => ?_, (hframe _).symm⟩
      rw [lookup_retain]

/-- **A forwarded input changes the seat as it changes the ledger.** -/
theorem held_observeInput (r : RemoteInputState) (input : ClientInputEvent)
    (h : (r.observeInput input).2 = true) :
    (r.observeInput input).1.held = r.held.observe input := by
  obtain ⟨target, host, event, time⟩ := input
  cases event with
  | pointerGesture gesture => exact observe_gesture r _ rfl
  | touch event =>
      have haccepts : r.touch.accepts target event = true := by
        by_contra hno
        simp [observeInput, observe, hno] at h
      simp only [Seat.observe]
      rw [observe_touch r.touch target event r.held rfl rfl haccepts]
      rfl
  | keyboard keycode state =>
      cases state with
      | pressed =>
          refine Seat.ext (funext fun k => ?_) rfl rfl rfl rfl rfl
          simp only [observeInput, observeKey, held, Seat.observe, lookup_insert_eq]
          by_cases hk : k = keycode
          · simp [hk]
          · simp [hk]
      | released =>
          refine Seat.ext (funext fun k => ?_) rfl rfl rfl rfl rfl
          simp only [observeInput, observeKey, held, Seat.observe, lookup_erase_eq]
          by_cases hk : k = keycode
          · simp [hk]
          · simp [hk]
      | repeated =>
          simp only [observeInput]
          split_ifs <;> rfl
  | pointerButton position button state =>
      cases state with
      | pressed =>
          refine Seat.ext rfl (funext fun b => ?_) rfl rfl rfl rfl
          simp only [observeInput, observeButton, held, Seat.observe, lookup_insert_eq]
          by_cases hb : b = button
          · simp [hb]
          · simp [hb]
      | released =>
          refine Seat.ext rfl (funext fun b => ?_) rfl rfl rfl rfl
          simp only [observeInput, observeButton, held, Seat.observe, lookup_erase_eq]
          by_cases hb : b = button
          · simp [hb]
          · simp [hb]
  | pointerAxis position axis =>
      simp only [observeInput, observeAxis, Seat.observe]
      split_ifs with hsource
      · rfl
      · cases axis.phase with
        | moved =>
            refine Seat.ext rfl rfl rfl ?_ rfl rfl
            simp [held, Function.comp_def]
        | started | ended | cancelled => rfl
  | pointerMotion position relative =>
      refine Seat.ext rfl (funext fun b => ?_) rfl rfl rfl rfl
      simp only [observeInput, held, Seat.observe, lookup_mapValues, Option.map_map]
      congr 1
      funext capture
      simp only [Function.comp_apply]
      split_ifs <;> rfl
  | pointerLeft | text => rfl

/-- A refused input leaves the seat's view of the ledger alone. -/
theorem held_observeInput_refused (r : RemoteInputState) (input : ClientInputEvent)
    (h : (r.observeInput input).2 = false) : (r.observeInput input).1.held = r.held := by
  obtain ⟨target, host, event, time⟩ := input
  cases event with
  | touch event =>
      simp only [observeInput, observe] at h ⊢
      split_ifs at h ⊢
      rfl
  | keyboard keycode state =>
      cases state with
      | repeated =>
          simp only [observeInput] at h ⊢
          split_ifs at h ⊢
          rfl
      | pressed | released => simp [observeInput] at h
  | pointerGesture gesture => simp [observeInput] at h
  | pointerButton position button state => simp [observeInput] at h
  | pointerAxis position axis => simp [observeInput] at h
  | pointerMotion | pointerLeft | text => simp [observeInput] at h

/-- A forwarded input keeps the open gestures apart, unless it begins one beside another. -/
theorem GesturesApart.observeInput (h : r.GesturesApart)
    (input : ClientInputEvent)
    (hinput : ∀ gesture, input.event = .pointerGesture gesture → gesture.isBegin = true →
      ¬ r.OpenElsewhere gesture.kind input.target.surface) :
    (r.observeInput input).1.GesturesApart := by
  have hsame : (r.observeInput input).1.gestures = r.gestures →
      (r.observeInput input).1.GesturesApart := by
    intro heq
    rw [GesturesApart, heq]
    exact h
  obtain ⟨target, host, event, time⟩ := input
  cases event with
  | pointerGesture gesture =>
      have hnew := hinput gesture rfl
      simp only [RemoteInputState.observeInput, observeGesture]
      split_ifs with hbegin hend
      · have hclear : ∀ c ∈ r.gestures, c.1 = gesture.kind → c.2.surface = target.surface := by
          intro c hc hkind
          by_contra hsurface
          exact hnew hbegin ⟨c, hc, hkind, hsurface⟩
        intro c hc c' hc' hkind
        simp only [List.mem_append, List.mem_singleton] at hc hc'
        rcases hc with hc | rfl
        · rcases hc' with hc' | rfl
          · exact h c hc c' hc' hkind
          · exact hclear c hc hkind
        · rcases hc' with hc' | rfl
          · exact (hclear c' hc' hkind.symm).symm
          · rfl
      · intro c hc c' hc'
        exact h c (List.mem_of_mem_filter hc) c' (List.mem_of_mem_filter hc')
      · exact h
  | touch event => exact hsame rfl
  | keyboard keycode state =>
      refine hsame ?_
      cases state with
      | pressed | released => rfl
      | repeated =>
          simp only [RemoteInputState.observeInput]
          split_ifs <;> rfl
  | pointerButton position button state =>
      refine hsame ?_
      cases state <;> rfl
  | pointerAxis position axis =>
      refine hsame ?_
      simp only [RemoteInputState.observeInput, observeAxis]
      split_ifs
      · rfl
      · cases axis.phase <;> rfl
  | pointerMotion | pointerLeft | text => exact hsame rfl

/-! ### Where something is held -/

variable {t : ClientInputTarget}

/-- One component of a seat after an update: an old target, or the new one. -/
theorem eq_some_of_update [DecidableEq α] {v : Option ClientInputTarget}
    (h : Function.update f a v b = some t) : f b = some t ∨ v = some t := by
  by_cases hb : b = a
  · subst hb
    rw [Function.update_self] at h
    exact Or.inr h
  · rw [Function.update_of_ne hb] at h
    exact Or.inl h

variable {target : ClientInputTarget}

theorem eq_some_of_press [DecidableEq α] (h : Function.update f a (some target) b = some t) :
    f b = some t ∨ t = target :=
  (eq_some_of_update h).imp_right fun h => (Option.some.inj h).symm

theorem eq_some_of_release [DecidableEq α] (h : Function.update f a none b = some t) :
    f b = some t ∨ t = target :=
  Or.inl ((eq_some_of_update h).resolve_right nofun)

theorem hasTarget_of_le {s' : Seat} {u : ClientInputTarget} (h : s'.HasTarget t)
    (hkeys : ∀ k, s'.keys k = some t → s.keys k = some t ∨ t = u)
    (hbuttons : ∀ b, s'.buttons b = some t → s.buttons b = some t ∨ t = u)
    (hgestures : ∀ g, s'.gestures g = some t → s.gestures g = some t ∨ t = u)
    (hscroll : s'.scroll = some t → s.scroll = some t ∨ t = u)
    (hcontacts : ∀ id, s'.contacts id = some t → s.contacts id = some t ∨ t = u)
    (hunframed : s'.unframed t = true → s.unframed t = true ∨ t = u) : s.HasTarget t ∨ t = u := by
  rcases h with ⟨k, hk⟩ | ⟨b, hb⟩ | ⟨g, hg⟩ | hs | ⟨id, hid⟩ | hu
  · exact (hkeys k hk).imp_left fun h => Or.inl ⟨k, h⟩
  · exact (hbuttons b hb).imp_left fun h => Or.inr (Or.inl ⟨b, h⟩)
  · exact (hgestures g hg).imp_left fun h => Or.inr (Or.inr (Or.inl ⟨g, h⟩))
  · exact (hscroll hs).imp_left fun h => Or.inr (Or.inr (Or.inr (Or.inl h)))
  · exact (hcontacts id hid).imp_left fun h => Or.inr (Or.inr (Or.inr (Or.inr (Or.inl ⟨id, h⟩))))
  · exact (hunframed hu).imp_left fun h => Or.inr (Or.inr (Or.inr (Or.inr (Or.inr h))))

theorem hasTarget_observeTouch {event : TouchEvent} (h : (s.observeTouch target event).HasTarget t) :
    s.HasTarget t ∨ t = target := by
  have hunframed : ∀ b, Function.update s.unframed target b t = true →
      s.unframed t = true ∨ t = target := by
    intro b hb
    by_cases ht : t = target
    · exact Or.inr ht
    · rw [Function.update_of_ne ht] at hb
      exact Or.inl hb
  cases event with
  | down id position =>
      exact hasTarget_of_le h (fun _ => Or.inl) (fun _ => Or.inl) (fun _ => Or.inl) Or.inl
        (fun _ => eq_some_of_press) (hunframed true)
  | motion id position =>
      exact hasTarget_of_le h (fun _ => Or.inl) (fun _ => Or.inl) (fun _ => Or.inl) Or.inl
        (fun _ => Or.inl) (hunframed true)
  | up id =>
      exact hasTarget_of_le h (fun _ => Or.inl) (fun _ => Or.inl) (fun _ => Or.inl) Or.inl
        (fun _ => eq_some_of_release) (hunframed true)
  | frame =>
      exact hasTarget_of_le h (fun _ => Or.inl) (fun _ => Or.inl) (fun _ => Or.inl) Or.inl
        (fun _ => Or.inl) (hunframed false)
  | cancel =>
      exact hasTarget_of_le h (fun _ => Or.inl) (fun _ => Or.inl) (fun _ => Or.inl) Or.inl
        (fun _ hid => Or.inl (Option.filter_eq_some_iff.mp hid).1) (hunframed false)

/-- What an input leaves held was held before or has the target of the input. -/
theorem hasTarget_observe {input : ClientInputEvent} (h : (s.observe input).HasTarget t) :
    s.HasTarget t ∨ t = input.target := by
  obtain ⟨target, host, event, time⟩ := input
  cases event with
  | keyboard keycode state =>
      cases state with
      | pressed =>
          exact hasTarget_of_le h (fun _ => eq_some_of_press) (fun _ => Or.inl) (fun _ => Or.inl)
            Or.inl (fun _ => Or.inl) Or.inl
      | released =>
          exact hasTarget_of_le h (fun _ => eq_some_of_release) (fun _ => Or.inl) (fun _ => Or.inl)
            Or.inl (fun _ => Or.inl) Or.inl
      | repeated => exact Or.inl h
  | pointerButton position button state =>
      cases state with
      | pressed =>
          exact hasTarget_of_le h (fun _ => Or.inl) (fun _ => eq_some_of_press) (fun _ => Or.inl)
            Or.inl (fun _ => Or.inl) Or.inl
      | released =>
          exact hasTarget_of_le h (fun _ => Or.inl) (fun _ => eq_some_of_release) (fun _ => Or.inl)
            Or.inl (fun _ => Or.inl) Or.inl
  | pointerGesture gesture =>
      simp only [Seat.observe] at h
      split_ifs at h
      · exact hasTarget_of_le h (fun _ => Or.inl) (fun _ => Or.inl) (fun _ => eq_some_of_press)
          Or.inl (fun _ => Or.inl) Or.inl
      · exact hasTarget_of_le h (fun _ => Or.inl) (fun _ => Or.inl) (fun _ => eq_some_of_release)
          Or.inl (fun _ => Or.inl) Or.inl
      · exact Or.inl h
  | pointerAxis position axis =>
      have hclear : ({ s with scroll := none } : Seat).HasTarget t → s.HasTarget t ∨ t = target :=
        fun h => hasTarget_of_le h (fun _ => Or.inl) (fun _ => Or.inl) (fun _ => Or.inl) nofun
          (fun _ => Or.inl) Or.inl
      simp only [Seat.observe] at h
      split_ifs at h
      · exact Or.inl h
      · cases hphase : axis.phase with
        | started =>
            rw [hphase] at h
            exact hasTarget_of_le h (fun _ => Or.inl) (fun _ => Or.inl) (fun _ => Or.inl)
              (fun hs => Or.inr (Option.some.inj hs).symm) (fun _ => Or.inl) Or.inl
        | moved =>
            rw [hphase] at h
            exact Or.inl h
        | ended | cancelled =>
            rw [hphase] at h
            exact hclear h
  | touch event => exact hasTarget_observeTouch h
  | pointerMotion | pointerLeft | text => exact Or.inl h

theorem mem_distinctTargets {targets : List ClientInputTarget} :
    t ∈ distinctTargets p targets ↔ t ∈ targets ∧ p t.surface = true := by
  have hfold : ∀ (l found : List ClientInputTarget), t ∈ l.foldl (fun found target =>
        if p target.surface && decide (target ∉ found) then found ++ [target] else found) found ↔
      t ∈ found ∨ (t ∈ l ∧ p t.surface = true) := by
    intro l
    induction l with
    | nil => intro found; simp
    | cons a l ih =>
        intro found
        rw [List.foldl_cons, ih, List.mem_cons]
        by_cases hp : p a.surface = true
        · by_cases ha : a ∈ found
          · have hskip : (p a.surface && decide (a ∉ found)) = false := by simp [ha]
            rw [hskip, if_neg (by decide)]
            constructor
            · rintro (h | h)
              · exact Or.inl h
              · exact Or.inr ⟨Or.inr h.1, h.2⟩
            · rintro (h | ⟨rfl | h, ht⟩)
              · exact Or.inl h
              · exact Or.inl ha
              · exact Or.inr ⟨h, ht⟩
          · have hadd : (p a.surface && decide (a ∉ found)) = true := by simp [ha, hp]
            rw [if_pos hadd, List.mem_append, List.mem_singleton]
            constructor
            · rintro ((h | rfl) | h)
              · exact Or.inl h
              · exact Or.inr ⟨Or.inl rfl, hp⟩
              · exact Or.inr ⟨Or.inr h.1, h.2⟩
            · rintro (h | ⟨rfl | h, ht⟩)
              · exact Or.inl (Or.inl h)
              · exact Or.inl (Or.inr rfl)
              · exact Or.inr ⟨h, ht⟩
        · have hskip : (p a.surface && decide (a ∉ found)) = false := by simp [hp]
          rw [hskip, if_neg (by decide)]
          constructor
          · rintro (h | h)
            · exact Or.inl h
            · exact Or.inr ⟨Or.inr h.1, h.2⟩
          · rintro (h | ⟨rfl | h, ht⟩)
            · exact Or.inl h
            · exact absurd ht hp
            · exact Or.inr ⟨h, ht⟩
  have h := hfold targets []
  simpa [distinctTargets] using h

/-- **Forgetting leaves exactly the captures elsewhere.** -/
theorem hasTarget_forget (h : r.GesturesApart) {orders : InputOrders} {call : ℕ}
    (ht : (r.forget orders call p).held.HasTarget t) : r.held.HasTarget t ∧ p t.surface = false := by
  rcases ht with ⟨k, hk⟩ | ⟨b, hb⟩ | ⟨g, hg⟩ | hs | ⟨id, hid⟩ | hu
  · simp only [held, forget, lookup_retain] at hk
    obtain ⟨capture, hcapture, rfl⟩ := Option.map_eq_some_iff.mp hk
    obtain ⟨hin, hp⟩ := Option.filter_eq_some_iff.mp hcapture
    exact ⟨Or.inl ⟨k, by simp [held, hin]⟩, by simpa using hp⟩
  · simp only [held, forget, lookup_retain] at hb
    obtain ⟨capture, hcapture, rfl⟩ := Option.map_eq_some_iff.mp hb
    obtain ⟨hin, hp⟩ := Option.filter_eq_some_iff.mp hcapture
    exact ⟨Or.inr (Or.inl ⟨b, by simp [held, hin]⟩), by simpa using hp⟩
  · have hg' : latestGesture (r.gestures.filter fun c => !p c.2.surface) g = some t := hg
    have hmem : ∃ c ∈ r.gestures.filter (fun c => !p c.2.surface), c.2 = t := by
      rw [latestGesture_eq] at hg'
      obtain ⟨c, hc, rfl⟩ := Option.map_eq_some_iff.mp hg'
      exact ⟨c, List.mem_of_mem_filter (List.mem_of_getLast? hc), rfl⟩
    obtain ⟨c, hc, rfl⟩ := hmem
    have hp := (List.mem_filter.mp hc).2
    rw [latestGesture_release h] at hg'
    split_ifs at hg'
    exact ⟨Or.inr (Or.inr (Or.inl ⟨g, hg'⟩)), by simpa using hp⟩
  · obtain ⟨scroll, hscroll, rfl⟩ := Option.map_eq_some_iff.mp hs
    obtain ⟨hin, hp⟩ := Option.filter_eq_some_iff.mp hscroll
    refine ⟨Or.inr (Or.inr (Or.inr (Or.inl ?_))), by simpa using hp⟩
    simp [held, hin]
  · simp only [held, forget, retire, lookup_retain] at hid
    obtain ⟨hin, hnot⟩ := Option.filter_eq_some_iff.mp hid
    rw [decide_eq_true_eq, mem_distinctTargets, not_and] at hnot
    refine ⟨Or.inr (Or.inr (Or.inr (Or.inr (Or.inl ⟨id, hin⟩)))), ?_⟩
    rw [← Bool.not_eq_true]
    refine hnot (List.mem_append_left _ (List.mem_filterMap.mpr ⟨id, ?_, hin⟩))
    rw [IterationOrder.mem_arrange]
    exact mem_keys_of_lookup hin
  · have hin : t ∈ (r.forget orders call p).touch.pending := by simpa [held] using hu
    obtain ⟨hpending, hnot⟩ := List.mem_filter.mp hin
    rw [decide_eq_true_eq, mem_distinctTargets, not_and] at hnot
    refine ⟨Or.inr (Or.inr (Or.inr (Or.inr (Or.inr (by simpa [held] using hpending))))), ?_⟩
    rw [← Bool.not_eq_true]
    exact hnot (List.mem_append_right _ hpending)

end RemoteInputState

/-! ### The relay -/

namespace SourceRelayAdapter

/-- The message is about to be delivered and begins a gesture while one of its kind is open on
another surface. -/
def Overlaps (env : SourceEnvironment) (s : SourceRelayAdapter) (envelope : DestinationEnvelope) :
    Prop :=
  ∃ input gesture, envelope.message = .input input ∧ input.event = .pointerGesture gesture ∧
    gesture.isBegin = true ∧ s.remoteInput.OpenElsewhere gesture.kind input.target.surface ∧
    s.mappings.lookup input.target.surface = some envelope.session ∧
    env.accept s.calls = .ok ()

end SourceRelayAdapter

open SourceRelayAdapter

/-- The seat has drained part of what the relay emitted; once it drains the rest it holds what the
ledger says, and that is on mapped surfaces of a relay that has not failed. -/
structure InStep (seat : Seat) (s : SourceRelayAdapter) : Prop where
  apart : s.remoteInput.GesturesApart
  held : seat.replay s.effects = s.remoteInput.held
  mapped : ∀ target, s.remoteInput.held.HasTarget target →
    target.surface ∈ s.mappings ∧ s.failed = false

namespace InStep

variable {seat : Seat} {env : SourceEnvironment} {s t : SourceRelayAdapter}

section

variable (h : InStep seat s)
include h

theorem of_eq (heffects : t.effects = s.effects) (hinput : t.remoteInput = s.remoteInput)
    (hmappings : ∀ x ∈ s.mappings, x ∈ t.mappings) (hfailed : t.failed = s.failed) :
    InStep seat t where
  apart := by rw [hinput]; exact h.apart
  held := by rw [heffects, hinput]; exact h.held
  mapped target htarget := by
    rw [hinput] at htarget
    obtain ⟨hmem, halive⟩ := h.mapped target htarget
    exact ⟨hmappings _ hmem, by rw [hfailed, halive]⟩

/-- Releasing on some surfaces, with more that the seat does not see. -/
theorem release (orders : InputOrders) (call : ℕ) (source : ClientSourceId)
    (p : ClientSurfaceId → Bool) (rest : List ClientAdapterEffect)
    (hrest : ∀ seat : Seat, seat.replay rest = seat) (heffects : t.effects = s.effects ++
      (s.remoteInput.releaseEffects orders call source p).2 ++ rest)
    (hinput : t.remoteInput = s.remoteInput.forget orders call p)
    (hmappings : ∀ x ∈ s.mappings, p x = false → x ∈ t.mappings)
    (hfailed : t.failed = s.failed ∨ ∀ x, p x = true) : InStep seat t where
  apart := by
    rw [hinput]
    exact h.apart.forget orders call p
  held := by
    have hfocus : ∀ seat : Seat, seat.replay
        (if s.remoteInput.keyboardFocus.any p then [.request (.focus ⟨source, none⟩)] else []) =
          seat := by
      intro seat
      split_ifs <;> rfl
    rw [heffects, hinput, Seat.replay_append, hrest, Seat.replay_append, h.held,
      RemoteInputState.releaseEffects, Seat.replay_append, hfocus,
      RemoteInputState.replay_releases h.apart]
  mapped target htarget := by
    rw [hinput] at htarget
    obtain ⟨hold, hp⟩ := RemoteInputState.hasTarget_forget h.apart htarget
    obtain ⟨hmem, halive⟩ := h.mapped target hold
    refine ⟨hmappings _ hmem hp, ?_⟩
    rcases hfailed with hfailed | hall
    · rw [hfailed, halive]
    · rw [hall] at hp
      cases hp

theorem fail (reason : String) : InStep seat (s.fail env reason) := by
  unfold SourceRelayAdapter.fail
  split_ifs with hfailed
  · exact h
  · refine h.release env.inputs s.calls s.upstreamSource (fun _ => true)
      ([.inputDisconnected s.upstreamSource] ++
        (env.surfaces.arrange (s.calls + 1) s.mappings.keys).map scaleReset) ?_ ?_ rfl
      (fun _ _ h => by cases h) (Or.inr fun _ => rfl)
    · intro seat
      exact Seat.replay_requests seat _ fun x => .surface ⟨x, .setPreferredScale none⟩
    · simp only [List.append_assoc]

omit h in
/-- While the authorization lasts, being in step is stable. -/
theorem stable (henv : ∀ i, env.authorized i = true) : Stable env (InStep seat) where
  same e h := h.of_eq e.effects e.remoteInput (fun x hx => by rw [e.mappings]; exact hx) e.failed
  fail reason h := h.fail reason
  revoke _ hauthorized := by
    simp [isAuthorized, henv] at hauthorized

variable (env) in
theorem releaseInput (owns : ClientSurfaceId → Bool) : InStep seat (s.releaseInput env owns) :=
  h.release env.inputs s.calls s.upstreamSource owns [] (fun _ => rfl)
    (by simp [SourceRelayAdapter.releaseInput]) rfl (fun _ hx _ => hx) (Or.inl rfl)

theorem releasePresentation (x : ClientSurfaceId) : InStep seat (s.releasePresentation x) := by
  obtain ⟨he, hi, hm, hf, -, -⟩ := releasePresentation_eq s x
  exact h.of_eq he hi (fun y hy => by rw [hm]; exact hy) hf

variable (env) in
/-- A withdrawn surface holds nothing any more. -/
theorem withdraw (x : ClientSurfaceId) : InStep seat (s.withdraw env x) := by
  obtain ⟨he, hi, hm, hf, hu, hc⟩ := releasePresentation_eq (s.unlist x) x
  refine h.release env.inputs s.calls s.upstreamSource (· == x) [scaleReset x] (fun _ => rfl)
    ?_ ?_ ?_ (Or.inl ?_)
  · simp only [SourceRelayAdapter.withdraw, resetScale, SourceRelayAdapter.releaseInput, forgetSent]
    rw [he, hi, hu, hc]
    rfl
  · simp only [SourceRelayAdapter.withdraw, resetScale, SourceRelayAdapter.releaseInput, forgetSent]
    rw [hi, hc]
    rfl
  · intro y hy hp
    simp only [SourceRelayAdapter.withdraw, resetScale, SourceRelayAdapter.releaseInput, forgetSent]
    rw [hm]
    exact mem_erase.mpr ⟨by simpa using hp, hy⟩
  · exact hf

end

section

variable (henv : ∀ i, env.authorized i = true)
include henv

theorem setPresentation (h : InStep seat s) (x : ClientSurfaceId) (claim : ClientPresentationClaim) :
    InStep seat (s.setPresentation env x claim) := by
  refine Cascade.run_invariant ?_ _ x h
  intro s x h
  have hc := (stable henv).checkAccess h
  have hrecord : InStep seat ((s.checkAccess env).1.recordClaim x claim) :=
    hc.of_eq rfl rfl (fun _ hy => hy) rfl
  simp only [setPresentationBody]
  split_ifs
  · unfold claimPresentation
    split_ifs
    · exact hrecord
    · split
      · exact ((stable henv).tick hrecord).fail _
      · exact hrecord.of_eq rfl rfl (fun _ hy => hy) rfl
  · exact hc

theorem map (h : InStep seat s) (session : HoistSessionId) (x : ClientSurfaceId) :
    InStep seat (s.map env session x) := by
  have hP : Stable env (InStep seat) := stable henv
  refine Cascade.run_invariant ?_ _ x h
  intro s x h
  have hc := hP.checkAccess h
  have hadmitted : ∀ {s : SourceRelayAdapter} role, InStep seat s →
      InStep seat (s.mapAdmitted env session x role).1 := by
    intro s role h
    have henlist : InStep seat (s.enlist session x) :=
      h.of_eq rfl rfl (fun y hy => (mem_insert _).mpr (Or.inr hy)) rfl
    have hsubmit := hP.submit (henlist.setPresentation henv x ((s.enlist session x).initialClaim role))
      (.mapSurface session x)
    simp only [mapAdmitted]
    split_ifs
    · exact hP.tick (hP.queueCursor (hP.replay hsubmit _ _) _)
    · exact hsubmit
  simp only [mapBody]
  split_ifs
  · unfold mapLive
    split_ifs
    · split
      · exact hc.of_eq rfl rfl (fun _ hy => hy) rfl
      · split_ifs
        · exact hadmitted _ (hP.tick hc)
        · exact hP.tick hc
    · exact hP.tick hc
  · exact hc

theorem unmap (h : InStep seat s) (x : ClientSurfaceId) : InStep seat (s.unmap env x) := by
  have hP : Stable env (InStep seat) := stable henv
  refine Cascade.run_invariant ?_ _ x h
  intro s x h
  have hdrop := hP.dropReservation h x
  simp only [unmapBody]
  split
  · exact hdrop
  · rename_i session _
    have hsubmit := hP.submit (hdrop.withdraw env x) (.withdrawSurface session x)
    split_ifs
    · exact hP.tick hsubmit
    · exact hsubmit

omit henv in
theorem unlist (h : InStep seat s) {x : ClientSurfaceId} (hx : ¬ s.remoteInput.held.Holds x) :
    InStep seat (s.unlist x) where
  apart := h.apart
  held := h.held
  mapped target htarget := by
    obtain ⟨hmem, halive⟩ := h.mapped target htarget
    refine ⟨mem_erase.mpr ⟨?_, hmem⟩, halive⟩
    rintro rfl
    exact hx ⟨target, htarget, rfl⟩

theorem destroy (h : InStep seat s) (x : ClientSurfaceId) :
    InStep seat (s.observeDestroyed env x) := by
  have hP : Stable env (InStep seat) := stable henv
  have hchildren : InStep seat ((s.dropReservation x).cachedPopups env x |>.foldl
      (fun s child => s.unmap env child) (s.dropReservation x).tick) :=
    Cascade.foldl_invariant (P := InStep seat) (fun t y _ ht => ht.unmap henv y)
      (hP.tick (hP.dropReservation h x))
  have hpres := hchildren.releasePresentation x
  have hreleased := hpres.releaseInput env (· == x)
  have hnone : ∀ t : SourceRelayAdapter, InStep seat t →
      ¬ (t.releaseInput env (· == x)).remoteInput.held.Holds x := by
    rintro t ht ⟨target, htarget, rfl⟩
    have hp := (RemoteInputState.hasTarget_forget ht.apart htarget).2
    simp at hp
  simp only [observeDestroyed]
  refine hP.forgetSurface ?_ x
  unfold sendDestroyed
  split
  · exact hP.sendSurface (hreleased.unlist (hnone _ hpres)) _ _
  · exact hreleased

omit henv in
theorem observeRequest (h : InStep seat s) (request : ClientRequest) :
    InStep seat
      { s with
        remoteInput := s.remoteInput.observeRequest request
        effects := s.effects ++ [.request request] } := by
  have hheld : (s.remoteInput.observeRequest request).held = s.remoteInput.held := by
    cases request with
    | focus focus =>
        refine Seat.ext (funext fun k => ?_) rfl rfl rfl rfl rfl
        simp only [RemoteInputState.observeRequest, RemoteInputState.held]
        split_ifs
        · rw [lookup_mapValues, Option.map_map]
          rfl
        · rfl
    | surface | clearFocus => rfl
  have hgestures : (s.remoteInput.observeRequest request).gestures = s.remoteInput.gestures := by
    cases request <;> rfl
  refine ⟨?_, ?_, ?_⟩
  · intro c hc c' hc'
    rw [hgestures] at hc hc'
    exact h.apart c hc c' hc'
  · rw [Seat.replay_append, h.held]
    exact hheld.symm
  · intro target htarget
    refine h.mapped target ?_
    rw [← hheld]
    exact htarget

omit henv in
/-- **An input the port has accepted.**  It is recorded exactly when it is emitted. -/
theorem observeInput (h : InStep seat s) (input : ClientInputEvent)
    (hmapped : input.target.surface ∈ s.mappings) (halive : s.failed = false)
    (hinput : ∀ gesture, input.event = .pointerGesture gesture → gesture.isBegin = true →
      ¬ s.remoteInput.OpenElsewhere gesture.kind input.target.surface) :
    InStep seat
      { s with
        remoteInput := (s.remoteInput.observeInput input).1
        effects :=
          if (s.remoteInput.observeInput input).2 then s.effects ++ [.input input]
          else s.effects } := by
  have hapart := h.apart.observeInput input hinput
  cases hforwarded : (s.remoteInput.observeInput input).2 with
  | true =>
      have hheld := RemoteInputState.held_observeInput s.remoteInput input hforwarded
      refine ⟨hapart, ?_, ?_⟩
      · simp only [if_true]
        rw [Seat.replay_append, h.held, hheld]
        rfl
      · intro target htarget
        have htarget' : (s.remoteInput.held.observe input).HasTarget target := by
          rw [← hheld]
          exact htarget
        rcases RemoteInputState.hasTarget_observe htarget' with hold | rfl
        · exact h.mapped target hold
        · exact ⟨hmapped, halive⟩
  | false =>
      have hheld := RemoteInputState.held_observeInput_refused s.remoteInput input hforwarded
      refine ⟨hapart, ?_, ?_⟩
      · simp only [Bool.false_eq_true, if_false]
        rw [h.held]
        exact hheld.symm
      · intro target htarget
        refine h.mapped target ?_
        rw [← hheld]
        exact htarget

theorem deliver (h : InStep seat s) (envelope : DestinationEnvelope) (halive : s.failed = false)
    (hok : ¬ s.Overlaps env envelope) (hdeliverable : s.Deliverable envelope) :
    InStep seat (s.deliver env envelope.message).1 := by
  have hP : Stable env (InStep seat) := stable henv
  simp only [SourceRelayAdapter.deliver]
  split_ifs
  · exact h
  · split
    · exact (hP.tick h).fail _
    · rename_i haccept
      have htick := hP.tick h
      unfold applyAccepted
      split
      · exact htick
      · exact htick.setPresentation henv _ _
      · exact htick.observeRequest _
      · rename_i input hmessage
        have hlookup : s.mappings.lookup input.target.surface = some envelope.session := by
          refine hdeliverable _ ?_
          rw [hmessage]
          rfl
        refine htick.observeInput input.intoClientEvent ?_ halive ?_
        · exact mem_of_lookup hlookup
        · intro gesture hevent hbegin hopen
          exact hok ⟨input, gesture, hmessage, hevent, hbegin, hopen, hlookup, haccept⟩
      all_goals exact htick

/-- While the authorization lasts and no gestures overlap, being in step is an invariant. -/
theorem invariant :
    Invariant env (fun s envelope => ¬ s.Overlaps env envelope) (fun _ _ => True) (InStep seat)
      (InStep seat) where
  toStable := stable henv
  weaken h := h
  sameQ e h := (stable henv).same e h
  connect {s} h := by
    refine ⟨h.apart, ?_, h.mapped⟩
    rw [Seat.replay_append, h.held]
    rfl
  release owns h := h.releaseInput env owns
  map session source h := h.map henv session source
  unmap source h := h.unmap henv source
  destroy source _ h := h.destroy henv source
  deliver envelope halive hok hdeliverable h := h.deliver henv envelope halive hok hdeliverable

end

end InStep

/-! ### What an unmapped surface leaves behind -/

namespace SourceRelayAdapter

variable {env : SourceEnvironment}

/-- The call takes this surface away from the peer. -/
def Retires (s : SourceRelayAdapter) (call : SourceCall) (surface : ClientSurfaceId) : Prop :=
  (call = .unmap surface ∧ s.admission = .manual) ∨
  (call = .observe ⟨surface, .destroyed⟩ ∧ surface.source = s.upstreamSource)

/-- A surface that was taken away is not mapped, unless the relay failed. -/
theorem notMem_of_retires {s : SourceRelayAdapter} {call : SourceCall} {x : ClientSurfaceId}
    (h : s.Retires call x) (halive : (s.step env call).failed = false) :
    x ∉ (s.step env call).mappings := by
  rcases h with ⟨rfl, hmanual⟩ | ⟨rfl, hsource⟩
  · have hnot : ¬ s.admission ≠ .manual := not_not.mpr hmanual
    simp only [step, command, if_neg hnot]
    exact notMem_unmap _ _
  · have hu : (({ s with calls := 0 } : SourceRelayAdapter).checkAccess env).2 = true := by
      by_contra hdead
      rw [Bool.not_eq_true] at hdead
      have hfailed := failed_of_not_live hdead
      simp only [step, observe, hdead, Bool.not_false, Bool.true_or, if_true] at halive
      rw [halive] at hfailed
      cases hfailed
    obtain ⟨-, heq⟩ := checkAccess_live hu
    simp only [step, observe, hu, heq]
    have hown : x.source = ({ s with calls := 0 } : SourceRelayAdapter).tick.upstreamSource := hsource
    simp only [Bool.not_true, Bool.false_or, hown, ne_eq, not_true_eq_false, decide_false,
      Bool.false_eq_true, if_false]
    exact notMem_observeDestroyed _ _

end SourceRelayAdapter

/-! ### Runs -/

/-- A seat without targets holds nothing. -/
theorem Seat.eq_empty (h : ∀ target, ¬ s.HasTarget target) : s = Seat.empty := by
  have hnone : ∀ {α : Type} (f : α → Option ClientInputTarget),
      (∀ a target, f a = some target → s.HasTarget target) → f = fun _ => none := by
    intro α f hf
    funext a
    cases ha : f a with
    | none => rfl
    | some target => exact absurd (hf a target ha) (h target)
  refine Seat.ext ?_ ?_ ?_ ?_ ?_ ?_
  · exact hnone s.keys fun k t hk => Or.inl ⟨k, hk⟩
  · exact hnone s.buttons fun b t hb => Or.inr (Or.inl ⟨b, hb⟩)
  · exact hnone s.gestures fun g t hg => Or.inr (Or.inr (Or.inl ⟨g, hg⟩))
  · cases hs : s.scroll with
    | none => rfl
    | some target => exact absurd (Or.inr (Or.inr (Or.inr (Or.inl hs)))) (h target)
  · exact hnone s.contacts fun id t hid => Or.inr (Or.inr (Or.inr (Or.inr (Or.inl ⟨id, hid⟩))))
  · funext target
    cases hu : s.unframed target with
    | false => rfl
    | true => exact absurd (Or.inr (Or.inr (Or.inr (Or.inr (Or.inr hu))))) (h target)

namespace HostedRelay

/-- No message of the call begins a gesture beside an open one. -/
def NoOverlap (h : HostedRelay) (e : HostCall) : Prop :=
  Admits e.env (fun s envelope => ¬ s.Overlaps e.env envelope) (fun _ _ => True) h.relay e.call

theorem inStep_new (upstreamSource : ClientSourceId) (admission : SourceAdmission)
    (provider : Bool) :
    InStep (new upstreamSource admission provider).seat
      (new upstreamSource admission provider).relay where
  apart c hc := by cases hc
  held := rfl
  mapped target htarget := by
    simp [Seat.HasTarget, new, RemoteInputState.held, latestGesture] at htarget

variable {h : HostedRelay}

/-- **One call keeps the relay in step with the seat.** -/
theorem inStep_step (hin : InStep h.seat h.relay) {e : HostCall}
    (henv : ∀ i, e.env.authorized i = true) (hok : NoOverlap h e) :
    InStep (h.step e).seat (h.step e).relay := by
  have hinv : Invariant e.env _ _ (InStep h.seat) (InStep h.seat) := InStep.invariant henv
  have h0 : InStep h.seat { h.relay with calls := 0 } := hin.of_eq rfl rfl (fun _ hx => hx) rfl
  have hc := hinv.checkAccess h0
  obtain ⟨env, call⟩ := e
  cases call with
  | drainPresentationClaims => exact hc.of_eq rfl rfl (fun _ hx => hx) rfl
  | drainEffects => exact ⟨hc.apart, hc.held, hc.mapped⟩
  | installAccess => exact hinv.step hin .installAccess hok nofun nofun
  | map session source => exact hinv.step hin (.map session source) hok nofun nofun
  | unmap source => exact hinv.step hin (.unmap source) hok nofun nofun
  | observe event => exact hinv.step hin (.observe event) hok nofun nofun
  | observeCursorUpdate update => exact hinv.step hin (.observeCursorUpdate update) hok nofun nofun
  | observeRetiredBuffer buffer =>
      exact hinv.step hin (.observeRetiredBuffer buffer) hok nofun nofun
  | releaseInput owns => exact hinv.step hin (.releaseInput owns) hok nofun nofun
  | poll polled => exact hinv.step hin (.poll polled) hok nofun nofun

/-- What a relay in step with its seat has emitted. -/
theorem emitted_of_inStep (hin : InStep h.seat h.relay) :
    h.emitted = h.relay.remoteInput.held ∧
    (h.relay.failed = true → h.emitted = Seat.empty) ∧
    ∀ x, x ∉ h.relay.mappings → ¬ h.emitted.Holds x := by
  have heq : h.emitted = h.relay.remoteInput.held := hin.held
  refine ⟨heq, ?_, ?_⟩
  · intro hfailed
    refine Seat.eq_empty fun target htarget => ?_
    rw [heq] at htarget
    rw [(hin.mapped target htarget).2] at hfailed
    cases hfailed
  · rintro x hx ⟨target, htarget, rfl⟩
    rw [heq] at htarget
    exact hx (hin.mapped target htarget).1

/-- In every run without revocation whose steps begin no gesture beside an open one, the relay is
in step with its seat. -/
theorem inStep_exec (upstreamSource : ClientSourceId) (admission : SourceAdmission)
    (provider : Bool) {es : List HostCall} (hauth : ∀ e ∈ es, ∀ i, e.env.authorized i = true)
    (hmeets : Meets step NoOverlap (new upstreamSource admission provider) es) :
    InStep (exec step (new upstreamSource admission provider) es).seat
      (exec step (new upstreamSource admission provider) es).relay := by
  have hboth : Meets step
      (fun h e => (∀ i, e.env.authorized i = true) ∧ NoOverlap h e)
      (new upstreamSource admission provider) es :=
    hmeets.imp_mem fun h e he hok => ⟨hauth e he, hok⟩
  refine hboth.invariant (P := fun h => InStep h.seat h.relay) ?_ (inStep_new _ _ _)
  intro h e hin hok
  exact inStep_step hin hok.1 hok.2

/-- **The ledger is exact.**  In every run without revocation whose steps begin no gesture beside an
open one of its kind on another surface, what the seat holds after everything emitted is what the
ledger says; a failed relay holds nothing, nothing is held on a surface that was taken away, and an
input that is refused is neither emitted nor recorded. -/
theorem ledger_exact (upstreamSource : ClientSourceId) (admission : SourceAdmission)
    (provider : Bool) (es : List HostCall) (hauth : ∀ e ∈ es, ∀ i, e.env.authorized i = true)
    (hmeets : Meets step NoOverlap (new upstreamSource admission provider) es) :
    let h := exec step (new upstreamSource admission provider) es
    h.emitted = h.relay.remoteInput.held ∧
    (h.relay.failed = true → h.emitted = Seat.empty) ∧
    (∀ x, x ∉ h.relay.mappings → ¬ h.emitted.Holds x) ∧
    (∀ (e : HostCall) x, (∀ i, e.env.authorized i = true) → h.relay.Retires e.call x →
      ¬ (h.step e).emitted.Holds x) ∧
    (∀ (env : SourceEnvironment) input,
      h.relay.remoteInput.acceptsInput input.target input.event = false →
        h.relay.deliver env (.input input) = (h.relay, true)) ∧
    (∀ (env : SourceEnvironment) input reason, env.accept h.relay.calls = .error reason →
      h.relay.remoteInput.acceptsInput input.target input.event = true →
        h.relay.deliver env (.input input) = (h.relay.tick.fail env reason, false)) := by
  intro h
  have hin : InStep h.seat h.relay := inStep_exec upstreamSource admission provider hauth hmeets
  obtain ⟨hheld, hfailed, hunmapped⟩ := emitted_of_inStep hin
  refine ⟨hheld, hfailed, hunmapped, ?_, ?_, ?_⟩
  · intro e x henv hretires
    have hok : NoOverlap h e := by
      obtain ⟨env, call⟩ := e
      rcases hretires with ⟨rfl, -⟩ | ⟨rfl, -⟩
      · exact trivial
      · exact fun _ => trivial
    obtain ⟨-, hdead, hgone⟩ := emitted_of_inStep (inStep_step hin henv hok)
    cases hstate : (h.step e).relay.failed with
    | true =>
        rw [hdead hstate]
        exact Seat.not_holds_empty x
    | false => exact hgone x (notMem_of_retires hretires hstate)
  · intro env input hrefused
    simp [deliver, hrefused]
  · intro env input reason haccept haccepts
    simp [deliver, haccept, haccepts]

/-! ### A key press, and two gestures of one kind -/

/-- A toplevel of the upstream source. -/
def window (n : ℕ) : ClientSurfaceId := ⟨⟨0, 0⟩, n⟩

/-- A window is mapped and a key is pressed on it. -/
def pressRun : List HostCall :=
  [⟨{}, .observe ⟨window 1, .role (.toplevel {})⟩⟩, ⟨{}, .map 1 (window 1)⟩,
    ⟨{}, .poll (.ok [⟨1, .input ⟨.keyboard (window 1), .keyboard 30 .pressed, 0⟩⟩])⟩]

theorem ledger_exact_of_press :
    (exec step (new 0 .manual false) pressRun).emitted =
        (exec step (new 0 .manual false) pressRun).relay.remoteInput.held ∧
      (exec step (new 0 .manual false) pressRun).emitted.keys 30 =
        some (.keyboard (window 1)) := by
  refine ⟨(ledger_exact 0 .manual false pressRun ?_ ?_).1, by decide⟩
  · intro e he i
    simp only [pressRun, List.mem_cons, List.not_mem_nil, or_false] at he
    rcases he with rfl | rfl | rfl <;> rfl
  · refine ⟨trivial, trivial, ⟨?_, fun _ => trivial⟩, trivial⟩
    rintro ⟨input, gesture, hmessage, hevent, -⟩
    cases hmessage
    cases hevent

/-- A swipe that begins on a window mapped under a session. -/
def swipe (session n : ℕ) : DestinationEnvelope :=
  ⟨session, .input ⟨.pointer (window n) 0, .pointerGesture (.swipe (.start 3)), 0⟩⟩

/-- Two windows are mapped, a swipe begins on each, and the first window is unmapped. -/
def overlappingRun : List HostCall :=
  [⟨{}, .observe ⟨window 1, .role (.toplevel {})⟩⟩, ⟨{}, .observe ⟨window 2, .role (.toplevel {})⟩⟩,
    ⟨{}, .map 1 (window 1)⟩, ⟨{}, .map 2 (window 2)⟩, ⟨{}, .poll (.ok [swipe 1 1, swipe 2 2])⟩,
    ⟨{}, .unmap (window 1)⟩]

/-- **With overlapping gestures the ledger is not exact**: the seat has no swipe open any more, the
ledger still has the one on the second window. -/
theorem overlapping_gestures_diverge :
    ¬ ∀ es : List HostCall, (∀ e ∈ es, ∀ i, e.env.authorized i = true) →
      (exec step (new 0 .manual false) es).emitted =
        (exec step (new 0 .manual false) es).relay.remoteInput.held := by
  intro h
  have hrun := h overlappingRun (by
    intro e he i
    simp only [overlappingRun, List.mem_cons, List.not_mem_nil, or_false] at he
    rcases he with rfl | rfl | rfl | rfl | rfl | rfl <;> rfl)
  have hseat : (exec step (new 0 .manual false) overlappingRun).emitted.gestures .swipe =
      none := by decide
  have hledger : (exec step (new 0 .manual
      false) overlappingRun).relay.remoteInput.held.gestures .swipe =
        some (.pointer (window 2) 0) := by decide
  rw [hrun, hledger] at hseat
  cases hseat

end HostedRelay

end Hoist
