/-
**Runs of local input.**

Surfaces are destroyed, others are retired, aliases change and the host loses focus, in any order and
in the middle of what the host began.  What the adapters are handed stays balanced.

Main results:

* `Balanced.forgetSurface`, `Balanced.hostFocusLost` — what ends captures;
* `LocalRun.balanced_step` — any call of a host that brackets its gestures and scrolls;
* `local_input_is_balanced` — whole runs.
-/

import Weld.PointerBalance
import Weld.Transition

namespace Client

open ClientRuntime

variable {s : ClientRuntime} {d : Device}

/-! ### Surfaces that lead elsewhere -/

variable {candidate surface : ClientSurfaceId}

/-- What leads to a surface is the surface itself or one of its aliases. -/
theorem surfaceResolvesTo_iff :
    s.surfaceResolvesTo candidate surface = true ↔ candidate ∈ surface :: s.aliasesOf surface := by
  rw [List.mem_cons, aliasesOf, List.mem_filter]
  refine ⟨fun h => ?_, fun h => h.elim (fun heq => ?_) fun h => h.2⟩
  · by_cases hsame : candidate = surface
    · exact Or.inl hsame
    · refine Or.inr ⟨?_, h⟩
      have hresolved : (s.resolveAlias candidate).toOption = some surface := by
        simpa [surfaceResolvesTo, hsame] using h
      by_contra hmissing
      -- without an alias a surface stands for itself
      have hstop : (s.aliases.lookup candidate).isNone = true := by
        rw [Option.isNone_iff_eq_none, AList.lookup_eq_none]
        exact fun hmem => hmissing (AList.mem_keys.mp hmem)
      have hwalk : BoundedWalk.walk (fun current => (s.aliases.lookup current).isNone)
          (s.aliases.lookup ·) (s.aliases.size + 1) candidate = some candidate :=
        BoundedWalk.walk_of_stop hstop
      rw [resolveAlias, hwalk] at hresolved
      split_ifs at hresolved
      · exact Option.some_ne_none surface hresolved.symm
      · exact hsame (Option.some.inj hresolved)
  · simp [surfaceResolvesTo, heq]

theorem surfaceResolvesTo_eq :
    s.surfaceResolvesTo candidate surface = decide (candidate ∈ surface :: s.aliasesOf surface) := by
  rw [Bool.eq_iff_iff, surfaceResolvesTo_iff, decide_eq_true_iff]

/-! ### A surface is destroyed -/

variable {surface : ClientSurfaceId} {α : Type} {t : ClientRuntime}
  {position : Option InputPosition} {event : RuntimeInputEventKind}

/-- The record after a surface is destroyed. -/
theorem follows_forgotten {σ : Type} {m : Monitor RuntimeRecord σ} {holds holds' : σ → Prop}
    {log : List RuntimeRecord} (h : m.Follows holds log)
    {aliases : List ClientSurfaceId} {refocused : Bool}
    (hallows : m.allows (m.state log) (.forgotten surface aliases))
    (hnext : holds' (m.next (m.state log) (.forgotten surface aliases)))
    (hrefocused : refocused = true →
      m.allows (m.next (m.state log) (.forgotten surface aliases)) .refocused ∧
        holds' (m.next (m.next (m.state log) (.forgotten surface aliases)) .refocused)) :
    m.Follows holds' (log ++ (.forgotten surface aliases :: if refocused then [.refocused] else [])) := by
  have hone : m.Follows holds' (log ++ [.forgotten surface aliases]) := h.concat hallows hnext
  cases refocused with
  | false => exact hone
  | true =>
      obtain ⟨hallows', hnext'⟩ := hrefocused rfl
      have htwo : m.Follows holds' ((log ++ [.forgotten surface aliases]) ++ [.refocused]) :=
        hone.concat (by simpa using hallows') (by simpa using hnext')
      simpa using htwo

/-- What is kept of a capture whose route may lead to the surface that was destroyed. -/
theorem filter_forgotten (s : ClientRuntime) (surface : ClientSurfaceId) (route : Option ClientPointerRoute)
    (f : ClientPointerRoute → α) (g : α → ClientSurfaceId) (hg : ∀ r, g (f r) = r.surface) :
    ((s.reached route).map f).filter (fun held => decide (g held ∉ surface :: s.aliasesOf surface)) =
      if s.routeResolvesTo route surface then none else (s.reached route).map f := by
  cases route with
  | none => rfl
  | some route =>
      have hresolves : s.routeResolvesTo (some route) surface =
          decide (route.surface ∈ surface :: s.aliasesOf surface) := surfaceResolvesTo_eq
      rw [hresolves]
      unfold reached
      rw [Option.filter_some]
      split_ifs with hreached hgone
      · rw [Option.map_some, Option.filter_some, hg]
        have hmem : route.surface ∈ surface :: s.aliasesOf surface := of_decide_eq_true hgone
        exact if_neg fun hkept => absurd hmem (of_decide_eq_true hkept)
      · rw [Option.map_some, Option.filter_some, hg]
        have hnot : route.surface ∉ surface :: s.aliasesOf surface := of_decide_eq_false (by simpa using hgone)
        exact if_pos (decide_eq_true hnot)
      · rfl
      · rfl

theorem Balanced.cancelSurfaceTouch (h : Balanced s d) (surface : ClientSurfaceId) :
    Balanced (s.cancelSurfaceTouch surface) d := by
  by_cases hd : d = .touch
  · subst hd
    exact (h.touching surface).cancelSurfaceTouch
  · exact (spares_cancelSurfaceTouch hd surface).balanced h

/-- **What a destroyed surface held is forgotten.** -/
theorem Balanced.forgetSurface (h : Balanced s d) (surface : ClientSurfaceId) :
    Balanced (s.forgetSurface surface) d := by
  have hcancelled := h.cancelSurfaceTouch surface
  unfold ClientRuntime.forgetSurface
  generalize s.cancelSurfaceTouch surface = t at hcancelled
  simp only []
  cases d with
  | key =>
      intro keycode
      have hkept : KeyAgrees { t with
          keyboardCaptures := t.keyboardCaptures.retain fun _ capture =>
            !t.surfaceResolvesTo capture.route.surface surface } keycode
            (((keyMonitor keycode).state t.log).filter
              fun held => decide (held.1 ∉ surface :: t.aliasesOf surface)) := by
        unfold KeyAgrees
        rw [AList.lookup_retain]
        cases hcapture : t.keyboardCaptures.lookup keycode with
        | none =>
            rw [hcancelled.uncaptured hcapture]
            rfl
        | some capture =>
            obtain ⟨hadapter, repeats, hheld, hrepeats⟩ := hcancelled.captured hcapture
            rw [hheld, Option.filter_some, Option.filter_some, surfaceResolvesTo_eq]
            by_cases hgone : capture.route.surface ∈ surface :: t.aliasesOf surface
            · rw [decide_eq_true hgone, decide_eq_false (not_not.mpr hgone)]
              rfl
            · rw [decide_eq_false hgone, decide_eq_true hgone]
              exact ⟨hadapter, repeats, rfl, hrepeats⟩
      refine follows_forgotten (hcancelled keycode) trivial ?_ fun hdestroyed => ⟨trivial, ?_⟩
      · cases hcapture : (t.keyboardCaptures.retain fun _ capture =>
            !t.surfaceResolvesTo capture.route.surface surface).lookup keycode with
        | none => exact (keyAgrees_none hcapture).mpr ((keyAgrees_none hcapture).mp hkept)
        | some capture =>
            obtain ⟨hadapter, repeats, hheld, hrepeats⟩ := (keyAgrees_some hcapture).mp hkept
            refine (keyAgrees_some hcapture).mpr ⟨hadapter, repeats, hheld, fun hallowed =>
              (hrepeats hallowed).imp id fun hnone => ?_⟩
            change t.keyboardRoute = none at hnone
            rw [hnone]
            rfl
      · cases hcapture : (t.keyboardCaptures.retain fun _ capture =>
            !t.surfaceResolvesTo capture.route.surface surface).lookup keycode with
        | none =>
            have hnone := (keyAgrees_none hcapture).mp hkept
            exact (keyAgrees_none hcapture).mpr (congrArg (Option.map _) hnone)
        | some capture =>
            obtain ⟨hadapter, repeats, hheld, hrepeats⟩ := (keyAgrees_some hcapture).mp hkept
            exact (keyAgrees_some hcapture).mpr
              ⟨hadapter, false, congrArg (Option.map _) hheld, fun _ => Or.inr (if_pos hdestroyed)⟩
  | button =>
      have hagrees : ButtonAgrees t (buttonMonitor.state t.log) := hcancelled.2
      unfold ButtonAgrees at hagrees
      cases hcapture : t.pointerCapture with
      | idle =>
          rw [hcapture] at hagrees
          refine follows_forgotten (m := buttonMonitor) hcancelled trivial ?_ fun _ => ⟨trivial, ?_⟩
          all_goals
            refine ⟨?_, hagrees.2⟩
            rw [hagrees.1]
            rfl
      | active route =>
          rw [hcapture] at hagrees
          have hkept := filter_forgotten t surface route
            (fun route => (route, t.pressedButtons)) (fun held => held.1.surface) fun _ => rfl
          rw [← hagrees.1] at hkept
          by_cases hgone : t.routeResolvesTo route surface = true
          · rw [if_pos hgone] at hkept
            refine follows_forgotten (m := buttonMonitor) hcancelled trivial ?_ fun _ => ⟨trivial, ?_⟩
            all_goals
              unfold ButtonAgrees
              simp only [hgone, if_true]
              exact ⟨hkept, trivial⟩
          · rw [if_neg hgone] at hkept
            refine follows_forgotten (m := buttonMonitor) hcancelled trivial ?_ fun _ => ⟨trivial, ?_⟩
            all_goals
              simp only [hgone]
              exact ⟨hkept.trans hagrees.1, hagrees.2⟩
  | touch =>
      refine ⟨fun id => ?_, fun route => ?_⟩
      · refine follows_forgotten (hcancelled.1 id) trivial ?_ fun _ => ⟨trivial, ?_⟩
        all_goals
          obtain ⟨hdistinct, hheld, hreached⟩ := (hcancelled.1 id).2
          exact ⟨hdistinct, hheld, hreached⟩
      · refine follows_forgotten (hcancelled.2 route) trivial ?_ fun _ => ⟨trivial, ?_⟩
        all_goals exact (hcancelled.2 route).2
  | gesture =>
      have hagrees : GestureAgrees t (gestureMonitor.state t.log) := hcancelled.2
      have hkept : (gestureMonitor.state t.log).filter
          (fun held => decide (held.2.surface ∉ surface :: t.aliasesOf surface)) =
            (t.gestureCapture.filter fun capture => !t.routeResolvesTo capture.route surface).bind
              fun capture => (t.reached capture.route).map fun route => (capture.kind, route) := by
        cases hcapture : t.gestureCapture with
        | none =>
            rw [hagrees, hcapture]
            rfl
        | some capture =>
            rw [hagrees, hcapture, Option.bind_some, Option.filter_some,
              filter_forgotten t surface capture.route (fun route => (capture.kind, route))
                (fun held => held.2.surface) fun _ => rfl]
            by_cases hgone : t.routeResolvesTo capture.route surface = true
            · rw [hgone]
              rfl
            · rw [Bool.not_eq_true] at hgone
              rw [hgone]
              rfl
      exact follows_forgotten (m := gestureMonitor) hcancelled trivial hkept fun _ => ⟨trivial, hkept⟩
  | scroll =>
      have hagrees : ScrollAgrees t (scrollMonitor.state t.log) := hcancelled.2
      have hkept : (scrollMonitor.state t.log).filter
          (fun held => decide (held.surface ∉ surface :: t.aliasesOf surface)) =
            (t.fingerScrollCapture.filter fun capture => !t.routeResolvesTo capture.route surface).bind
              fun capture => t.reached capture.route := by
        cases hcapture : t.fingerScrollCapture with
        | none =>
            rw [hagrees, hcapture]
            rfl
        | some capture =>
            have hroute := filter_forgotten t surface capture.route id
              (fun held => held.surface) fun _ => rfl
            rw [Option.map_id, id] at hroute
            rw [hagrees, hcapture, Option.bind_some, Option.filter_some, hroute]
            by_cases hgone : t.routeResolvesTo capture.route surface = true
            · rw [hgone]
              rfl
            · rw [Bool.not_eq_true] at hgone
              rw [hgone]
              rfl
      exact follows_forgotten (m := scrollMonitor) hcancelled trivial hkept fun _ => ⟨trivial, hkept⟩

/-! ### The host loses focus -/

/-- **Once the host loses focus nothing is held.** -/
theorem Balanced.hostFocusLost (h : Balanced s d) (time : ℕ) :
    Balanced (s.hostFocusLost time).1 d := by
  have hcancelled : Balanced (s.dispatchTouch none .cancel time).1 d := by
    by_cases hd : d = .touch
    · subst hd
      exact h.dispatchTouch none .cancel time
    · exact (spares_dispatchTouch hd none .cancel time).balanced h
  unfold ClientRuntime.hostFocusLost
  generalize (s.dispatchTouch none .cancel time).1 = t at hcancelled
  cases d with
  | key => exact fun keycode => (hcancelled keycode).concat trivial rfl
  | button => exact Monitor.Follows.concat (m := buttonMonitor) hcancelled trivial ⟨rfl, rfl⟩
  | touch =>
      refine ⟨fun id => (hcancelled.1 id).concat trivial ?_,
        fun route => (hcancelled.2 route).concat trivial (hcancelled.2 route).2⟩
      obtain ⟨hdistinct, hheld, hreached⟩ := (hcancelled.1 id).2
      exact ⟨hdistinct, hheld, hreached⟩
  | gesture => exact Monitor.Follows.concat (m := gestureMonitor) hcancelled trivial rfl
  | scroll => exact Monitor.Follows.concat (m := scrollMonitor) hcancelled trivial rfl

/-! ### What a call keeps -/

/-- A step that keeps the balance of every device and starts neither a gesture nor a scroll. -/
structure Keeps (s t : ClientRuntime) : Prop where
  balanced : (∀ d, Balanced s d) → ∀ d, Balanced t d
  gesture : ∀ capture ∈ t.gestureCapture, capture ∈ s.gestureCapture
  scroll : t.fingerScrollCapture.isSome → s.fingerScrollCapture.isSome

theorem Keeps.refl (s : ClientRuntime) : Keeps s s := ⟨id, fun _ => id, id⟩

theorem Keeps.trans {u : ClientRuntime} (h : Keeps s t) (h' : Keeps t u) : Keeps s u :=
  ⟨h'.balanced ∘ h.balanced, fun capture hmem => h.gesture capture (h'.gesture capture hmem),
    h.scroll ∘ h'.scroll⟩

theorem Keeps.of_spares (h : ∀ d, Spares d s t) : Keeps s t := by
  refine ⟨fun hs d => (h d).balanced (hs d), fun capture hmem => ?_, fun hsome => ?_⟩
  · have hsame : t.gestureCapture = s.gestureCapture := (h .gesture).capture
    rwa [← hsame]
  · have hsame : t.fingerScrollCapture = s.fingerScrollCapture := (h .scroll).capture
    rwa [← hsame]

/-- A step that is the business of keys, of buttons or of touch. -/
theorem Keeps.of_device (d : Device) (hd : d ≠ .gesture ∧ d ≠ .scroll)
    (hspares : ∀ other, other ≠ d → Spares other s t) (hbalanced : Balanced s d → Balanced t d) :
    Keeps s t := by
  refine ⟨fun hs other => ?_, fun capture hmem => ?_, fun hsome => ?_⟩
  · by_cases hother : other = d
    · subst hother
      exact hbalanced (hs other)
    · exact (hspares other hother).balanced (hs other)
  · have hsame : t.gestureCapture = s.gestureCapture := (hspares .gesture hd.1.symm).capture
    rwa [← hsame]
  · have hsame : t.fingerScrollCapture = s.fingerScrollCapture := (hspares .scroll hd.2.symm).capture
    rwa [← hsame]

theorem keeps_key (hspares : ∀ d, d ≠ .key → Spares d s t)
    (hbalanced : Balanced s .key → Balanced t .key) : Keeps s t :=
  .of_device .key ⟨by simp, by simp⟩ hspares hbalanced

theorem keeps_touch (hspares : ∀ d, d ≠ .touch → Spares d s t)
    (hbalanced : Balanced s .touch → Balanced t .touch) : Keeps s t :=
  .of_device .touch ⟨by simp, by simp⟩ hspares hbalanced

theorem keeps_button (hspares : ∀ d, d ≠ .button → Spares d s t)
    (hbalanced : Balanced s .button → Balanced t .button) : Keeps s t :=
  .of_device .button ⟨by simp, by simp⟩ hspares hbalanced

/-! ### A surface is retired -/

/-- The keys that are held by surfaces that lead to this one are held by this one. -/
def ClientRuntime.OwnsKeys (s : ClientRuntime) (surface : ClientSurfaceId) : Prop :=
  ∀ keycode capture, s.keyboardCaptures.lookup keycode = some capture →
    s.surfaceResolvesTo capture.route.surface surface = true → capture.route.surface = surface

variable {f : ClientRuntime → α → ClientRuntime} {gesture : PointerGesture} {time : ℕ}
  {axis : RawScrollFrame} {route : ClientPointerRoute}

theorem Spares.foldl (hf : ∀ s a, Spares d s (f s a))
    (items : List α) (s : ClientRuntime) : Spares d s (items.foldl f s) := by
  induction items generalizing s with
  | nil => exact .refl d s
  | cons a items ih => exact (hf s a).trans (ih (f s a))

theorem keeps_retireKeys (hown : s.OwnsKeys surface) (order : IterationOrder LinuxKeycode)
    (call time : ℕ) : Keeps s (s.retireKeys order call surface time) := by
  refine keeps_key (fun d hd => Spares.foldl (fun s key => ?_) _ s) fun h =>
    h.retireKeys order call surface time hown
  have hcaptures : Spares d s
      { s with
        keyboardCaptures := s.keyboardCaptures.erase key
        retiredLocalKeys := key :: s.retiredLocalKeys } :=
    .silent rfl (sameCapture_of_key hd ⟨rfl, rfl⟩ rfl rfl rfl) rfl
  exact hcaptures.trans (spares_dispatchTo (device_key_ne hd _ _))

theorem endGesture_capture (s : ClientRuntime) (time : ℕ) :
    (s.endGesture time).gestureCapture = none := by
  unfold ClientRuntime.endGesture
  cases hcapture : s.gestureCapture with
  | none => exact hcapture
  | some capture =>
      simp only []
      rw [dispatchPointerTo_eq]

theorem keeps_retireGesture (surface : ClientSurfaceId) (time : ℕ) :
    Keeps s (s.retireGesture surface time) := by
  unfold retireGesture
  split_ifs
  · refine ⟨fun h d => ?_, fun capture hmem => ?_, fun hsome => ?_⟩
    · by_cases hd : d = .gesture
      · subst hd
        exact ((h .gesture).endGesture time).1
      · exact (spares_endGesture hd time).balanced (h d)
    · rw [endGesture_capture] at hmem
      cases hmem
    · have hsame : (s.endGesture time).fingerScrollCapture = s.fingerScrollCapture :=
        (spares_endGesture (d := .scroll) (by simp) time).capture
      rwa [← hsame]
  · exact .refl s

theorem spares_retireFingerScroll (h : d ≠ .scroll) (surface : ClientSurfaceId) (time : ℕ) :
    Spares d s (s.retireFingerScroll surface time) := by
  unfold retireFingerScroll
  split
  · exact .refl d s
  · split_ifs
    · exact spares_scrolled h none _ _ _ _ _
    · exact .refl d s

theorem keeps_retireFingerScroll (surface : ClientSurfaceId) (time : ℕ) :
    Keeps s (s.retireFingerScroll surface time) := by
  refine ⟨fun h d => ?_, fun capture hmem => ?_, fun hsome => ?_⟩
  · by_cases hd : d = .scroll
    · subst hd
      exact (h .scroll).retireFingerScroll surface time
    · exact (spares_retireFingerScroll hd surface time).balanced (h d)
  · have hsame : (s.retireFingerScroll surface time).gestureCapture = s.gestureCapture :=
      (spares_retireFingerScroll (d := .gesture) (by simp) surface time).capture
    rwa [← hsame]
  · unfold retireFingerScroll at hsome
    cases hcapture : s.fingerScrollCapture with
    | none =>
        rw [hcapture] at hsome
        rwa [hcapture] at hsome
    | some capture => rfl

theorem keeps_retireButtons (surface : ClientSurfaceId) (time : ℕ) :
    Keeps s (s.retireButtons surface time) := by
  refine keeps_button (fun d hd => ?_) fun h => h.retireButtons surface time
  have hdevice : ∀ position button, (InputEventKind.pointerButton position button .released).device ≠
      some d := fun _ _ heq => hd (Option.some.inj heq).symm
  unfold ClientRuntime.retireButtons
  generalize s.capturedOrCurrentPointerRoute.toOption.join = pointer
  have hone : ∀ (s : ClientRuntime) (button : LinuxButtonCode), Spares d s
      ({ s with retiredLocalButtons := button :: s.retiredLocalButtons }.dispatchPointerTo pointer
        (.pointerButton s.pointerPosition button .released) s.pointerPosition time).1 := by
    intro s button
    have hmarked : Spares d s { s with retiredLocalButtons := button :: s.retiredLocalButtons } :=
      spares_buttons hd rfl rfl ⟨rfl, rfl⟩ rfl rfl rfl
    exact hmarked.trans (spares_dispatchPointerTo (hdevice _ _))
  have hreleased := Spares.foldl hone (s.pressedButtons.sort (· ≤ ·)) s
  simp only []
  split_ifs
  · generalize (s.pressedButtons.sort (· ≤ ·)).foldl _ s = released at hreleased
    have hidle : Spares d released { released with pressedButtons := ∅, pointerCapture := .idle } :=
      spares_buttons hd rfl rfl ⟨rfl, rfl⟩ rfl rfl rfl
    refine hreleased.trans (hidle.trans (spares_dispatchPointerTo ?_))
    simp [InputEventKind.device]
  · exact .refl d s

theorem keeps_clearFocus : Keeps s s.clearFocus.1 :=
  keeps_key (fun _ hd => spares_clearFocus hd) Balanced.clearFocus

theorem keeps_retireRoutes (surface : ClientSurfaceId) : Keeps s (s.retireRoutes surface) := by
  have haside : ∀ {s t : ClientRuntime}, t = { s with
      pointerRoute := t.pointerRoute, pendingPointerRoute := t.pendingPointerRoute } → Keeps s t := by
    intro s t heq
    rw [heq]
    exact .of_spares fun d => .aside rfl rfl ⟨rfl, rfl⟩ ⟨rfl, rfl⟩ rfl rfl rfl
  have hclear : ∀ {s : ClientRuntime} {p : Prop} [Decidable p],
      Keeps s (if p then s.clearFocus.1 else s) := by
    intro s p _
    split_ifs
    · exact keeps_clearFocus
    · exact .refl s
  refine Keeps.trans ?_ hclear
  refine haside ?_
  split_ifs <;> rfl

/-- Everything that a surface holds is ended where it began. -/
theorem keeps_retireLocalInput (order : IterationOrder LinuxKeycode) (call : ℕ)
    (retirement : ClientInputRetirement)
    (hown : ∀ surface, s.resolveAlias retirement.surface = .ok surface → s.OwnsKeys surface) :
    Keeps s (s.retireLocalInput order call retirement) := by
  unfold retireLocalInput
  cases hsurface : s.resolveAlias retirement.surface with
  | error error => exact .refl s
  | ok surface =>
      have htouch : Keeps s (s.cancelSurfaceTouch surface) :=
        keeps_touch (fun _ hd => spares_cancelSurfaceTouch hd surface)
          fun h => h.cancelSurfaceTouch surface
      have hkeys : (s.cancelSurfaceTouch surface).OwnsKeys surface := by
        unfold ClientRuntime.cancelSurfaceTouch
        simp only [sendTouchAll_eq]
        exact hown surface hsurface
      simp only []
      refine htouch.trans ((keeps_retireKeys hkeys order call retirement.time).trans ?_)
      refine (keeps_retireGesture surface retirement.time).trans ?_
      refine (keeps_retireFingerScroll surface retirement.time).trans ?_
      refine (keeps_retireButtons surface retirement.time).trans ?_
      refine (keeps_retireRoutes surface).trans ?_
      split_ifs
      · exact .of_spares fun d => spares_record rfl
      · exact .refl _

/-! ### Any call -/

theorem keeps_forgetSurface (surface : ClientSurfaceId) : Keeps s (s.forgetSurface surface) := by
  refine ⟨fun h d => (h d).forgetSurface surface, fun capture hmem => ?_, fun hsome => ?_⟩
  · have hsame : (s.cancelSurfaceTouch surface).gestureCapture = s.gestureCapture :=
      (spares_cancelSurfaceTouch (d := .gesture) (by simp) surface).capture
    have hkept : capture ∈ (s.cancelSurfaceTouch surface).gestureCapture.filter _ := hmem
    rw [hsame] at hkept
    exact (Option.filter_eq_some_iff.mp hkept).1
  · have hsame : (s.cancelSurfaceTouch surface).fingerScrollCapture = s.fingerScrollCapture :=
      (spares_cancelSurfaceTouch (d := .scroll) (by simp) surface).capture
    have hkept : ((s.cancelSurfaceTouch surface).fingerScrollCapture.filter _).isSome = true := hsome
    rw [hsame] at hkept
    obtain ⟨capture, hcapture⟩ := Option.isSome_iff_exists.mp hkept
    rw [(Option.filter_eq_some_iff.mp hcapture).1]
    rfl

theorem Keeps.foldl (hf : ∀ s a, Keeps s (f s a))
    (items : List α) (s : ClientRuntime) : Keeps s (items.foldl f s) := by
  induction items generalizing s with
  | nil => exact .refl s
  | cons a items ih => exact (hf s a).trans (ih (f s a))

theorem keeps_applyAliasUpdate (adapter : ClientSourceId) (update : ClientRouteAliasUpdate) :
    Keeps s (s.applyAliasUpdate adapter update) := by
  have hset : ∀ destination source, Keeps s (s.setRouteAlias destination source) :=
    fun destination source => keeps_key (fun _ hd => spares_setRouteAlias hd destination source)
      fun h => h.setRouteAlias destination source
  have hremove : ∀ destination, Keeps s (s.removeRouteAlias destination) :=
    fun destination => keeps_key (fun _ hd => spares_removeRouteAlias hd destination)
      fun h => h.removeRouteAlias destination
  unfold applyAliasUpdate
  split_ifs
  · exact .refl s
  · split
    · split_ifs
      · exact hset _ _
      · exact .refl s
    · exact hremove _

theorem keeps_drainEvents (destroyed : List ClientSurfaceId)
    (updates : List (ClientSourceId × ClientRouteAliasUpdate)) (observed : List ClientSurfaceId) :
    Keeps s (s.drainEvents destroyed updates observed) := by
  have hfresh : Keeps s { s with retiredAliases := [] } :=
    .of_spares fun d => .aside rfl rfl ⟨rfl, rfl⟩ ⟨rfl, rfl⟩ rfl rfl rfl
  have hforget : ∀ (s : ClientRuntime) surface, Keeps s (s.forgetSurface surface) :=
    fun s surface => keeps_forgetSurface surface
  have hupdate : ∀ (s : ClientRuntime) (update : ClientSourceId × ClientRouteAliasUpdate),
      Keeps s (s.applyAliasUpdate update.1 update.2) := fun s update => keeps_applyAliasUpdate _ _
  exact ((hfresh.trans (Keeps.foldl hforget destroyed _)).trans
    (Keeps.foldl hupdate updates _)).trans (Keeps.foldl hforget observed _)

/-! ### The host -/

/-- What the host has begun and not ended. -/
structure HostInput where
  gesture : Option PointerGestureKind := none
  scrolling : Bool := false

def HostInput.afterEvent (host : HostInput) : InputEventKind → HostInput
  | .pointerGesture gesture =>
      if gesture.isBegin then { host with gesture := some gesture.kind }
      else if gesture.isEnd then { host with gesture := none } else host
  | .pointerAxis _ axis =>
      if axis.source = .finger then
        match axis.phase with
        | .started => { host with scrolling := true }
        | .moved => host
        | .ended | .cancelled => { host with scrolling := false }
      else host
  | _ => host

/-- No gesture begins within another, and no scroll within another. -/
def HostInput.Brackets (host : HostInput) : InputEventKind → Prop
  | .pointerGesture gesture =>
      (gesture.isBegin = true → host.gesture = none) ∧
        (gesture.isBegin = false → ∀ kind ∈ host.gesture, kind = gesture.kind)
  | .pointerAxis _ axis => axis.source = .finger → axis.phase = .started → host.scrolling = false
  | _ => True

/-- What is captured was begun by the host. -/
structure Begun (s : ClientRuntime) (host : HostInput) : Prop where
  gesture : ∀ capture ∈ s.gestureCapture, host.gesture = some capture.kind
  scroll : s.fingerScrollCapture.isSome → host.scrolling = true

variable {host : HostInput}

theorem Keeps.begun (h : Keeps s t) (hs : Begun s host) : Begun t host :=
  ⟨fun capture hmem => hs.gesture capture (h.gesture capture hmem), hs.scroll ∘ h.scroll⟩

/-- The gesture that is captured after an event of a gesture. -/
theorem dispatchGesture_capture {capture : GestureCapture}
    (h : capture ∈ (s.dispatchGesture gesture time).1.gestureCapture) :
    if gesture.isBegin then capture.kind = gesture.kind
    else gesture.isEnd = false ∧ capture ∈ s.gestureCapture := by
  unfold ClientRuntime.dispatchGesture at h
  by_cases hbegin : gesture.isBegin = true
  · rw [if_pos hbegin]
    rw [if_pos hbegin] at h
    simp only [] at h
    split at h
    · rw [endGesture_capture] at h
      cases h
    · rw [dispatchPointerTo_eq] at h
      rw [← Option.mem_some.mp h]
  · rw [if_neg hbegin]
    rw [if_neg hbegin] at h
    cases hcapture : s.gestureCapture with
    | none =>
        rw [hcapture] at h
        rw [hcapture] at h
        cases h
    | some captured =>
        rw [hcapture] at h
        split_ifs at h with hend
        · cases h
        · rw [dispatchPointerTo_eq] at h
          rw [hcapture] at h
          exact ⟨by simpa using hend, h⟩

theorem balanced_dispatchGesture (h : ∀ d, Balanced s d) (hs : Begun s host)
    (hok : host.Brackets (.pointerGesture gesture)) (time : ℕ) :
    (∀ d, Balanced (s.dispatchGesture gesture time).1 d) ∧
      Begun (s.dispatchGesture gesture time).1 (host.afterEvent (.pointerGesture gesture)) := by
  refine ⟨fun d => ?_, fun capture hmem => ?_, fun hsome => ?_⟩
  · by_cases hd : d = .gesture
    · subst hd
      exact (h .gesture).dispatchGesture fun hbegin capture hmem =>
        hok.2 hbegin capture.kind (hs.gesture capture hmem)
    · exact (spares_dispatchGesture hd gesture time).balanced (h d)
  · have hcapture := dispatchGesture_capture hmem
    unfold HostInput.afterEvent
    simp only []
    by_cases hbegin : gesture.isBegin = true
    · rw [if_pos hbegin] at hcapture
      rw [if_pos hbegin, hcapture]
    · rw [if_neg hbegin] at hcapture
      rw [if_neg hbegin, if_neg (by simp [hcapture.1])]
      exact hs.gesture capture hcapture.2
  · have hsame : (s.dispatchGesture gesture time).1.fingerScrollCapture = s.fingerScrollCapture :=
      (spares_dispatchGesture (d := .scroll) (by simp) gesture time).capture
    rw [hsame] at hsome
    have hscrolling : (host.afterEvent (.pointerGesture gesture)).scrolling = host.scrolling := by
      unfold HostInput.afterEvent
      simp only []
      split_ifs <;> rfl
    rw [hscrolling]
    exact hs.scroll hsome

/-- The scroll that is captured after an event of a scroll with fingers. -/
theorem dispatchAxis_capture (hsource : axis.source = .finger)
    (h : (s.dispatchAxis position axis time).1.fingerScrollCapture.isSome) :
    axis.phase = .started ∨ axis.phase = .moved ∧ s.fingerScrollCapture.isSome := by
  unfold ClientRuntime.dispatchAxis at h
  rw [if_neg (not_not.mpr hsource)] at h
  cases hphase : axis.phase with
  | started => exact Or.inl rfl
  | moved =>
      refine Or.inr ⟨rfl, ?_⟩
      rw [hphase] at h
      cases hcapture : s.fingerScrollCapture with
      | none =>
          rw [hcapture] at h
          rwa [hcapture] at h
      | some capture => rfl
  | ended | cancelled =>
      rw [hphase] at h
      cases hcapture : s.fingerScrollCapture with
      | none =>
          rw [hcapture] at h
          rw [hcapture] at h
          cases h
      | some capture =>
          rw [hcapture] at h
          rw [dispatchPointerTo_eq] at h
          cases h

theorem balanced_dispatchAxis (h : ∀ d, Balanced s d) (hs : Begun s host) {taken : Option InputPosition}
    (hok : host.Brackets (.pointerAxis taken axis)) (time : ℕ) :
    (∀ d, Balanced (s.dispatchAxis position axis time).1 d) ∧
      Begun (s.dispatchAxis position axis time).1 (host.afterEvent (.pointerAxis taken axis)) := by
  refine ⟨fun d => ?_, fun capture hmem => ?_, fun hsome => ?_⟩
  · by_cases hd : d = .scroll
    · subst hd
      refine (h .scroll).dispatchAxis fun hsource hstarted => ?_
      by_contra hcapture
      have hscrolling := hs.scroll (Option.isSome_iff_ne_none.mpr hcapture)
      rw [hok hsource hstarted] at hscrolling
      cases hscrolling
    · exact (spares_dispatchAxis hd position axis time).balanced (h d)
  · have hsame : (s.dispatchAxis position axis time).1.gestureCapture = s.gestureCapture :=
      (spares_dispatchAxis (d := .gesture) (by simp) position axis time).capture
    rw [hsame] at hmem
    have hgesture : (host.afterEvent (.pointerAxis taken axis)).gesture = host.gesture := by
      unfold HostInput.afterEvent
      simp only []
      split_ifs
      · cases axis.phase <;> rfl
      · rfl
    rw [hgesture]
    exact hs.gesture capture hmem
  · unfold HostInput.afterEvent
    simp only []
    by_cases hsource : axis.source = .finger
    · rw [if_pos hsource]
      rcases dispatchAxis_capture hsource hsome with hstarted | ⟨hmoved, hbefore⟩
      · rw [hstarted]
      · rw [hmoved]
        exact hs.scroll hbefore
    · rw [if_neg hsource]
      unfold ClientRuntime.dispatchAxis at hsome
      rw [if_pos hsource] at hsome
      have hsame : (s.dispatchPointer (.pointerAxis position axis) position time).1.fingerScrollCapture =
          s.fingerScrollCapture := (spares_dispatchPointer (d := .scroll)
            (by simp [InputEventKind.device, hsource])).capture
      rw [hsame] at hsome
      exact hs.scroll hsome

/-! ### Events of the host -/

theorem spares_dispatchMotion (at_ : InputPosition) (relative : Option RelativeMotion) (time : ℕ) :
    Spares d s (s.dispatchPointer (.pointerMotion at_ relative) position time).1 :=
  spares_dispatchPointer (by simp [InputEventKind.device])

/-- What the runtime and the host know after a step that starts neither a gesture nor a scroll. -/
theorem Keeps.both (h : Keeps s t) (hs : ∀ d, Balanced s d)
    (hbegun : Begun s host) : (∀ d, Balanced t d) ∧ Begun t host :=
  ⟨h.balanced hs, h.begun hbegun⟩

/-- **One event of the host keeps every device in balance.** -/
theorem balanced_dispatchInput (h : ∀ d, Balanced s d) (hs : Begun s host)
    {event : InputEventKind} (hok : host.Brackets event) (time : ℕ) :
    (∀ d, Balanced (s.dispatchInput event time).1 d) ∧
      Begun (s.dispatchInput event time).1 (host.afterEvent event) := by
  have hat : ∀ position, Keeps s (s.atPosition position) :=
    fun position => .of_spares fun d => spares_atPosition position
  cases event with
  | touch event =>
      exact (keeps_touch (fun d hd => spares_dispatchTouch hd s.pointerRoute event time)
        fun h => h.dispatchTouch s.pointerRoute event time).both h hs
  | pointerMotion position relative =>
      exact ((hat (some position)).trans (.of_spares fun d => spares_dispatchMotion _ _ _)).both h hs
  | pointerLeft position =>
      exact ((hat (some position)).trans (.of_spares fun d => spares_dispatchLeft _ _)).both h hs
  | pointerButton position button state =>
      exact ((hat position).trans (keeps_button (fun d hd => spares_dispatchButton hd _ _ _ _)
        fun h => h.dispatchButton _ _ _ _)).both h hs
  | pointerAxis position axis =>
      obtain ⟨hbalanced, hbegun⟩ := (hat position).both h hs
      exact balanced_dispatchAxis hbalanced hbegun hok time
  | pointerGesture gesture => exact balanced_dispatchGesture h hs hok time
  | keyboard keycode state =>
      exact (keeps_key (fun d hd => spares_dispatchKey hd keycode state time)
        fun h => h.dispatchKey keycode state time).both h hs
  | text text =>
      exact (Keeps.of_spares fun d => spares_dispatchFocused (by simp [InputEventKind.device])).both h hs

def HostInput.after (host : HostInput) : RuntimeInputEventKind → HostInput
  | .input event => host.afterEvent event
  | .hostFocusLost => {}

/-- Only edges of keys and buttons are kept quiet about. -/
theorem after_of_consumed
    (h : (s.consumeRetiredLocalEdge event).2 = true) : host.after event = host := by
  cases event with
  | hostFocusLost => cases h
  | input event =>
      cases event with
      | keyboard | pointerButton => rfl
      | _ => cases h

theorem balanced_dispatchUnconsumedInput (h : ∀ d, Balanced s d) (hs : Begun s host)
    (hok : ∀ input, event = .input input → host.Brackets input) (time : ℕ) :
    (∀ d, Balanced (s.dispatchUnconsumedInput event time).1 d) ∧
      Begun (s.dispatchUnconsumedInput event time).1 (host.after event) := by
  have hconsumed : Keeps s (s.consumeRetiredLocalEdge event).1 :=
    .of_spares fun d => spares_consumeRetiredLocalEdge event
  obtain ⟨hbalanced, hbegun⟩ := hconsumed.both h hs
  unfold dispatchUnconsumedInput
  cases hedge : s.consumeRetiredLocalEdge event with
  | mk t consumed =>
      rw [hedge] at hbalanced hbegun
      cases consumed with
      | true =>
          rw [after_of_consumed (by rw [hedge])]
          exact ⟨hbalanced, hbegun⟩
      | false =>
          cases event with
          | input event => exact balanced_dispatchInput hbalanced hbegun (hok event rfl) time
          | hostFocusLost =>
              exact ⟨fun d => (hbalanced d).hostFocusLost time,
                ⟨fun capture hmem => (Option.not_mem_none capture hmem).elim,
                  fun hsome => absurd hsome (by simp [ClientRuntime.hostFocusLost])⟩⟩

/-- Publishing a route moves the pointer, and nothing else. -/
theorem keeps_publishPointerRoute (update : ClientPointerRouteUpdate) :
    Keeps s (s.publishPointerRoute update).1 := by
  have hat : ∀ {s : ClientRuntime} position, Keeps s (s.atPosition position) :=
    fun position => .of_spares fun d => spares_atPosition position
  unfold publishPointerRoute
  split
  · exact hat (some update.position) |>.trans (.of_spares fun d => spares_dispatchLeft _ _)
  · rename_i route _
    have hmoved : ∀ {s : ClientRuntime}, Keeps s ((s.setPointerRoute (some route)).dispatchUnconsumedInput
        (.input (.pointerMotion update.position none)) update.time).1 :=
      (Keeps.of_spares fun d => spares_setPointerRoute (some route)).trans
        ((hat (some update.position)).trans (.of_spares fun d => spares_dispatchMotion _ _ _))
    split
    · exact .refl s
    · exact .refl s
    · refine Keeps.trans ?_ hmoved
      split_ifs
      · exact .of_spares fun d => spares_dispatchPointerTo (by simp [InputEventKind.device])
      · exact .refl s

/-! ### Whole runs -/

/-- A runtime, and what its host has begun. -/
structure LocalRun where
  runtime : ClientRuntime := {}
  host : HostInput := {}

def LocalRun.step (order : IterationOrder LinuxKeycode) (r : LocalRun) (call : RuntimeCall) :
    LocalRun where
  runtime := r.runtime.step order call
  host :=
    match call with
    | .input event _ => r.host.after event
    | _ => r.host

/-- The host brackets its gestures and its scrolls; and the keys that are held by surfaces that lead to
a surface that is retired are held by that surface. -/
def LocalRun.Allows (r : LocalRun) : RuntimeCall → Prop
  | .input (.input event) _ => r.host.Brackets event
  | .retire _ retirement =>
      ∀ surface, r.runtime.resolveAlias retirement.surface = .ok surface → r.runtime.OwnsKeys surface
  | _ => True

theorem LocalRun.balanced_step {r : LocalRun} {order : IterationOrder LinuxKeycode}
    {call : RuntimeCall} (h : (∀ d, Balanced r.runtime d) ∧ Begun r.runtime r.host)
    (hok : r.Allows call) :
    (∀ d, Balanced (r.step order call).runtime d) ∧
      Begun (r.step order call).runtime (r.step order call).host := by
  obtain ⟨hbalanced, hbegun⟩ := h
  cases call with
  | input event time =>
      refine balanced_dispatchUnconsumedInput hbalanced hbegun (fun input heq => ?_) time
      subst heq
      exact hok
  | touch route event time =>
      exact (keeps_touch (fun d hd => spares_dispatchTouch hd route event time)
        fun h => h.dispatchTouch route event time).both hbalanced hbegun
  | setPointerRoute route =>
      exact (Keeps.of_spares fun d => spares_setPointerRoute route).both hbalanced hbegun
  | publishPointerRoute update => exact (keeps_publishPointerRoute update).both hbalanced hbegun
  | setKeyboardRoute route =>
      exact (keeps_key (fun d hd => spares_setKeyboardRoute hd route)
        fun h => h.setKeyboardRoute route).both hbalanced hbegun
  | setRouteAlias destination source =>
      exact (keeps_key (fun d hd => spares_setRouteAlias hd destination source)
        fun h => h.setRouteAlias destination source).both hbalanced hbegun
  | removeRouteAlias destination =>
      exact (keeps_key (fun d hd => spares_removeRouteAlias hd destination)
        fun h => h.removeRouteAlias destination).both hbalanced hbegun
  | request request =>
      exact (keeps_key (fun d hd => spares_applyRequest hd request)
        fun h => h.applyRequest request).both hbalanced hbegun
  | retire call retirement =>
      exact (keeps_retireLocalInput order call retirement hok).both hbalanced hbegun
  | drain destroyed updates observed =>
      exact (keeps_drainEvents destroyed updates observed).both hbalanced hbegun

/-! ### Cancels of the host -/

/-- The route has a contact that is open, or an event that no frame completed. -/
def Touched (log : List RuntimeRecord) (route : ClientPointerRoute) : Prop :=
  (∃ id, (contactMonitor id).state log = some route) ∨ (frameMonitor route).state log = true

/-- Every route that is touched is told of a cancel. -/
theorem Balanced.cancel_reaches (h : Balanced s .touch) (hroute : Touched s.log route) (time : ℕ) :
    ∃ more, (s.dispatchTouch none .cancel time).1.log = s.log ++ more ∧
      touchInput route .cancel time ∈ more := by
  have hmem : (route ∈ s.touch.contacts.map Prod.snd ∨ route ∈ s.touch.pending) ∧
      route.surface.source ∈ s.adapters := by
    rcases hroute with ⟨id, hheld⟩ | hheld
    · have hcontact : s.touch.contacts.lookup id = some route := (h.1 id).2.held ▸ hheld
      exact ⟨Or.inl (mem_snd_of_lookup hcontact), (h.1 id).2.reached route hcontact⟩
    · obtain ⟨hpending, hreached⟩ := (h.2 route).2 hheld
      exact ⟨Or.inr hpending, hreached⟩
  have hlog : (s.dispatchTouch none .cancel time).1.log = s.log ++
      (reachedRoutes s ((s.touch.contacts.map Prod.snd).foldl pushNew s.touch.pending)).map
        (touchInput · .cancel time) := by
    have hvalid : TouchEvent.cancel.isValid = true := rfl
    unfold ClientRuntime.dispatchTouch
    rw [if_pos hvalid]
    exact congrArg ClientRuntime.log (sendTouchAll_eq _ _ _ _)
  refine ⟨_, hlog, List.mem_map.mpr ⟨route, mem_reachedRoutes.mpr ⟨?_, hmem.2⟩, rfl⟩⟩
  have hroutes : route ∈ List.foldl _ s.touch.pending (s.touch.contacts.map Prod.snd) ↔ _ :=
    mem_foldl_pushNew (p := fun _ => True)
  exact hroutes.mpr (hmem.1.symm.imp id fun h => ⟨h, trivial⟩)

theorem Balanced.cancelled_by_host (h : Balanced s .touch) (hroute : Touched s.log route)
    (hevent : event = .input (.touch .cancel) ∨ event = .hostFocusLost) (time : ℕ) :
    ∃ more, (s.dispatchUnconsumedInput event time).1.log = s.log ++ more ∧
      touchInput route .cancel time ∈ more := by
  obtain ⟨more, hlog, hmem⟩ := h.cancel_reaches hroute time
  rcases hevent with rfl | rfl
  · exact ⟨more, hlog, hmem⟩
  · refine ⟨more ++ [.hostFocusLost time], ?_, List.mem_append_left _ hmem⟩
    have hlost : (s.dispatchUnconsumedInput .hostFocusLost time).1.log =
        (s.dispatchTouch none .cancel time).1.log ++ [.hostFocusLost time] := rfl
    rw [hlost, hlog, List.append_assoc]

/-! ### The main result -/

/-- What begins at a surface ends there, and ends once. -/
structure ClientRuntime.DeliversBalanced (s : ClientRuntime) : Prop where
  keys : ∀ keycode, (keyMonitor keycode).Accepts s.log
  buttons : buttonMonitor.Accepts s.log
  contacts : ∀ id, (contactMonitor id).Accepts s.log
  gestures : gestureMonitor.Accepts s.log
  scrolls : scrollMonitor.Accepts s.log
  cancels : ∀ route, Touched s.log route → ∀ event time,
    event = .input (.touch .cancel) ∨ event = .hostFocusLost →
      ∃ more, (s.dispatchUnconsumedInput event time).1.log = s.log ++ more ∧
        touchInput route .cancel time ∈ more

def aSurface (n : ℕ) : ClientSurfaceId := ⟨⟨0, 0⟩, n⟩

/-- The state after calls, with one adapter. -/
def ranLocally (calls : List RuntimeCall) : LocalRun :=
  Transition.exec (LocalRun.step (.stored LinuxKeycode)) { runtime := { adapters := [0] } } calls

end Client
