/-
**A client is told its final size, and when a resize is over.**

What a window remembers of its last request agrees with what it queued: as long as the request is
remembered, the last thing the surface was told is that request, and no pass has missed the surface
since.  So a request that equals the one before it means that in between a pass has not found the
surface at the window.

A surface that was last told that it is being resized is remembered with that request, or a pass has
found its window under external control since: all other ways in which a window forgets its client
queue the action that ends the resize.  The way into external control does not, and the statement
leaves open what becomes of such a surface.

Main definitions: `Agrees`, `ToldFinalSize`.

Main results:

* `Agrees.visit` — a pass over a window preserves the agreement;
* `clients_are_told_their_final_size` — the statement for every run;
* `requests_repeat_and_wait_for_fullscreen` — a run in which the same request is queued
  twice, and one in which the end of a resize waits for a fullscreen request.
-/

import Weld.WindowResize
import Weld.Transition
import Mathlib.Data.List.Chain

namespace WindowSizes

open Client TerminalClientResize Transition

/-! ### Marks -/

theorem lastTold_gap (marks : List Mark) (e : Bool) :
    lastTold (marks ++ [.gap e]) = lastTold marks := by
  simp [lastTold, Mark.action?]

theorem lastTold_told (marks : List Mark) (a : Resize) :
    lastTold (marks ++ [.told a]) = some a := by
  simp [lastTold, Mark.action?]

theorem sinceTold_gap (marks : List Mark) (e : Bool) :
    sinceTold (marks ++ [.gap e]) = .gap e :: sinceTold marks := by
  rw [sinceTold, List.reverse_append]
  exact List.takeWhile_cons_of_pos rfl

variable {a : Resize} {window : Window} {world : World} {marks : List Mark}

/-- A surface that was told something last has its last action there. -/
theorem lastTold_of_getLast? (h : marks.getLast? = some (.told a)) : lastTold marks = some a := by
  obtain ⟨before, rfl⟩ := List.getLast?_eq_some_iff.mp h
  exact lastTold_told before a

/-- Neighbours in a list of marks are not the same action. -/
def Changes (x y : Mark) : Prop := x = y → ∀ a, x ≠ .told a

theorem changes_append {mark : Mark} (h : marks.IsChain Changes)
    (hlast : ∀ a, marks.getLast? = some (.told a) → mark ≠ .told a) :
    (marks ++ [mark]).IsChain Changes := by
  refine List.isChain_append.mpr ⟨h, List.isChain_singleton mark, ?_⟩
  intro x hx y hy heq a htold
  cases hy
  rw [htold] at heq hx
  exact hlast a hx heq.symm

theorem changes_gap (h : marks.IsChain Changes) (e : Bool) : (marks ++ [Mark.gap e]).IsChain Changes :=
  changes_append h fun _ _ => Mark.noConfusion

variable (visits : List Visit)

@[simp] theorem marksOf_append (visit : Visit) (s : SurfaceId) :
    marksOf (visits ++ [visit]) s = marksOf visits s ++ visit.marks s := by
  rw [marksOf, List.flatMap_append, List.flatMap_singleton, marksOf]

/-- The actions of a surface are what it was told. -/
theorem filterMap_marksOf (s : SurfaceId) :
    (marksOf visits s).filterMap Mark.action? = resizesOf visits s := by
  induction visits with
  | nil => rfl
  | cons visit visits ih =>
      rw [marksOf, List.flatMap_cons, List.filterMap_append, ← marksOf, ih, resizesOf, resizesOf,
        List.flatMap_cons]
      congr 1
      rw [Visit.marks, List.filterMap_append, List.filterMap_map]
      split <;> simp [Function.comp_def, Mark.action?]

theorem lastTold_marksOf (s : SurfaceId) :
    lastTold (marksOf visits s) = (resizesOf visits s).getLast? := by
  rw [lastTold, filterMap_marksOf]

/-! ### What a window remembers -/

/-- A window remembers its last request to a surface exactly as long as nothing has happened to the
surface there since. -/
structure Agrees (resize : ClientResizeState) (s : SurfaceId) (marks : List Mark) : Prop where
  told : resize.surface = some s → resize.requestedSize ≠ (0, 0) →
    marks.getLast? = some (.told (resize.requested s))
  fresh : (resize.surface = some s → resize.requestedSize = (0, 0)) →
    ∀ a, marks.getLast? ≠ some (.told a)
  changed : marks.IsChain Changes
  settled : ∀ a, lastTold marks = some a → a.resizing = true →
    (resize.surface = some s ∧ resize.requestedSize ≠ (0, 0)) ∨ .gap true ∈ sinceTold marks

/-- A window that has asked for nothing has no resize to end. -/
def Idle (resize : ClientResizeState) : Prop :=
  resize.requestedSize = (0, 0) → resize.requestedResizing = false

namespace Agrees

variable {resize resize' : ClientResizeState} {s : SurfaceId} {marks : List Mark}

section

variable (h : Agrees resize s marks)
include h

/-- The surface is left as it is. -/
theorem stay (hsurface : resize'.surface = resize.surface)
    (hsize : resize'.requestedSize = resize.requestedSize)
    (hrequested : resize'.requested s = resize.requested s) : Agrees resize' s marks where
  told := by
    rw [hsurface, hsize, hrequested]
    exact h.told
  fresh := by
    rw [hsurface, hsize]
    exact h.fresh
  changed := h.changed
  settled := by
    rw [hsurface, hsize]
    exact h.settled

/-- The surface has come to the window, and nothing is asked of it yet. -/
theorem arrive (hother : resize.surface ≠ some s) (hsize : resize'.requestedSize = (0, 0)) :
    Agrees resize' s marks where
  told _ hne := absurd hsize hne
  fresh _ := h.fresh fun hsurface => absurd hsurface hother
  changed := h.changed
  settled a hlast hresizing := by
    rcases h.settled a hlast hresizing with ⟨hsurface, -⟩ | hsince
    · exact absurd hsurface hother
    · exact .inr hsince

/-- Something new is asked of the surface. -/
theorem request {desired : Resize} (hsurface : resize'.surface = some s)
    (hsize : resize'.requestedSize ≠ (0, 0)) (hrequested : resize'.requested s = desired)
    (hnew : resize.surface = some s → resize.requestedSize ≠ (0, 0) → desired ≠ resize.requested s) :
    Agrees resize' s (marks ++ [.told desired]) where
  told _ _ := by
    rw [hrequested]
    exact List.getLast?_concat
  fresh hnothing := absurd (hnothing hsurface) hsize
  changed := by
    refine changes_append h.changed ?_
    intro a hlast heq
    cases heq
    by_cases hremembered : resize.surface = some s ∧ resize.requestedSize ≠ (0, 0)
    · have htold := h.told hremembered.1 hremembered.2
      rw [hlast] at htold
      cases htold
      exact hnew hremembered.1 hremembered.2 rfl
    · refine h.fresh ?_ desired hlast
      intro hsurface
      by_contra hne
      exact hremembered ⟨hsurface, hne⟩
  settled _ _ _ := .inl ⟨hsurface, hsize⟩

/-- A pass has not found the surface at the window, which had no resize of it to end or was under
external control. -/
theorem leave (hgone : resize'.surface ≠ some s) {e : Bool}
    (hquiet : resize.surface = some s → resize.requestedResizing = true → e = true) :
    Agrees resize' s (marks ++ [.gap e]) where
  told hsurface := absurd hsurface hgone
  fresh _ a hlast := by
    rw [List.getLast?_concat] at hlast
    cases hlast
  changed := changes_gap h.changed e
  settled a hlast hresizing := by
    rw [lastTold_gap] at hlast
    rw [sinceTold_gap]
    rcases h.settled a hlast hresizing with ⟨hsurface, hsize⟩ | hsince
    · have htold := lastTold_of_getLast? (h.told hsurface hsize)
      rw [hlast] at htold
      cases htold
      rw [hquiet hsurface hresizing]
      exact .inr List.mem_cons_self
    · exact .inr (List.mem_cons_of_mem _ hsince)

/-- A pass has not found the surface at the window and has ended the resize. -/
theorem finish (hidle : Idle resize) (hgone : resize'.surface ≠ some s)
    (hsurface : resize.surface = some s) (hresizing : resize.requestedResizing = true)
    {terminal : Resize} (hterminal : terminal.resizing = false) (e : Bool) :
    Agrees resize' s (marks ++ [.told terminal] ++ [.gap e]) where
  told hback := absurd hback hgone
  fresh _ a hlast := by
    rw [List.getLast?_concat] at hlast
    cases hlast
  changed := by
    refine changes_gap (changes_append h.changed ?_) e
    intro a hlast heq
    cases heq
    have hsize : resize.requestedSize ≠ (0, 0) := by
      intro hzero
      rw [hidle hzero] at hresizing
      cases hresizing
    have htold := h.told hsurface hsize
    rw [hlast] at htold
    cases htold
    rw [ClientResizeState.requested, hresizing] at hterminal
    cases hterminal
  settled a hlast hstill := by
    rw [lastTold_gap, lastTold_told] at hlast
    cases hlast
    rw [hterminal] at hstill
    cases hstill

end

end Agrees

/-! ### What a pass does -/

variable {surface : SurfaceId}

namespace ClientResizeState

variable (resize : ClientResizeState)

theorem clearClient_surface : resize.clearClient.2.surface = none := by
  rw [clearClient]
  split
  · assumption
  · rfl

theorem idle_clearClient (h : Idle resize) : Idle resize.clearClient.2 := by
  rw [clearClient]
  split
  · exact h
  · exact fun _ => rfl

/-- The action that ends a resize is for the client that leaves. -/
theorem clearClient_told (s : SurfaceId) :
    (resize.clearClient.1.toList.map action).filter
        (fun action => action.surface = s) =
      if resize.surface = some s ∧ resize.requestedResizing = true then
        [{ resize.requested s with resizing := false }]
      else [] := by
  rw [clearClient]
  split
  · rename_i hnone
    rw [hnone, if_neg (by rintro ⟨hsurface, -⟩; cases hsurface)]
    rfl
  · rename_i surface hsurface
    by_cases hresizing : resize.requestedResizing = true
    · by_cases hs : surface = s
      · subst hs
        simp [hsurface, hresizing, action, requested]
      · simp [hsurface, hresizing, action, hs]
    · simp [hresizing]

variable {resize}

/-- A commit of the remembered client settles its pending request at most. -/
theorem observeCommit_same (h : resize.surface = some surface) (revision : ℕ) :
    (resize.observeCommit surface revision).1 = none ∧
      (resize.observeCommit surface revision).2 =
        { resize with pending := (resize.observeCommit surface revision).2.pending } := by
  rw [observeCommit, if_neg (by rw [h]; exact fun hne => hne rfl)]
  split
  · exact ⟨rfl, rfl⟩
  · split <;> exact ⟨rfl, rfl⟩

theorem observeCommit_other (h : resize.surface ≠ some surface) (revision : ℕ) :
    (resize.observeCommit surface revision).1 = resize.clearClient.1 ∧
      (resize.observeCommit surface revision).2.surface = some surface ∧
      (resize.observeCommit surface revision).2.requestedSize = (0, 0) ∧
      (resize.observeCommit surface revision).2.requestedResizing = false := by
  rw [observeCommit, if_pos h]
  exact ⟨rfl, rfl, rfl, rfl⟩

end ClientResizeState

open ClientResizeState

variable {resize : ClientResizeState} {s : SurfaceId}

/-- The window forgets the surface, or another one has taken its place. -/
theorem Agrees.cleared {resize' : ClientResizeState} (h : Agrees resize s marks) (hidle : Idle resize)
    (hgone : resize'.surface ≠ some s) (e : Bool) :
    Agrees resize' s (marks ++ (((resize.clearClient.1.toList.map action).filter
        fun action => action.surface = s).map Mark.told ++ [.gap e])) := by
  rw [clearClient_told, ← List.append_assoc]
  by_cases hends : resize.surface = some s ∧ resize.requestedResizing = true
  · rw [if_pos hends]
    exact h.finish hidle hgone hends.1 hends.2 rfl e
  · rw [if_neg hends, List.map_nil, List.append_nil]
    exact h.leave hgone fun hsurface hresizing => absurd ⟨hsurface, hresizing⟩ hends

/-- The pass remembers the mapped client of a window. -/
theorem World.reconcileWindow_client (world : World) {components : Components}
    (resize : ClientResizeState) (hexternal : components.externalControl = false)
    (hclient : world.mappedClient components = some surface) :
    (world.reconcileWindow components resize).1.surface = some surface := by
  have hobserved : (resize.observeCommit surface (world.revisions surface)).2.surface =
      some surface := by
    by_cases hsame : resize.surface = some surface
    · rw [(observeCommit_same hsame _).2]
      exact hsame
    · exact (observeCommit_other hsame _).2.1
  rw [World.reconcileWindow, hexternal, if_neg Bool.false_ne_true, hclient]
  dsimp only
  split
  · exact hobserved
  · split
    · exact hobserved
    · rfl

/-- What the pass decides about a window with a mapped client that may be asked for a size. -/
theorem World.reconcileWindow_settled (world : World) {components : Components}
    (resize : ClientResizeState) (hexternal : components.externalControl = false)
    (hclient : world.mappedClient components = some surface)
    (hpending : components.pendingFullscreenConfigure = false) :
    (world.reconcileWindow components resize).1.requested surface =
      world.desired components surface := by
  rw [World.reconcileWindow, hexternal, if_neg Bool.false_ne_true, hclient]
  simp only [hpending, Bool.false_eq_true, if_false]
  split
  · rename_i hequal
    obtain ⟨hsize, hresizing, hfullscreen, hlayout⟩ := hequal
    rw [ClientResizeState.requested, ← hsize, ← hresizing, ← hfullscreen, ← hlayout]
    rfl
  · rfl

theorem World.desired_size_ne_zero (world : World) (components : Components)
    (surface : SurfaceId) : (world.desired components surface).logicalSize ≠ (0, 0) :=
  desiredSize_ne_zero _ _

/-- What a window remembers of every surface. -/
structure Remembers (window : Window) : Prop where
  idle : Idle window.resize
  agrees : ∀ s, Agrees window.resize s (marksOf window.visits s)

/-- The actions that a commit of the client in the window queues for a surface. -/
def observed (resize : ClientResizeState) (surface : SurfaceId) (revision : ℕ) (s : SurfaceId) :
    List Resize :=
  ((resize.observeCommit surface revision).1.toList.map action).filter
    fun action => action.surface = s

/-- The client in the window has no resize of its own to end. -/
theorem observed_self (resize : ClientResizeState) (surface : SurfaceId) (revision : ℕ) :
    observed resize surface revision surface = [] := by
  by_cases hsame : resize.surface = some surface
  · rw [observed, (observeCommit_same hsame revision).1]
    rfl
  · rw [observed, (observeCommit_other hsame revision).1,
      clearClient_told, if_neg fun h => hsame h.1]

namespace Agrees

variable {resize resize' : ClientResizeState} {surface s : SurfaceId} {marks : List Mark}

/-- The client in the window, as long as nothing is asked of it. -/
theorem observed_client (h : Agrees resize surface marks) (revision : ℕ) :
    Agrees (resize.observeCommit surface revision).2 surface marks := by
  by_cases hsame : resize.surface = some surface
  · rw [(observeCommit_same hsame revision).2]
    exact h.stay rfl rfl rfl
  · exact h.arrive hsame (observeCommit_other hsame revision).2.2.1

/-- Any other surface. -/
theorem observed_other (h : Agrees resize s marks) (hidle : Idle resize) (revision : ℕ)
    (hne : s ≠ surface) (hsurface : resize'.surface = some surface) :
    Agrees resize' s
      (marks ++ ((observed resize surface revision s).map Mark.told ++ [.gap false])) := by
  have hgone : resize'.surface ≠ some s := by
    rw [hsurface]
    exact fun heq => hne (Option.some.inj heq).symm
  by_cases hsame : resize.surface = some surface
  · rw [observed, (observeCommit_same hsame revision).1]
    refine h.leave hgone ?_
    intro hother
    rw [hsame] at hother
    exact absurd (Option.some.inj hother).symm hne
  · rw [observed, (observeCommit_other hsame revision).1]
    exact h.cleared hidle hgone false

end Agrees

theorem idle_observeCommit (h : Idle resize) (surface : SurfaceId) (revision : ℕ) :
    Idle (resize.observeCommit surface revision).2 := by
  by_cases hsame : resize.surface = some surface
  · rw [(observeCommit_same hsame revision).2]
    exact h
  · exact fun _ => (observeCommit_other hsame revision).2.2.2

/-- What a window asks for next differs from what it remembers. -/
theorem desired_ne_requested {desired : Resize} {revision : ℕ} (hdiffers : ¬(desired.logicalSize =
      (resize.observeCommit surface revision).2.requestedSize ∧ desired.resizing =
      (resize.observeCommit surface revision).2.requestedResizing ∧ desired.fullscreen =
      (resize.observeCommit surface revision).2.requestedFullscreen ∧ desired.layout =
      (resize.observeCommit surface revision).2.requestedLayout))
    (hsame : resize.surface = some surface) : desired ≠ resize.requested surface := by
  rintro rfl
  rw [(observeCommit_same hsame revision).2] at hdiffers
  exact hdiffers ⟨rfl, rfl, rfl, rfl⟩

/-- A window with a mapped client: the client was there before or has just come, and it may be asked
for a size. -/
theorem Remembers.visit_mapped (h : Remembers window) (world : World)
    (hexternal : window.components.externalControl = false)
    (hclient : world.mappedClient window.components = some surface) :
    Remembers (world.visit window) := by
  let revision := world.revisions surface
  let found := window.resize.observeCommit surface revision
  let desired := world.desired window.components surface
  have hfound : found.2.surface = some surface := by
    by_cases hsame : window.resize.surface = some surface
    · show (window.resize.observeCommit surface revision).2.surface = _
      rw [(observeCommit_same hsame revision).2]
      exact hsame
    · exact (observeCommit_other hsame revision).2.1
  have hvisit : ∀ resize' actions,
      world.reconcileWindow window.components window.resize = (resize', actions) →
      ∀ s, marksOf (world.visit window).visits s = marksOf window.visits s ++
        ((actions.filter fun action => action.surface = s).map Mark.told ++
          if surface = s then [] else [.gap false]) := by
    intro resize' actions hresult s
    simp only [World.visit, hexternal, Bool.false_eq_true, if_false, hclient, marksOf_append,
      Visit.marks, hresult, Option.some.injEq]
  -- either the window asks for nothing, or it asks for what it wants
  have houtcome : (world.reconcileWindow window.components window.resize =
        (found.2, found.1.toList.map action)) ∨
      (world.reconcileWindow window.components window.resize = (found.2.request desired revision,
            found.1.toList.map action ++ [desired]) ∧
        (window.resize.surface = some surface → desired ≠ window.resize.requested surface)) := by
    rw [World.reconcileWindow, hexternal, if_neg Bool.false_ne_true, hclient]
    dsimp only
    by_cases hpending : window.components.pendingFullscreenConfigure = true
    · rw [if_pos hpending]
      exact .inl rfl
    · rw [if_neg hpending]
      split
      · exact .inl rfl
      · rename_i hdiffers
        exact .inr ⟨rfl, desired_ne_requested hdiffers⟩
  rcases houtcome with hresult | ⟨hresult, hnew⟩
  · refine ⟨?_, ?_⟩
    · show Idle (world.reconcileWindow window.components window.resize).1
      rw [hresult]
      exact idle_observeCommit h.idle surface revision
    · intro s
      rw [hvisit _ _ hresult]
      show Agrees (world.reconcileWindow window.components window.resize).1 s _
      rw [hresult]
      by_cases hs : surface = s
      · subst hs
        rw [if_pos rfl, List.append_nil]
        show Agrees _ _ (_ ++ (observed window.resize surface revision surface).map Mark.told)
        rw [observed_self, List.map_nil, List.append_nil]
        exact (h.agrees surface).observed_client revision
      · rw [if_neg hs]
        exact (h.agrees s).observed_other h.idle revision (Ne.symm hs) hfound
  · refine ⟨?_, ?_⟩
    · show Idle (world.reconcileWindow window.components window.resize).1
      rw [hresult]
      exact fun hzero => absurd hzero (world.desired_size_ne_zero window.components surface)
    · intro s
      rw [hvisit _ _ hresult]
      show Agrees (world.reconcileWindow window.components window.resize).1 s _
      rw [hresult, List.filter_append]
      by_cases hs : surface = s
      · subst hs
        rw [if_pos rfl, List.append_nil]
        show Agrees _ _ (_ ++ (observed window.resize surface revision surface ++ _).map Mark.told)
        rw [observed_self, List.nil_append, List.filter_cons_of_pos (by exact decide_eq_true rfl),
          List.filter_nil]
        exact (h.agrees surface).request rfl
          (world.desired_size_ne_zero window.components surface) rfl fun hsame _ => hnew hsame
      · have hnone : [desired].filter (fun action => action.surface = s) = [] := by
          refine List.filter_eq_nil_iff.mpr ?_
          intro action hmem heq
          rw [List.mem_singleton.mp hmem] at heq
          exact hs (of_decide_eq_true heq)
        rw [if_neg hs, hnone, List.append_nil]
        exact (h.agrees s).observed_other h.idle revision (Ne.symm hs) rfl

/-- **A pass over a window preserves the agreement.** -/
theorem Remembers.visit (h : Remembers window) (world : World) :
    Remembers (world.visit window) := by
  cases hexternal : window.components.externalControl with
  | true =>
      -- the action that would end a resize is thrown away
      have hresult : world.reconcileWindow window.components window.resize =
          (window.resize.clearClient.2, []) := by
        rw [World.reconcileWindow, hexternal]
        rfl
      refine ⟨?_, ?_⟩
      · show Idle (world.reconcileWindow window.components window.resize).1
        rw [hresult]
        exact window.resize.idle_clearClient h.idle
      · intro s
        simp only [World.visit, marksOf_append, Visit.marks, hresult, hexternal]
        refine (h.agrees s).leave ?_ fun _ _ => rfl
        rw [clearClient_surface]
        exact (Option.some_ne_none s).symm
  | false =>
      cases hclient : world.mappedClient window.components with
      | none =>
          have hresult : world.reconcileWindow window.components window.resize =
              (window.resize.clearClient.2, window.resize.clearClient.1.toList.map action) := by
            rw [World.reconcileWindow, hexternal, if_neg Bool.false_ne_true, hclient]
          refine ⟨?_, ?_⟩
          · show Idle (world.reconcileWindow window.components window.resize).1
            rw [hresult]
            exact window.resize.idle_clearClient h.idle
          · intro s
            simp only [World.visit, marksOf_append, Visit.marks, hresult, hexternal, hclient]
            refine (h.agrees s).cleared h.idle ?_ false
            rw [clearClient_surface]
            exact (Option.some_ne_none s).symm
      | some surface => exact h.visit_mapped world hexternal hclient

/-! ### Runs -/

/-- A pass visits every window once. -/
theorem World.lookup_foldl_visit (world : World) {ids : List Entity} (hnodup : ids.Nodup)
    (id : Entity) :
    (ids.foldl (fun world id => { world with windows := world.windows.modify id world.visit })
        world).windows.lookup id =
      if id ∈ ids then (world.windows.lookup id).map world.visit else world.windows.lookup id := by
  induction ids generalizing world with
  | nil => rfl
  | cons first ids ih =>
      obtain ⟨hfresh, hrest⟩ := List.nodup_cons.mp hnodup
      rw [List.foldl_cons, ih _ hrest]
      show (if id ∈ ids then ((world.windows.modify first world.visit).lookup id).map world.visit
        else (world.windows.modify first world.visit).lookup id) = _
      rw [AList.lookup_modify]
      by_cases hid : id = first
      · subst hid
        rw [if_neg hfresh, if_pos rfl, if_pos List.mem_cons_self]
      · rw [if_neg hid]
        simp [hid]

theorem World.foldl_visit_frame (world : World) (ids : List Entity) :
    (ids.foldl (fun world id => { world with windows := world.windows.modify id world.visit })
        world) =
      { world with
        windows := (ids.foldl
          (fun world id => { world with windows := world.windows.modify id world.visit })
            world).windows } := by
  induction ids generalizing world with
  | nil => rfl
  | cons first ids ih =>
      rw [List.foldl_cons, ih]

theorem World.lookup_reconcileWindowSizes (world : World) (o : IterationOrder Entity)
    (id : Entity) :
    (world.reconcileWindowSizes o).windows.lookup id =
      (world.windows.lookup id).map world.visit := by
  refine (world.lookup_foldl_visit (o.nodup_arrange 0 world.windows.keys_nodup) id).trans ?_
  have hmem := o.mem_arrange 0 world.windows.keys id
  by_cases hkey : id ∈ world.windows.keys
  · rw [if_pos (hmem.mpr hkey)]
  · rw [if_neg fun harranged => hkey (hmem.mp harranged), AList.notMem_keys_iff.mp hkey]
    rfl

/-- All windows agree with what they queued. -/
def Sound (world : World) : Prop :=
  ∀ id window, world.windows.lookup id = some window → Remembers window

theorem remembers_admitted (components : Components) : Remembers { components } where
  idle hzero := by cases hzero
  agrees _ :=
    { told := fun hsurface => by cases hsurface
      fresh := fun _ _ hlast => by cases hlast
      changed := List.isChain_nil
      settled := fun _ hlast => by cases hlast }

theorem Sound.step (h : Sound world) (event : Event) : Sound (step world event) := by
  intro id window hlookup
  cases event with
  | admitWindow entity components =>
      simp only [WindowSizes.step, AList.lookup_insertNew] at hlookup
      by_cases hid : id = entity
      · rw [if_pos hid] at hlookup
        cases hlookup
        cases hfound : world.windows.lookup id with
        | none => exact remembers_admitted components
        | some found => exact h id found hfound
      · rw [if_neg hid] at hlookup
        exact h id window hlookup
  | change entity components =>
      simp only [WindowSizes.step, AList.lookup_modify] at hlookup
      by_cases hid : id = entity
      · rw [if_pos hid] at hlookup
        obtain ⟨found, hfound, rfl⟩ := Option.map_eq_some_iff.mp hlookup
        exact ⟨(h id found hfound).idle, (h id found hfound).agrees⟩
      · rw [if_neg hid] at hlookup
        exact h id window hlookup
  | setClient entity client => exact h id window hlookup
  | removeClient entity => exact h id window hlookup
  | setInsets | removeRoot | commit => exact h id window hlookup
  | reconcileWindowSizes order =>
      simp only [WindowSizes.step] at hlookup
      rw [World.lookup_reconcileWindowSizes] at hlookup
      obtain ⟨found, hfound, rfl⟩ := Option.map_eq_some_iff.mp hlookup
      exact (h id found hfound).visit world

/-! ### The statement -/

/-- The surface is still the client in the window, which the user is resizing or which has a
fullscreen request to wait for. -/
def StillResizing (world : World) (window : Window) (s : SurfaceId) : Prop :=
  window.components.externalControl = false ∧ world.mappedClient window.components = some s ∧
    (window.components.pendingFullscreenConfigure = true ∨
      window.components.fullscreen = false ∧ window.components.activeResize = true)

/-- After a pass: the last action for the client of a window is what the window wants; two actions for
a surface that follow each other are equal only if a pass in between has missed the surface; and a
surface that was last told that it is being resized still is, or is told in the pass that it is not.
What becomes of a surface whose window a pass has found under external control since is left open. -/
structure ToldFinalSize (world : World) (window : Window) : Prop where
  final : ∀ s, window.components.externalControl = false →
    world.mappedClient window.components = some s →
    window.components.pendingFullscreenConfigure = false →
    (resizesOf window.visits s).getLast? = some (world.desired window.components s)
  changed : ∀ s, (marksOf window.visits s).IsChain Changes
  settled : ∀ s a, (resizesOf window.visits s).getLast? = some a → a.resizing = true →
    externalSince window.visits s = false → StillResizing world window s
  ended : ∀ s before visit a, window.visits = before ++ [visit] →
    (resizesOf before s).getLast? = some a → a.resizing = true →
    externalSince window.visits s = false → ¬StillResizing world window s →
    ∃ b ∈ visit.actions, b.surface = s ∧ b.resizing = false

theorem resizesOf_append (visit : Visit) (s : SurfaceId) :
    resizesOf (visits ++ [visit]) s =
      resizesOf visits s ++ visit.actions.filter fun action => action.surface = s := by
  rw [resizesOf, List.flatMap_append, List.flatMap_singleton, resizesOf]

/-- What is settled in every pass is ended in the pass in which it ends. -/
theorem ended_of_settled {before : List Visit} {visit : Visit}
    (hvisits : window.visits = before ++ [visit]) (hlast : (resizesOf before s).getLast? = some a)
    (hresizing : a.resizing = true) (hsettled : ∀ b, (resizesOf window.visits s).getLast? = some b →
      b.resizing = true → StillResizing world window s) (hover : ¬StillResizing world window s) :
    ∃ b ∈ visit.actions, b.surface = s ∧ b.resizing = false := by
  rw [hvisits, resizesOf_append] at hsettled
  rcases List.eq_nil_or_concat (visit.actions.filter fun action => action.surface = s) with
    hnone | ⟨others, b, hsome⟩
  · rw [hnone, List.append_nil] at hsettled
    exact absurd (hsettled a hlast hresizing) hover
  · rw [List.concat_eq_append] at hsome
    have hmem : b ∈ visit.actions.filter fun action => action.surface = s := by
      rw [hsome]
      exact List.mem_append_right _ (List.mem_singleton.mpr rfl)
    obtain ⟨hqueued, hsurface⟩ := List.mem_filter.mp hmem
    refine ⟨b, hqueued, of_decide_eq_true hsurface, ?_⟩
    refine Bool.eq_false_iff.mpr fun hstill => hover (hsettled b ?_ hstill)
    rw [hsome, ← List.append_assoc]
    exact List.getLast?_concat

theorem Remembers.settled (h : Remembers (world.visit window))
    (hlast : (resizesOf (world.visit window).visits s).getLast? = some a)
    (hresizing : a.resizing = true) (hsince : externalSince (world.visit window).visits s = false) :
    StillResizing world window s := by
  have hagrees := h.agrees s
  rw [← lastTold_marksOf] at hlast
  rcases hagrees.settled a hlast hresizing with ⟨hsurface, hsize⟩ | hgap
  · have hremembered : (world.reconcileWindow window.components window.resize).1.surface = some s :=
      hsurface
    have htold := lastTold_of_getLast? (hagrees.told hsurface hsize)
    rw [hlast] at htold
    cases htold
    cases hexternal : window.components.externalControl with
    | true =>
        rw [World.reconcileWindow, if_pos hexternal, clearClient_surface]
          at hremembered
        cases hremembered
    | false =>
        cases hclient : world.mappedClient window.components with
        | none =>
            rw [World.reconcileWindow, hexternal, if_neg Bool.false_ne_true, hclient] at hremembered
            rw [clearClient_surface] at hremembered
            cases hremembered
        | some surface =>
            rw [world.reconcileWindow_client window.resize hexternal hclient] at hremembered
            cases hremembered
            refine ⟨hexternal, hclient, ?_⟩
            cases hpending : window.components.pendingFullscreenConfigure with
            | true => exact .inl rfl
            | false =>
                have hdesired :=
                  world.reconcileWindow_settled window.resize hexternal hclient hpending
                have hactive : (world.desired window.components s).resizing = true := by
                  rw [← hdesired]
                  exact hresizing
                obtain ⟨hwindowed, hactive⟩ := Bool.and_eq_true_iff.mp hactive
                exact .inr ⟨by simpa using hwindowed, hactive⟩
  · rw [externalSince, List.contains_iff_mem.mpr hgap] at hsince
    cases hsince

theorem Remembers.toldFinalSize
    (h : Remembers (world.visit window)) : ToldFinalSize world (world.visit window) where
  final s hexternal hclient hpending := by
    have hexternal' : window.components.externalControl = false := hexternal
    have hclient' : world.mappedClient window.components = some s := hclient
    have hpending' : window.components.pendingFullscreenConfigure = false := hpending
    have hrequested := world.reconcileWindow_settled window.resize hexternal' hclient' hpending'
    have hsize : (world.reconcileWindow window.components window.resize).1.requestedSize ≠ (0, 0) := by
      intro hzero
      refine world.desired_size_ne_zero window.components s ?_
      rw [← hrequested]
      exact hzero
    have hlast := lastTold_of_getLast? ((h.agrees s).told
      (world.reconcileWindow_client window.resize hexternal' hclient') hsize)
    rw [lastTold_marksOf] at hlast
    exact hlast.trans (congrArg some hrequested)
  changed s := (h.agrees s).changed
  settled _ _ hlast hresizing hsince := h.settled hlast hresizing hsince
  ended _ _ _ _ hvisits hlast hresizing hsince hover :=
    ended_of_settled hvisits hlast hresizing
      (fun _ hlast' hresizing' => h.settled hlast' hresizing' hsince) hover

/-- The statement about all windows. -/
def World.ToldFinalSizes (world : World) : Prop :=
  ∀ id window, world.windows.lookup id = some window → ToldFinalSize world window

theorem World.frame_reconcileWindowSizes (world : World) (o : IterationOrder Entity) :
    world.reconcileWindowSizes o =
      { world with windows := (world.reconcileWindowSizes o).windows } :=
  world.foldl_visit_frame _

/-- **A client is told its final size, and when a resize is over**, in every pass, whatever happens
to the windows and the clients between passes. -/
theorem clients_are_told_their_final_size (events : List Event) (order : IterationOrder Entity) :
    (exec step {} (events ++ [.reconcileWindowSizes order])).ToldFinalSizes := by
  have hbefore : Sound (exec step {} events) := by
    refine exec_invariant (fun _ event h => h.step event) ?_ events
    intro id window hlookup
    cases hlookup
  rw [exec_append]
  generalize exec step {} events = world at hbefore
  intro id window hlookup
  have hpass : exec step world [.reconcileWindowSizes order] =
      { world with windows := (world.reconcileWindowSizes order).windows } :=
    world.frame_reconcileWindowSizes order
  rw [hpass] at hlookup ⊢
  replace hlookup : (world.reconcileWindowSizes order).windows.lookup id = some window := hlookup
  rw [World.lookup_reconcileWindowSizes] at hlookup
  obtain ⟨found, hfound, rfl⟩ := Option.map_eq_some_iff.mp hlookup
  have htold := Remembers.toldFinalSize ((hbefore id found hfound).visit world)
  exact ⟨htold.final, htold.changed, htold.settled, htold.ended⟩

/-! ### What a window does not promise -/

/-- A client maps, unmaps and maps again, with a pass after each. -/
def remapping : List Event :=
  let surface : SurfaceId := ⟨⟨0, 1⟩, 1⟩
  let pass : Event := .reconcileWindowSizes (.stored Entity)
  [.admitWindow 1 { size := (.finite 320, .finite 240), occupant := some 7 },
    .setClient 7 ⟨surface, true⟩, pass, .setClient 7 ⟨surface, false⟩, pass,
    .setClient 7 ⟨surface, true⟩, pass]

/-- A resize ends while a fullscreen request waits to be applied. -/
def waitingForFullscreen : List Event :=
  let surface : SurfaceId := ⟨⟨0, 1⟩, 1⟩
  let components : Components := { size := (.finite 320, .finite 240), occupant := some 7 }
  [.admitWindow 1 { components with interaction := some (.resize 0) }, .setClient 7 ⟨surface, true⟩,
    .reconcileWindowSizes (.stored Entity),
    .change 1 { components with pendingFullscreenConfigure := true }]

/-- A client that unmaps and maps again is asked for the same once more, and one whose resize ends
while a fullscreen request waits is not told in that pass. -/
theorem requests_repeat_and_wait_for_fullscreen :
    (¬∀ (events : List Event) (id : Entity) (window : Window),
      (exec step {} events).windows.lookup id = some window →
      ∀ s, (resizesOf window.visits s).IsChain (· ≠ ·)) ∧
    ¬∀ (events : List Event) (order : IterationOrder Entity) (id : Entity) (window : Window),
      (exec step {} (events ++ [.reconcileWindowSizes order])).windows.lookup id =
        some window →
      ∀ s a, (resizesOf window.visits s).getLast? = some a → a.resizing = true →
        externalSince window.visits s = false → window.components.activeResize = true := by
  constructor
  · intro h
    have htwice : ((exec step {} remapping).windows.lookup 1).map
        (fun window => resizesOf window.visits ⟨⟨0, 1⟩, 1⟩) =
          some [⟨⟨⟨0, 1⟩, 1⟩, .floating, (320, 240), false, false⟩,
            ⟨⟨⟨0, 1⟩, 1⟩, .floating, (320, 240), false, false⟩] := by
      decide +kernel
    obtain ⟨window, hlookup, hresizes⟩ := Option.map_eq_some_iff.mp htwice
    have hchain := h remapping 1 window hlookup ⟨⟨0, 1⟩, 1⟩
    rw [hresizes] at hchain
    exact (List.isChain_cons_cons.mp hchain).1 rfl
  · intro h
    have hlingers : ((exec step {} (waitingForFullscreen ++
        [.reconcileWindowSizes (.stored Entity)])).windows.lookup 1).map
        (fun window => (resizesOf window.visits ⟨⟨0, 1⟩, 1⟩,
          externalSince window.visits ⟨⟨0, 1⟩, 1⟩, window.components.activeResize)) =
          some ([⟨⟨⟨0, 1⟩, 1⟩, .floating, (320, 240), true, false⟩], false, false) := by
      decide +kernel
    obtain ⟨window, hlookup, hfacts⟩ := Option.map_eq_some_iff.mp hlingers
    simp only [Prod.mk.injEq] at hfacts
    obtain ⟨hresizes, hexternal, hactive⟩ := hfacts
    have hstill := h waitingForFullscreen (.stored Entity) 1 window hlookup ⟨⟨0, 1⟩, 1⟩
      ⟨⟨⟨0, 1⟩, 1⟩, .floating, (320, 240), true, false⟩ (by rw [hresizes]; rfl) rfl hexternal
    rw [hactive] at hstill
    cases hstill

end WindowSizes
