/-
**Composed views are never stale.**

What belongs to a view changes with every role, every commit and every surface that goes away.  After
each event, the last commit sent for a view shows what now belongs to it, and its revision is larger
than any before.

Main definitions: `ViewRun`, `KeepsKind`, `lifetime`, `Fresh`.

Main results:

* `Settled.observe`, `Settled.withdraw` — one call;
* `composed_views_are_fresh` — whole runs.
-/

import Weld.SurfaceContents
import Weld.Transition
import Weld.ViewScene

namespace Views

open Client Hoist SourceViews Transition

/-! ### Runs -/

inductive ViewCall
  | observe (session : HoistSessionId) (event : ClientSurfaceEvent)
  | withdraw (surface : ClientSurfaceId)

/-- A call, or an event that is sent. -/
inductive ViewRecord
  | call (call : ViewCall)
  | emitted (event : ViewEvent)

/-- The views of a source, with everything observed and sent, and the latest commit of each surface as
it was observed while the surface belonged to a view; after an error nothing more happens. -/
structure ViewRun where
  views : SourceViews := .new .composited
  failed : Bool := false
  log : List ViewRecord := []
  commits : ClientSurfaceId → Option ClientSurfaceCommit := fun _ => none

namespace ViewRun

/-- The latest commits after a call. -/
def latest (r : ViewRun) : ViewCall → ClientSurfaceId → Option ClientSurfaceCommit
  | .observe _ ⟨surface, .commit commit⟩ =>
      Function.update r.commits surface
        (if (r.views.root surface).isSome then some commit else none)
  | .observe _ ⟨surface, .destroyed⟩ | .withdraw surface => Function.update r.commits surface none
  | _ => r.commits

def step (r : ViewRun) (call : ViewCall) : ViewRun :=
  if r.failed then r
  else
    let result : SourceViews × Except String (List ViewEvent) :=
      match call with
      | .observe session event => r.views.observe session event
      | .withdraw surface => ((r.views.withdraw surface).1,
          (r.views.withdraw surface).2.map (·.toList))
    match result with
    | (views, .ok events) =>
        { views := views, log := r.log ++ .call call :: events.map .emitted,
          commits := r.latest call }
    | (views, .error _) =>
        { views := views, failed := true, log := r.log ++ [.call call], commits := r.latest call }

end ViewRun

/-- A surface that becomes a toplevel has no commit yet and belongs to no view, and no toplevel becomes
a popup. -/
def KeepsKind (s : SourceViews) : ViewCall → Prop
  | .observe _ ⟨surface, .role (.toplevel _)⟩ =>
      s.isView surface = true ∨ s.root surface = none ∧ s.commitOf surface = none
  | .observe _ ⟨surface, .role (.popup _)⟩ => s.isView surface = false
  | _ => True

/-! ### What was observed and sent for a view -/

/-- The latest commit of a root, and the revisions that were observed (`false`) and sent (`true`). -/
structure Lifetime where
  commit : Option ClientSurfaceCommit := none
  revisions : List (Bool × ℕ) := []

/-- What one record adds; a view is created with the role of its root, and ends with it. -/
def Lifetime.next (root : ClientSurfaceId) (life : Option Lifetime) : ViewRecord → Option Lifetime
  | .call (.observe _ event) =>
      if event.surface = root then
        match event.kind with
        | .role (.toplevel _) => some (life.getD {})
        | .commit c => life.map fun l => ⟨some c, l.revisions ++ [(false, c.revision)]⟩
        | .destroyed => none
        | _ => life
      else life
  | .call (.withdraw surface) => if surface = root then none else life
  | .emitted sent =>
      match sent.event.kind with
      | .commit c =>
          if sent.event.surface = root then
            life.map fun l => { l with revisions := l.revisions ++ [(true, c.revision)] }
          else life
      | _ => life

def lifetime (root : ClientSurfaceId) (log : List ViewRecord) : Option Lifetime :=
  log.foldl (Lifetime.next root) none

/-- The last commit that was sent for a surface. -/
def lastCommit (root : ClientSurfaceId) (log : List ViewRecord) : Option ViewEvent :=
  (log.filterMap fun record =>
    match record with
    | .call _ => none
    | .emitted sent =>
        match sent.event.kind with
        | .commit _ => if sent.event.surface = root then some sent else none
        | _ => none).getLast?

theorem lifetime_concat (root : ClientSurfaceId) (log : List ViewRecord) (record : ViewRecord) :
    lifetime root (log ++ [record]) = Lifetime.next root (lifetime root log) record :=
  List.foldl_concat _ _ _ _

theorem lastCommit_call (root : ClientSurfaceId) (log : List ViewRecord) (call : ViewCall) :
    lastCommit root (log ++ [.call call]) = lastCommit root log := by
  simp [lastCommit]

variable {root x : ClientSurfaceId} {log log' : List ViewRecord} {sent : ViewEvent}
  {call : ViewCall} {life : Lifetime} {s t : SourceViews} {commit : ClientSurfaceCommit}
  {view : View} {session : HoistSessionId} {event : ClientSurfaceEvent} {r : ViewRun}
  {shown : ClientSurfaceCommit}

theorem lastCommit_emitted (h : sent.event = ⟨root, .commit shown⟩) :
    lastCommit root (log ++ [.emitted sent]) = some sent := by
  simp [lastCommit, h]

theorem lastCommit_elsewhere
    (h : sent.event.surface ≠ root) :
    lastCommit root (log ++ [.emitted sent]) = lastCommit root log := by
  have hnone : ∀ kind : ClientSurfaceEventKind, (match kind with
      | .commit _ => if sent.event.surface = root then some sent else none
      | _ => none) = none := by
    intro kind
    cases kind <;> simp [h]
  simp only [lastCommit, List.filterMap_append, List.filterMap_cons, List.filterMap_nil, hnone,
    List.append_nil]

/-- The notes of a lifetime fit the view and the commit that is retained. -/
structure Lifetime.Sound (life : Lifetime) (view : View) (commit : Option ClientSurfaceCommit) :
    Prop where
  latest : commit.map (·.geometry) = life.commit.map (·.geometry)
  rising : life.revisions.Pairwise fun a b => b.1 = true → a.2 < b.2
  bounded : ∀ note ∈ life.revisions, note.2 ≤ max view.revision ((commit.map (·.revision)).getD 0)
  reached : view.revision = 0 ∨ (true, view.revision) ∈ life.revisions
  upstream : ∀ c ∈ commit, (false, c.revision) ∈ life.revisions

/-- What holds of a view, whether or not it was composed since its last change. -/
structure HeldAt (s : SourceViews) (log : List ViewRecord) (root : ClientSurfaceId) : Prop where
  known : s.isView root = true → (s.surfaces.lookup root).isSome = true
  toplevel : s.isView root = true → s.popupOf root = none
  created : (lifetime root log).isSome = s.isView root
  sound : ∀ life view, lifetime root log = some life → s.views.lookup root = some view →
    life.Sound view (s.commitOf root)

structure Held (s : SourceViews) (log : List ViewRecord) : Prop where
  mode : s.mode = .composited
  sessions : ∀ surface state, s.surfaces.lookup surface = some state → state.session.isSome = true
  held : ∀ root, HeldAt s log root

/-- The last commit of a view shows what belongs to it, and no revision is larger. -/
def Fresh (s : SourceViews) (log : List ViewRecord) (root : ClientSurfaceId) : Prop :=
  ∀ view, s.views.lookup root = some view →
    (∀ life, lifetime root log = some life → ∀ note ∈ life.revisions, note.2 ≤ view.revision) ∧
      ∀ commit, s.commitOf root = some commit →
        ∃ sent, lastCommit root log = some sent ∧ Shown s root view.hits commit sent

/-- A view was composed since its last change. -/
structure Settled (s : SourceViews) (log : List ViewRecord) : Prop extends Held s log where
  fresh : ∀ root, Fresh s log root

/-! ### Logs -/

theorem lifetime_call
    (h : ∀ life, Lifetime.next root life (.call call) = life) :
    lifetime root (log ++ [.call call]) = lifetime root log := by
  rw [lifetime_concat, h]

/-- An event that is no commit, or one for another surface, leaves the notes alone. -/
theorem lifetime_emitted_elsewhere (h : sent.event.surface ≠ root) :
    lifetime root (log ++ [.emitted sent]) = lifetime root log := by
  rw [lifetime_concat]
  unfold Lifetime.next
  cases hkind : sent.event.kind <;> simp [hkind, h]

theorem lifetime_emitted (h : sent.event = ⟨root, .commit shown⟩)
    (hlife : lifetime root log = some life) :
    lifetime root (log ++ [.emitted sent]) =
      some { life with revisions := life.revisions ++ [(true, shown.revision)] } := by
  rw [lifetime_concat, hlife]
  simp [Lifetime.next, h]

/-! ### Views that are not affected -/

/-- A view is held as before if neither it nor the commit of its root nor the notes changed. -/
theorem HeldAt.congr
    (h : HeldAt s log root) (hviews : t.views.lookup root = s.views.lookup root)
    (hknown : (s.surfaces.lookup root).isSome = true → (t.surfaces.lookup root).isSome = true)
    (hpopup : s.popupOf root = none → t.popupOf root = none)
    (hcommit : t.commitOf root = s.commitOf root)
    (hlife : lifetime root log' = lifetime root log) : HeldAt t log' root := by
  have hview : t.isView root = s.isView root := by rw [isView, isView, hviews]
  refine ⟨fun hv => hknown (h.known (hview ▸ hv)), fun hv => hpopup (h.toplevel (hview ▸ hv)), ?_, ?_⟩
  · rw [hlife, hview]
    exact h.created
  · rw [hlife, hviews, hcommit]
    exact h.sound

theorem HeldAt.of_lookups
    (h : HeldAt s log root) (hviews : t.views.lookup root = s.views.lookup root)
    (hsurfaces : t.surfaces.lookup root = s.surfaces.lookup root)
    (hlife : lifetime root log' = lifetime root log) : HeldAt t log' root :=
  h.congr hviews (by rw [hsurfaces]; exact id) (by rw [popupOf, popupOf, hsurfaces]; exact id)
    (by rw [commitOf, commitOf, hsurfaces]) hlife

theorem Fresh.congr
    (h : Fresh s log root) (hviews : t.views.lookup root = s.views.lookup root)
    (hcommit : t.commitOf root = s.commitOf root)
    (hlife : lifetime root log' = lifetime root log)
    (hlast : lastCommit root log' = lastCommit root log)
    (hshown : ∀ hits commit sent, Shown s root hits commit sent → Shown t root hits commit sent) :
    Fresh t log' root := by
  intro view hview
  rw [hviews] at hview
  obtain ⟨hbound, hscene⟩ := h view hview
  refine ⟨by rwa [hlife], fun commit hc => ?_⟩
  rw [hcommit] at hc
  obtain ⟨sent, hsent, hshow⟩ := hscene commit hc
  exact ⟨sent, by rw [hlast, hsent], hshown _ _ _ hshow⟩

/-- What is sent for another surface changes nothing. -/
theorem Fresh.emitted_elsewhere (h : Fresh s log root) (hroot : sent.event.surface ≠ root) :
    Fresh s (log ++ [.emitted sent]) root :=
  h.congr rfl rfl (lifetime_emitted_elsewhere hroot) (lastCommit_elsewhere hroot)
    fun _ _ _ hshown => hshown

/-! ### Composing -/

/-- A revision that has no successor. -/
def Exhausted (log : List ViewRecord) (root : ClientSurfaceId) : Prop :=
  ∃ life, lifetime root log = some life ∧ ∃ note ∈ life.revisions, wireLimit ≤ note.2 + 1

/-- What composing leaves behind: the view of the root is fresh, and the others are as they were. -/
structure Composed (s t : SourceViews) (log log' : List ViewRecord) (root : Option ClientSurfaceId) :
    Prop where
  held : Held t log'
  fresh : ∀ x, x ∈ root ∨ Fresh s log x → Fresh t log' x
  surfaces : t.surfaces = s.surfaces
  alike : ∀ x, AlikeAt s t x
  notes : ∀ x, x ∉ root → lifetime x log' = lifetime x log

/-- The notes after one more commit of the view. -/
theorem Lifetime.Sound.emitted {view' : View} (h : life.Sound view (some commit))
    (hlarger : max view.revision commit.revision < view'.revision) :
    ({ life with revisions := life.revisions ++ [(true, view'.revision)] } : Lifetime).Sound view'
      (some commit) := by
  have hbound : ∀ note ∈ life.revisions, note.2 < view'.revision := fun note hnote =>
    lt_of_le_of_lt (h.bounded note hnote) hlarger
  refine ⟨h.latest, ?_, ?_, Or.inr ?_, ?_⟩
  · refine List.pairwise_append.mpr ⟨h.rising, List.pairwise_singleton _ _, fun a ha b hb _ => ?_⟩
    rw [List.mem_singleton.mp hb]
    exact hbound a ha
  · intro note hnote
    rcases List.mem_append.mp hnote with hnote | hnote
    · exact le_max_of_le_left (hbound note hnote).le
    · rw [List.mem_singleton.mp hnote]
      exact le_max_left _ _
  · exact List.mem_append_right _ List.mem_cons_self
  · intro c hc
    exact List.mem_append_left _ (h.upstream c hc)

section

variable (h : Held s log)
include h

/-- Setting a view keeps what is held, if its notes fit. -/
theorem Held.setsView (hview : s.isView root = true) (hsets : SetsView s t root view)
    (hlife : lifetime root log' = some life) (hsound : life.Sound view (s.commitOf root))
    (hnotes : ∀ x, x ≠ root → lifetime x log' = lifetime x log) : Held t log' := by
  refine ⟨hsets.mode.trans h.mode, by rw [hsets.surfaces]; exact h.sessions, fun x => ?_⟩
  by_cases hx : x = root
  · subst hx
    obtain ⟨hview', hpopup, hcommit⟩ := hsets.alikeAt hview x
    refine ⟨fun _ => ?_, fun _ => ?_, ?_, fun life' view' hl hv => ?_⟩
    · rw [hsets.surfaces]
      exact (h.held x).known hview
    · rw [hpopup]
      exact (h.held x).toplevel hview
    · rw [hlife, hview', hview]
      rfl
    · rw [hlife] at hl
      rw [hsets.views, if_pos rfl] at hv
      cases hl
      cases hv
      rw [hcommit]
      exact hsound
  · exact (h.held x).of_lookups (by rw [hsets.views, if_neg hx]) (by rw [hsets.surfaces]) (hnotes x hx)

omit h in
/-- Setting one view leaves the others as they were. -/
theorem Fresh.setsView
    (h : Fresh s log x) (hsets : SetsView s t root view) (hview : s.isView root = true)
    (hx : x ≠ root) (hlife : lifetime x log' = lifetime x log)
    (hlast : lastCommit x log' = lastCommit x log) : Fresh t log' x :=
  h.congr (by rw [hsets.views, if_neg hx]) (hsets.alikeAt hview x).2.2 hlife hlast
    fun _ _ _ hshown => hshown.congr (hsets.alikeAt hview)

/-- A view whose root has a commit. -/
theorem Held.emits {event : ViewEvent} (hview : s.views.lookup root = some view)
    (hcommit : s.commitOf root = some commit) (hemits : Emits s t root view commit event) :
    Composed s t log (log ++ [.emitted event]) (some root) := by
  obtain ⟨view', shown, hsets, hevent, hrevision, hlarger, hshown⟩ := hemits
  have hisView : s.isView root = true := by rw [isView, hview]; rfl
  have halike : ∀ x, AlikeAt s t x := hsets.alikeAt hisView
  have hsurface : event.event.surface = root := by rw [hevent]
  have hnotes : ∀ x, x ≠ root → lifetime x (log ++ [.emitted event]) = lifetime x log :=
    fun x hx => lifetime_emitted_elsewhere (by rw [hsurface]; exact hx.symm)
  obtain ⟨life, hlife⟩ := Option.isSome_iff_exists.mp ((h.held root).created.trans hisView)
  have hlife' := lifetime_emitted hevent hlife
  rw [hrevision] at hlife'
  have hsound : ({ life with revisions := life.revisions ++ [(true, view'.revision)] } :
      Lifetime).Sound view' (some commit) :=
    Lifetime.Sound.emitted (hcommit ▸ (h.held root).sound life view hlife hview) hlarger
  refine ⟨h.setsView hisView hsets hlife' (hcommit ▸ hsound) hnotes, fun x hx => ?_,
    hsets.surfaces, halike, fun x hx => hnotes x fun heq => hx (heq ▸ rfl)⟩
  by_cases hroot : x = root
  · subst hroot
    intro view'' hv
    rw [hsets.views, if_pos rfl] at hv
    cases hv
    refine ⟨fun life'' hl note hnote => ?_, fun commit' hc => ?_⟩
    · rw [hlife'] at hl
      cases hl
      have hbound := hsound.bounded note hnote
      rw [Option.map_some, Option.getD_some] at hbound
      omega
    · rw [(halike x).2.2, hcommit] at hc
      cases hc
      exact ⟨event, lastCommit_emitted hevent, hshown.congr halike⟩
  · have hfresh := hx.resolve_left fun hmem => hroot (Option.mem_some_iff.mp hmem).symm
    refine hfresh.setsView hsets hisView hroot (hnotes x hroot) (lastCommit_elsewhere ?_)
    rw [hsurface]
    exact fun heq => hroot heq.symm

/-- A view whose root has no commit shows nothing yet. -/
theorem Held.waits (hview : s.views.lookup root = some view) (hcommit : s.commitOf root = none)
    (hsets : SetsView s t root { view with invalid := false }) : Composed s t log log (some root) := by
  have hisView : s.isView root = true := by rw [isView, hview]; rfl
  obtain ⟨life, hlife⟩ := Option.isSome_iff_exists.mp ((h.held root).created.trans hisView)
  have hsound : life.Sound { view with invalid := false } none := by
    obtain ⟨hlatest, hrising, hbounded, hreached, hupstream⟩ :=
      (h.held root).sound life view hlife hview
    rw [hcommit] at hlatest hbounded hupstream
    exact ⟨hlatest, hrising, hbounded, hreached, hupstream⟩
  refine ⟨h.setsView hisView hsets hlife (hcommit ▸ hsound) fun _ _ => rfl, fun x hx => ?_,
    hsets.surfaces, hsets.alikeAt hisView, fun _ _ => rfl⟩
  by_cases hroot : x = root
  · subst hroot
    intro view'' hv
    rw [hsets.views, if_pos rfl] at hv
    cases hv
    refine ⟨fun life' hl note hnote => ?_, fun commit hc => ?_⟩
    · rw [hlife] at hl
      cases hl
      simpa using hsound.bounded note hnote
    · rw [(hsets.alikeAt hisView x).2.2, hcommit] at hc
      cases hc
  · have hfresh := hx.resolve_left fun hmem => hroot (Option.mem_some_iff.mp hmem).symm
    exact hfresh.setsView hsets hisView hroot rfl rfl

omit h in
/-- A surface that is gone has nothing to compose. -/
theorem compose_gone
    (hsurface : s.surfaces.lookup root = none) :
    s.compose root =
      ({ s with views := s.views.modify root fun view => { view with invalid := false } }, .ok none) := by
  simp only [compose, tryCompose, hsurface, Option.bind_none]

theorem Held.gone (hview : s.isView root = false) :
    Composed s { s with views := s.views.modify root fun view => { view with invalid := false } }
      log log (some root) := by
  have hnone : s.views.lookup root = none := by simpa [isView] using hview
  have hsame : ∀ x, (s.views.modify root fun view => { view with invalid := false }).lookup x =
      s.views.lookup x := by
    intro x
    rw [AList.lookup_modify]
    split_ifs with hx
    · rw [hx, hnone]
      rfl
    · rfl
  have halike : ∀ x, AlikeAt s
      { s with views := s.views.modify root fun view => { view with invalid := false } } x :=
    fun x => ⟨by rw [isView, isView, hsame], rfl, rfl⟩
  refine ⟨⟨h.mode, h.sessions, fun x => (h.held x).of_lookups (hsame x) rfl rfl⟩, fun x hx => ?_, rfl,
    halike, fun _ _ => rfl⟩
  rcases hx with hroot | hfresh
  · intro view hv
    rw [hsame, ← Option.mem_some_iff.mp hroot, hnone] at hv
    cases hv
  · exact hfresh.congr (hsame x) rfl rfl rfl fun _ _ _ hshown => hshown.congr halike

/-- **Composing a root makes its view fresh**, unless its revisions are exhausted. -/
theorem Held.compose (hroot : s.isView root = true ∨ s.surfaces.lookup root = none) :
    (∃ event, (s.compose root).2 = .ok event ∧
        Composed s (s.compose root).1 log (log ++ event.toList.map .emitted) (some root)) ∨
      ((∃ error, (s.compose root).2 = .error error) ∧ Exhausted log root) := by
  cases hview : s.views.lookup root with
  | none =>
      have hisView : s.isView root = false := by rw [isView, hview]; rfl
      have hgone := compose_gone (hroot.resolve_left (by simp [hisView]))
      rw [hgone]
      refine Or.inl ⟨none, rfl, ?_⟩
      rw [Option.toList_none, List.map_nil, List.append_nil]
      exact h.gone hisView
  | some view =>
      have hisView : s.isView root = true := by rw [isView, hview]; rfl
      cases hcommit : s.commitOf root with
      | none =>
          obtain ⟨hnothing, hsets⟩ := compose_waiting hview hcommit
          refine Or.inl ⟨none, hnothing, ?_⟩
          rw [Option.toList_none, List.map_nil, List.append_nil]
          exact h.waits hview hcommit hsets
      | some commit =>
          rcases compose_spec h.sessions hview ((h.held root).toplevel hisView) hcommit with
            ⟨event, hevent, hemits⟩ | ⟨herror, hlimit⟩
          · exact Or.inl ⟨some event, hevent, h.emits hview hcommit hemits⟩
          · obtain ⟨life, hlife⟩ := Option.isSome_iff_exists.mp ((h.held root).created.trans hisView)
            have hsound := (h.held root).sound life view hlife hview
            rw [hcommit] at hsound
            refine Or.inr ⟨herror, life, hlife, ?_⟩
            by_cases hless : view.revision ≤ commit.revision
            · exact ⟨_, hsound.upstream commit rfl, by simpa [hless] using hlimit⟩
            · refine ⟨(true, view.revision), hsound.reached.resolve_left (by omega), ?_⟩
              simpa [(not_le.mp hless).le] using hlimit

/-- The same for a root that need not be there. -/
theorem Held.composeIf {root : Option ClientSurfaceId}
    (hroot : ∀ x ∈ root, s.isView x = true ∨ s.surfaces.lookup x = none) :
    (∃ event, (s.composeIf root).2 = .ok event ∧
        Composed s (s.composeIf root).1 log (log ++ event.toList.map .emitted) root) ∨
      ((∃ error, (s.composeIf root).2 = .error error) ∧ ∃ x ∈ root, Exhausted log x) := by
  cases root with
  | none =>
      refine Or.inl ⟨none, rfl, ?_⟩
      rw [Option.toList_none, List.map_nil, List.append_nil]
      exact ⟨h, fun x hx => hx.resolve_left (Option.not_mem_none x), rfl,
        fun x => ⟨rfl, rfl, rfl⟩, fun _ _ => rfl⟩
  | some root =>
      rcases h.compose (hroot root rfl) with hdone | ⟨herror, hexhausted⟩
      · exact Or.inl hdone
      · exact Or.inr ⟨herror, root, rfl, hexhausted⟩

end

/-! ### Noting a call -/

/-- Only what is known of one surface differs. -/
structure Elsewhere (s t : SourceViews) (surface : ClientSurfaceId) : Prop where
  mode : t.mode = s.mode
  views : ∀ x, x ≠ surface → t.views.lookup x = s.views.lookup x
  surfaces : ∀ x, x ≠ surface → t.surfaces.lookup x = s.surfaces.lookup x

theorem Elsewhere.alikeAt {surface : ClientSurfaceId} (h : Elsewhere s t surface) (hx : x ≠ surface) :
    AlikeAt s t x := by
  refine ⟨?_, ?_, ?_⟩
  · rw [isView, isView, h.views x hx]
  · rw [popupOf, popupOf, h.surfaces x hx]
  · rw [commitOf, commitOf, h.surfaces x hx]

/-- The surface a call is about. -/
def ViewCall.surface : ViewCall → ClientSurfaceId
  | .observe _ event => event.surface
  | .withdraw surface => surface

theorem lifetime_call_elsewhere
    (hx : x ≠ call.surface) : lifetime x (log ++ [.call call]) = lifetime x log := by
  refine lifetime_call fun life => ?_
  cases call with
  | observe | withdraw => exact if_neg fun heq => hx heq.symm

/-- What a call leaves to be composed: the views that its surface belonged to or belongs to. -/
theorem Settled.elsewhere
    (h : Settled s log) (helse : Elsewhere s t call.surface)
    (hhere : HeldAt t (log ++ [.call call]) call.surface)
    (hsession : ∀ state, t.surfaces.lookup call.surface = some state → state.session.isSome = true) :
    Held t (log ++ [.call call]) ∧ ∀ x, x ≠ call.surface → ¬ s.LeadsTo call.surface x →
      ¬ t.LeadsTo call.surface x → Fresh t (log ++ [.call call]) x := by
  refine ⟨⟨helse.mode.trans h.mode, fun x state hstate => ?_, fun x => ?_⟩, fun x hx hs ht => ?_⟩
  · by_cases hx : x = call.surface
    · exact hsession state (hx ▸ hstate)
    · exact h.sessions x state (helse.surfaces x hx ▸ hstate)
  · by_cases hx : x = call.surface
    · rw [hx]
      exact hhere
    · exact (h.held x).of_lookups (helse.views x hx) (helse.surfaces x hx)
        (lifetime_call_elsewhere hx)
  · exact (h.fresh x).congr (helse.views x hx) (helse.alikeAt hx).2.2 (lifetime_call_elsewhere hx)
      (lastCommit_call _ _ _) fun _ _ _ hshown =>
        hshown.elsewhere hx (fun y hy => helse.alikeAt hy) hs ht

theorem heldAt_absent
    (hview : s.views.lookup x = none) (hlife : lifetime x log = none) : HeldAt s log x := by
  have hisView : s.isView x = false := by rw [isView, hview]; rfl
  refine ⟨fun h => ?_, fun h => ?_, by rw [hlife, hisView]; rfl, fun life view hl => ?_⟩
  · rw [hisView] at h
    cases h
  · rw [hisView] at h
    cases h
  · rw [hlife] at hl
    cases hl

theorem heldAt_view (hview : s.views.lookup x = some view)
    (hknown : (s.surfaces.lookup x).isSome = true) (htoplevel : s.popupOf x = none)
    (hlife : lifetime x log = some life) (hsound : life.Sound view (s.commitOf x)) :
    HeldAt s log x := by
  refine ⟨fun _ => hknown, fun _ => htoplevel, by rw [hlife, isView, hview]; rfl,
    fun life' view' hl hv => ?_⟩
  rw [hlife] at hl
  rw [hview] at hv
  cases hl
  cases hv
  exact hsound

/-- The state in which an event was noted, before anything is composed. -/
def noted (s : SourceViews) (session : HoistSessionId) (event : ClientSurfaceEvent) : SourceViews :=
  (s.enlist event).noteEvent session event ((s.enlist event).root event.surface).isSome

theorem enlist_surfaces (s : SourceViews) (event : ClientSurfaceEvent) :
    (s.enlist event).surfaces = s.surfaces ∧ (s.enlist event).mode = s.mode := by
  unfold enlist
  split
  · split_ifs <;> exact ⟨rfl, rfl⟩
  · exact ⟨rfl, rfl⟩

/-- Only a toplevel is enlisted. -/
theorem enlist_views (s : SourceViews) (event : ClientSurfaceEvent) (x : ClientSurfaceId) :
    (s.enlist event).views.lookup x = s.views.lookup x ∨
      x = event.surface ∧ ∃ toplevel, event.kind = .role (.toplevel toplevel) := by
  unfold enlist
  split
  · rename_i toplevel hkind
    split_ifs
    · by_cases hx : x = event.surface
      · exact Or.inr ⟨hx, toplevel, hkind⟩
      · exact Or.inl (by simp [hx])
    · exact Or.inl rfl
  · exact Or.inl rfl

theorem noteEvent_views (s : SourceViews) (session : HoistSessionId) (event : ClientSurfaceEvent)
    (composing : Bool) (x : ClientSurfaceId) (h : event.kind = .destroyed → x ≠ event.surface) :
    (s.noteEvent session event composing).views.lookup x = s.views.lookup x := by
  unfold noteEvent
  split
  · rename_i hkind
    simp [h hkind]
  · rfl

theorem noteEvent_surfaces (s : SourceViews) (session : HoistSessionId) (event : ClientSurfaceEvent)
    (composing : Bool) :
    (s.noteEvent session event composing).surfaces.lookup event.surface =
      if event.kind = .destroyed then none
      else some (Surface.note ((s.surfaces.lookup event.surface).getD {}) session composing
        event.kind) := by
  unfold noteEvent
  split
  · rename_i hkind
    simp [hkind]
  · rename_i hkind
    rw [if_neg hkind, AList.lookup_insert_eq, if_pos rfl]

theorem elsewhere_noted (s : SourceViews) (session : HoistSessionId) (event : ClientSurfaceEvent) :
    Elsewhere s (noted s session event) event.surface := by
  obtain ⟨hsurfaces, hmode⟩ := enlist_surfaces s event
  refine ⟨?_, fun x hx => ?_, fun x hx => ?_⟩
  · rw [noted, noteEvent]
    split <;> exact hmode
  · rw [noted, noteEvent_views _ _ _ _ _ fun _ => hx]
    exact (enlist_views s event x).resolve_right fun h => hx h.1
  · rw [noted, noteEvent]
    split <;> simp [hsurfaces, hx]

/-- What is known of a surface after an event about it. -/
theorem noted_surface (s : SourceViews) (session : HoistSessionId) (event : ClientSurfaceEvent)
    (h : event.kind ≠ .destroyed) :
    (noted s session event).surfaces.lookup event.surface =
      some (Surface.note ((s.surfaces.lookup event.surface).getD {}) session
        ((s.enlist event).root event.surface).isSome event.kind) := by
  rw [noted, noteEvent_surfaces, if_neg h, (enlist_surfaces s event).1]

/-- A commit of a root, which is retained with the buffers it carries. -/
theorem Lifetime.Sound.observed
    {old : Option ClientSurfaceCommit} (h : life.Sound view old)
    (hsettled : ∀ note ∈ life.revisions, note.2 ≤ view.revision) (commit : ClientSurfaceCommit) :
    (⟨some commit, life.revisions ++ [(false, commit.revision)]⟩ : Lifetime).Sound view
      (some ((old.map commit.carryUnobservedContentFrom).getD commit)) := by
  have hretained : ((old.map commit.carryUnobservedContentFrom).getD commit).geometry =
      commit.geometry := by
    cases old with
    | none => rfl
    | some previous => exact ClientSurfaceCommit.geometry_carry commit previous
  have hrevision : ((old.map commit.carryUnobservedContentFrom).getD commit).revision =
      commit.revision :=
    (congrArg ClientSurfaceCommit.revision hretained :)
  refine ⟨?_, ?_, ?_, ?_, ?_⟩
  · rw [Option.map_some, Option.map_some, hretained]
  · refine List.pairwise_append.mpr ⟨h.rising, List.pairwise_singleton _ _, fun a _ b hb hsent => ?_⟩
    rw [List.mem_singleton.mp hb] at hsent
    cases hsent
  · intro note hnote
    rw [Option.map_some, Option.getD_some, hrevision]
    rcases List.mem_append.mp hnote with hnote | hnote
    · exact le_max_of_le_left (hsettled note hnote)
    · rw [List.mem_singleton.mp hnote]
      exact le_max_right _ _
  · exact h.reached.imp_right (List.mem_append_left _)
  · intro c hc
    cases hc
    rw [hrevision]
    exact List.mem_append_right _ List.mem_cons_self

section

variable (h : event.kind ≠ .destroyed)
include h

/-- An event that brings no commit keeps the one that is retained. -/
theorem noted_commitOf (hcommit : ∀ commit, event.kind ≠ .commit commit) :
    (noted s session event).commitOf event.surface = s.commitOf event.surface := by
  have hnote : ∀ state composing,
      (Surface.note state session composing event.kind).commit = state.commit := by
    intro state composing
    cases hkind : event.kind with
    | commit commit => exact absurd hkind (hcommit commit)
    | _ => rfl
  rw [commitOf, commitOf, noted_surface s session event h, Option.bind_some, hnote]
  cases s.surfaces.lookup event.surface <;> rfl

/-- An event that brings no role keeps the one that is known. -/
theorem noted_popupOf (hrole : ∀ role, event.kind ≠ .role role) :
    (noted s session event).popupOf event.surface = s.popupOf event.surface := by
  have hnote : ∀ state composing,
      (Surface.note state session composing event.kind).role = state.role := by
    intro state composing
    cases hkind : event.kind with
    | role role => exact absurd hkind (hrole role)
    | _ => rfl
  rw [popupOf, popupOf, noted_surface s session event h, Option.bind_some, hnote]
  cases s.surfaces.lookup event.surface <;> rfl

/-- Unless a toplevel is enlisted or a surface destroyed, there are the same views as before. -/
theorem noted_views (hrole : ∀ toplevel, event.kind ≠ .role (.toplevel toplevel)) (x : ClientSurfaceId) :
    (noted s session event).views.lookup x = s.views.lookup x := by
  rw [noted, noteEvent_views _ _ _ _ _ fun heq => absurd heq h]
  exact (enlist_views s event x).resolve_right fun h => hrole _ h.2.choose_spec

end

/-- An event that brings neither a role nor a commit. -/
def Quiet (kind : ClientSurfaceEventKind) : Prop :=
  kind ≠ .destroyed ∧ (∀ role, kind ≠ .role role) ∧ ∀ commit, kind ≠ .commit commit

theorem lifetime_quiet
    (h : Quiet event.kind) (x : ClientSurfaceId) :
    lifetime x (log ++ [.call (.observe session event)]) = lifetime x log := by
  refine lifetime_call fun life => ?_
  rw [Lifetime.next]
  split_ifs
  · split
    · rename_i hkind
      exact absurd hkind (h.2.1 _)
    · rename_i hkind
      exact absurd hkind (h.2.2 _)
    · rename_i hkind
      exact absurd hkind h.1
    · rfl
  · rfl

theorem alikeAt_quiet
    (h : Quiet event.kind) (x : ClientSurfaceId) : AlikeAt s (noted s session event) x := by
  by_cases hx : x = event.surface
  · subst hx
    exact ⟨by rw [isView, isView, noted_views h.1 fun _ => h.2.1 _], noted_popupOf h.1 h.2.1,
      noted_commitOf h.1 h.2.2⟩
  · exact (elsewhere_noted s session event).alikeAt hx

theorem Settled.heldAt_quiet (h : Settled s log) (hquiet : Quiet event.kind) :
    HeldAt (noted s session event) (log ++ [.call (.observe session event)]) event.surface := by
  obtain ⟨-, hpopup, hcommit⟩ : AlikeAt s (noted s session event) event.surface :=
    alikeAt_quiet hquiet event.surface
  refine (h.held event.surface).congr (noted_views hquiet.1 (fun _ => hquiet.2.1 _) event.surface)
    (fun _ => ?_) (fun hnone => by rwa [hpopup]) hcommit (lifetime_quiet hquiet _)
  rw [noted_surface s session event hquiet.1]
  rfl

/-- What is held of the surface that an event is about. -/
theorem Settled.heldAt_noted (h : Settled s log) (hkind : KeepsKind s (.observe session event)) :
    HeldAt (noted s session event) (log ++ [.call (.observe session event)]) event.surface := by
  obtain ⟨x, kind⟩ := event
  have hlife : lifetime x (log ++ [.call (.observe session ⟨x, kind⟩)]) =
      Lifetime.next x (lifetime x log) (.call (.observe session ⟨x, kind⟩)) := lifetime_concat _ _ _
  rw [Lifetime.next, if_pos rfl] at hlife
  have hknown : kind ≠ .destroyed →
      ((noted s session ⟨x, kind⟩).surfaces.lookup x).isSome = true := fun hne => by
    rw [noted_surface s session ⟨x, kind⟩ hne]
    rfl
  cases kind with
  | destroyed =>
      refine heldAt_absent ?_ hlife
      simp [noted, noteEvent]
  | role role =>
      have hcommit : (noted s session ⟨x, .role role⟩).commitOf x = s.commitOf x :=
        noted_commitOf (by simp) (by simp)
      have hsurface := noted_surface s session ⟨x, .role role⟩ (by simp)
      cases role with
      | toplevel toplevel =>
          have hview : (noted s session ⟨x, .role (.toplevel toplevel)⟩).views.lookup x =
              some ((s.views.lookup x).getD {}) := by
            rw [noted, noteEvent_views _ _ _ _ _ (by simp), enlist, if_pos h.mode,
              AList.lookup_insertNew, if_pos rfl]
          refine heldAt_view hview (hknown (by simp)) (by rw [popupOf, hsurface]; rfl) hlife ?_
          rw [hcommit]
          cases hold : s.views.lookup x with
          | none =>
              have hisView : s.isView x = false := by rw [isView, hold]; rfl
              have hcreated := (h.held x).created
              rw [hisView] at hcreated
              rw [Option.isSome_eq_false_iff.mp hcreated |> Option.isNone_iff_eq_none.mp,
                (hkind.resolve_left (by simp [hisView])).2]
              exact ⟨rfl, List.Pairwise.nil, by simp, Or.inl rfl, by simp⟩
          | some view =>
              have hisView : s.isView x = true := by rw [isView, hold]; rfl
              obtain ⟨life, hl⟩ := Option.isSome_iff_exists.mp ((h.held x).created.trans hisView)
              rw [hl]
              exact (h.held x).sound life view hl hold
      | popup popup =>
          have hold : s.views.lookup x = none := by simpa [KeepsKind, isView] using hkind
          have hcreated := (h.held x).created
          rw [isView, hold] at hcreated
          refine heldAt_absent ?_ ?_
          · rw [noted_views (by simp) (by simp), hold]
          · rw [hlife]
            simpa using hcreated
      | layer =>
          refine (h.held x).congr (noted_views (by simp) (by simp) x) (fun _ => hknown (by simp))
            (fun _ => ?_) hcommit hlife
          rw [popupOf, hsurface]
          rfl
  | commit commit =>
      cases hold : s.views.lookup x with
      | none =>
          have hcreated := (h.held x).created
          rw [isView, hold] at hcreated
          refine heldAt_absent ?_ ?_
          · rw [noted_views (by simp) (by simp), hold]
          · rw [hlife]
            simpa using hcreated
      | some view =>
          have hisView : s.isView x = true := by rw [isView, hold]; rfl
          obtain ⟨life, hl⟩ := Option.isSome_iff_exists.mp ((h.held x).created.trans hisView)
          have hpopup : (noted s session ⟨x, .commit commit⟩).popupOf x = none := by
            have hsame : (noted s session ⟨x, .commit commit⟩).popupOf x = s.popupOf x :=
              noted_popupOf (by simp) (by simp)
            rw [hsame]
            exact (h.held x).toplevel hisView
          have hroot : s.root x = some x := BoundedWalk.walk_of_stop hisView
          have hretained : (noted s session ⟨x, .commit commit⟩).commitOf x =
              some (((s.commitOf x).map commit.carryUnobservedContentFrom).getD commit) := by
            rw [commitOf, noted_surface s session ⟨x, .commit commit⟩ (by simp)]
            simp only [Surface.note, enlist, hroot, Option.isSome_some, if_true, Option.bind_some]
            rw [commitOf]
            cases s.surfaces.lookup x <;> rfl
          rw [hl] at hlife
          refine heldAt_view ((noted_views (by simp) (by simp) x).trans hold) (hknown (by simp))
            hpopup hlife ?_
          rw [hretained]
          exact ((h.held x).sound life view hl hold).observed ((h.fresh x view hold).1 life hl) commit
  | interaction kind => exact h.heldAt_quiet ⟨by simp, by simp, by simp⟩
  | stateRequest | metadata => exact h.heldAt_quiet ⟨by simp, by simp, by simp⟩

/-! ### One call -/

/-- What is sent for no view, or is no commit, changes nothing. -/
theorem Held.passed (h : Held s log) (sent : ViewEvent)
    (hquiet : (∀ commit, sent.event.kind ≠ .commit commit) ∨ s.isView sent.event.surface = false) :
    Held s (log ++ [.emitted sent]) ∧
      (∀ x, lifetime x (log ++ [.emitted sent]) = lifetime x log) ∧
      ∀ x, Fresh s log x → Fresh s (log ++ [.emitted sent]) x := by
  have hnone : s.isView sent.event.surface = false → lifetime sent.event.surface log = none :=
    fun hview => by simpa [hview] using (h.held sent.event.surface).created
  have hlife : ∀ x, lifetime x (log ++ [.emitted sent]) = lifetime x log := by
    intro x
    by_cases hx : sent.event.surface = x
    · subst hx
      rw [lifetime_concat, Lifetime.next]
      cases hkind : sent.event.kind with
      | commit commit =>
          have hlife := hnone (hquiet.resolve_left fun hne => hne commit hkind)
          simp [hlife]
      | _ => rfl
    · exact lifetime_emitted_elsewhere hx
  refine ⟨⟨h.mode, h.sessions, fun x => (h.held x).of_lookups rfl rfl (hlife x)⟩, hlife,
    fun x hfresh => ?_⟩
  by_cases hx : sent.event.surface = x
  · subst hx
    rcases hquiet with hkind | hview
    · refine hfresh.congr rfl rfl (hlife _) ?_ fun _ _ _ hshown => hshown
      cases hk : sent.event.kind with
      | commit commit => exact absurd hk (hkind commit)
      | _ => simp [lastCommit, hk]
    · intro view hv
      rw [isView, hv] at hview
      cases hview
  · exact hfresh.emitted_elsewhere hx

/-- A state in which every view is fresh but those that are going to be composed. -/
structure Noted (s t : SourceViews) (log : List ViewRecord) (surface : ClientSurfaceId) : Prop where
  held : Held t log
  views : ∀ x, s.isView x = true → t.isView x = true ∨ t.surfaces.lookup x = none
  fresh : ∀ x, x ≠ surface → s.root surface ≠ some x → t.root surface ≠ some x → Fresh t log x

/-- A surface that is enlisted belonged to no other view. -/
theorem root_enlist (hkind : KeepsKind s (.observe session event)) (hx : x ≠ event.surface)
    (hroot : s.root event.surface = some x) : (s.enlist event).root event.surface = some x := by
  obtain ⟨surface, kind⟩ := event
  by_cases hrole : ∃ toplevel, kind = .role (.toplevel toplevel)
  · obtain ⟨toplevel, rfl⟩ := hrole
    rcases hkind with hview | ⟨hnone, -⟩
    · rw [show s.root surface = some surface from BoundedWalk.walk_of_stop hview] at hroot
      exact absurd (Option.some.inj hroot).symm hx
    · rw [hnone] at hroot
      cases hroot
  · rw [enlist]
    split
    · rename_i toplevel heq
      exact absurd ⟨toplevel, heq⟩ hrole
    · exact hroot

theorem Settled.observed (h : Settled s log) (hkind : KeepsKind s (.observe session event)) :
    Noted (s.enlist event) (noted s session event) (log ++ [.call (.observe session event)])
      event.surface := by
  have hsession : ∀ state, (noted s session event).surfaces.lookup event.surface = some state →
      state.session.isSome = true := by
    intro state hstate
    rw [noted, noteEvent_surfaces] at hstate
    split_ifs at hstate with hdestroyed
    cases hstate
    unfold Surface.note
    split <;> rfl
  obtain ⟨hheld, hfresh⟩ := h.elsewhere (elsewhere_noted s session event) (h.heldAt_noted hkind)
    hsession
  refine ⟨hheld, fun x hx => ?_, fun x hx hold hnew => hfresh x hx ?_ ?_⟩
  · by_cases hdestroyed : event.kind = .destroyed
    · by_cases hsurface : x = event.surface
      · right
        rw [hsurface, noted, noteEvent_surfaces, if_pos hdestroyed]
      · left
        rw [isView, noted, noteEvent_views _ _ _ _ _ fun _ => hsurface]
        exact hx
    · left
      rw [isView, noted, noteEvent_views _ _ _ _ _ fun heq => absurd heq hdestroyed]
      exact hx
  · rw [← root_eq_some_iff]
    exact fun hroot => hold (root_enlist hkind hx hroot)
  · rw [← root_eq_some_iff]
    exact hnew

theorem Settled.withdrawn {surface : ClientSurfaceId}
    (h : Settled s log) :
    Noted s { s with surfaces := s.surfaces.erase surface, views := s.views.erase surface }
      (log ++ [.call (.withdraw surface)]) surface := by
  have helse : Elsewhere s
      { s with surfaces := s.surfaces.erase surface, views := s.views.erase surface } surface :=
    ⟨rfl, fun x hx => by rw [AList.lookup_erase_eq, if_neg hx],
      fun x hx => by rw [AList.lookup_erase_eq, if_neg hx]⟩
  have hhere : HeldAt { s with surfaces := s.surfaces.erase surface, views := s.views.erase surface }
      (log ++ [.call (.withdraw surface)]) surface := by
    refine heldAt_absent ?_ ?_
    · rw [AList.lookup_erase_eq, if_pos rfl]
    · rw [lifetime_concat, Lifetime.next, if_pos rfl]
  have hsession : ∀ state, (s.surfaces.erase surface).lookup surface = some state →
      state.session.isSome = true := by
    intro state hstate
    rw [AList.lookup_erase_eq, if_pos rfl] at hstate
    cases hstate
  obtain ⟨hheld, hfresh⟩ := h.elsewhere helse hhere hsession
  refine ⟨hheld, fun x hx => ?_, fun x hx hold hnew => hfresh x hx ?_ ?_⟩
  · by_cases hsurface : x = surface
    · right
      rw [AList.lookup_erase_eq, if_pos hsurface]
    · left
      rw [isView, AList.lookup_erase_eq, if_neg hsurface]
      exact hx
  · rw [← root_eq_some_iff]
    exact hold
  · rw [← root_eq_some_iff]
    exact hnew

theorem isView_of_root {surface : ClientSurfaceId} (h : s.root surface = some root) :
    s.isView root = true :=
  BoundedWalk.walk_stops h

/-- **Withdrawing a surface leaves every view fresh**, unless revisions are exhausted. -/
theorem Settled.withdraw (h : Settled s log)
    (surface : ClientSurfaceId) :
    (∃ event, (s.withdraw surface).2 = .ok event ∧ Settled (s.withdraw surface).1
        (log ++ [.call (.withdraw surface)] ++ event.toList.map .emitted)) ∨
      ((∃ error, (s.withdraw surface).2 = .error error) ∧
        ∃ root, Exhausted (log ++ [.call (.withdraw surface)]) root) := by
  have hnoted : Noted s _ _ surface := h.withdrawn
  have hgone : ({ s with surfaces := s.surfaces.erase surface, views := s.views.erase surface } :
      SourceViews).root surface = none := by
    refine BoundedWalk.walk_of_stuck ?_ ?_
    · rw [isView, AList.lookup_erase_eq, if_pos rfl]
      rfl
    · rw [ownerOf, AList.lookup_erase_eq, if_pos rfl, Option.bind_none]
  have hroot : ∀ x ∈ (s.root surface).filter fun root => decide (root ≠ surface),
      s.isView x = true := by
    intro x hx
    exact isView_of_root (Option.filter_eq_some_iff.mp hx).1
  rcases hnoted.held.composeIf fun x hx => hnoted.views x (hroot x hx) with
    ⟨event, hevent, hcomposed⟩ | ⟨herror, root, -, hexhausted⟩
  · refine Or.inl ⟨event, hevent, hcomposed.held, fun x => hcomposed.fresh x ?_⟩
    by_cases hx : x = surface
    · right
      intro view hview
      simp [hx] at hview
    · by_cases hroot : s.root surface = some x
      · left
        simp [hroot, hx]
      · right
        refine hnoted.fresh x hx hroot ?_
        rw [hgone]
        simp
  · exact Or.inr ⟨herror, root, hexhausted⟩

/-- The events that are passed on besides the commits of views. -/
def passedOn (session : HoistSessionId) (event : ClientSurfaceEvent) : List ViewEvent :=
  match event.kind with
  | .commit _ => []
  | _ => [⟨session, event, none⟩]

theorem root_congr (halike : ∀ y, AlikeAt s t y) (surface : ClientSurfaceId) :
    t.root surface = s.root surface := by
  have hstop : t.isView = s.isView := funext fun y => (halike y).1
  have hnext : t.ownerOf = s.ownerOf := funext fun y => by
    rw [t.ownerOf_eq, s.ownerOf_eq, (halike y).2.1]
  rw [SourceViews.root, SourceViews.root, hstop, hnext]

/-- An event that brings neither a role nor a commit is passed on. -/
theorem observe_quiet
    (hmode : s.mode = .composited) (h : Quiet event.kind) :
    s.observe session event = (noted s session event, .ok [⟨session, event, none⟩]) := by
  have henlist : s.enlist event = s := by
    unfold enlist
    split
    · rename_i hkind
      exact absurd hkind (h.2.1 _)
    · rfl
  have hroot : (noted s session event).root event.surface = s.root event.surface :=
    root_congr (alikeAt_quiet h) event.surface
  have hleft : leftRoot event.surface (s.root event.surface) (s.root event.surface) = none := by
    cases hold : s.root event.surface <;> simp [leftRoot]
  unfold SourceViews.observe
  rw [if_neg (by simp [hmode])]
  unfold noted at hroot ⊢
  rw [henlist] at hroot ⊢
  simp only [hroot, hleft, composeIf]
  cases (s.root event.surface).or (s.root event.surface) with
  | none => rfl
  | some root =>
      cases hk : event.kind with
      | role role => exact absurd hk (h.2.1 role)
      | commit commit => exact absurd hk (h.2.2 commit)
      | destroyed => exact absurd hk h.1
      | _ => rfl

/-- So is every event of a surface that belongs to no view. -/
theorem observe_outside
    (hmode : s.mode = .composited)
    (hroot : ((noted s session event).root event.surface).or ((s.enlist event).root event.surface) =
      none) :
    s.observe session event = (noted s session event, .ok [⟨session, event, none⟩]) := by
  unfold SourceViews.observe
  rw [if_neg (by simp [hmode])]
  unfold noted at hroot ⊢
  simp only [hroot]

/-- Any other event is passed on unless it is a commit, and its view is composed. -/
theorem observe_inside (hmode : s.mode = .composited) (h : ¬ Quiet event.kind)
    (hroot : ((noted s session event).root event.surface).or ((s.enlist event).root event.surface) =
      some root) :
    s.observe session event =
      match (noted s session event).composeIf (leftRoot event.surface
          ((s.enlist event).root event.surface) ((noted s session event).root event.surface)) with
      | (t, .error error) => (t, .error error)
      | (t, .ok previous) =>
          match t.compose root with
          | (u, .error error) => (u, .error error)
          | (u, .ok composed) =>
              (u, .ok (previous.toList ++ passedOn session event ++ composed.toList)) := by
  unfold SourceViews.observe
  rw [if_neg (by simp [hmode])]
  unfold noted at hroot ⊢
  simp only [hroot]
  generalize ((s.enlist event).noteEvent session event
    ((s.enlist event).root event.surface).isSome).composeIf _ = first
  obtain ⟨t, result⟩ := first
  cases result with
  | error error => rfl
  | ok previous =>
      unfold passedOn
      cases hk : event.kind with
      | metadata metadata => exact absurd ⟨by simp, by simp, by simp⟩ (hk ▸ h)
      | interaction | stateRequest => exact absurd ⟨by simp, by simp, by simp⟩ (hk ▸ h)
      | _ => rfl

theorem passedOn_cases (session : HoistSessionId) (event : ClientSurfaceEvent) :
    passedOn session event = [] ∨
      passedOn session event = [⟨session, event, none⟩] ∧ ∀ commit, event.kind ≠ .commit commit := by
  unfold passedOn
  split
  · exact Or.inl rfl
  · rename_i hkind
    exact Or.inr ⟨rfl, hkind⟩

theorem Held.passedOn (h : Held s log)
    (session : HoistSessionId) (event : ClientSurfaceEvent) :
    Held s (log ++ (passedOn session event).map .emitted) ∧
      (∀ x, lifetime x (log ++ (passedOn session event).map .emitted) = lifetime x log) ∧
      ∀ x, Fresh s log x → Fresh s (log ++ (passedOn session event).map .emitted) x := by
  rcases passedOn_cases session event with hnone | ⟨hone, hkind⟩
  · rw [hnone, List.map_nil, List.append_nil]
    exact ⟨h, fun _ => rfl, fun _ hfresh => hfresh⟩
  · rw [hone]
    exact h.passed _ (Or.inl hkind)

/-- The views that a call leaves stale are the ones that are composed. -/
theorem Noted.stale {surface : ClientSurfaceId} (h : Noted s t log surface)
    (hroot : (t.root surface).or (s.root surface) = some root) :
    x = root ∨ x ∈ leftRoot surface (s.root surface) (t.root surface) ∨ Fresh t log x := by
  by_cases hnew : t.root surface = some x
  · left
    rw [hnew, Option.some_or] at hroot
    exact Option.some.inj hroot
  by_cases hx : x = surface
  · right
    right
    subst hx
    intro view hview
    refine absurd (BoundedWalk.walk_of_stop ?_) hnew
    rw [isView, hview]
    rfl
  by_cases hold : s.root surface = some x
  · cases hn : t.root surface with
    | none =>
        left
        rw [hn, hold] at hroot
        exact Option.some.inj hroot
    | some other =>
        right
        left
        rw [hn] at hnew
        rw [hold]
        exact Option.mem_filter_iff.mpr ⟨rfl, by simp [hx, Ne.symm hnew]⟩
  · exact Or.inr (Or.inr (h.fresh x hx hold hnew))

/-- The root that was left is not the one that is composed after it. -/
theorem leftRoot_ne {surface : ClientSurfaceId} {oldRoot newRoot : Option ClientSurfaceId}
    (hroot : newRoot.or oldRoot = some root) (h : x ∈ leftRoot surface oldRoot newRoot) :
    oldRoot = some x ∧ root ≠ x := by
  obtain ⟨hold, hcond⟩ := Option.mem_filter_iff.mp h
  refine ⟨hold, ?_⟩
  cases newRoot with
  | none => simp at hcond
  | some other =>
      rintro rfl
      simp [Option.some.inj hroot] at hcond

/-- **An event leaves every view fresh**, unless revisions are exhausted. -/
theorem Settled.observe (h : Settled s log) (hkind : KeepsKind s (.observe session event)) :
    (∃ events, (s.observe session event).2 = .ok events ∧ Settled (s.observe session event).1
        (log ++ [.call (.observe session event)] ++ events.map .emitted)) ∨
      ((∃ error, (s.observe session event).2 = .error error) ∧
        ∃ root, Exhausted (log ++ [.call (.observe session event)]) root) := by
  have hnoted := h.observed hkind
  by_cases hquiet : Quiet event.kind
  · rw [observe_quiet h.mode hquiet]
    obtain ⟨hheld, -, hfresh⟩ := hnoted.held.passed ⟨session, event, none⟩ (Or.inl hquiet.2.2)
    refine Or.inl ⟨_, rfl, hheld, fun x => hfresh x ?_⟩
    exact (h.fresh x).congr (noted_views hquiet.1 (fun _ => hquiet.2.1 _) x)
      (alikeAt_quiet hquiet x).2.2 (lifetime_quiet hquiet x) (lastCommit_call _ _ _)
      fun _ _ _ hshown => hshown.congr (alikeAt_quiet hquiet)
  cases hroot : ((noted s session event).root event.surface).or
      ((s.enlist event).root event.surface) with
  | none =>
      obtain ⟨hnew, hold⟩ := Option.or_eq_none_iff.mp hroot
      have hview : (noted s session event).isView event.surface = false := by
        by_contra hview
        rw [show (noted s session event).root event.surface = some event.surface from
          BoundedWalk.walk_of_stop (by simpa using hview)] at hnew
        cases hnew
      rw [observe_outside h.mode hroot]
      obtain ⟨hheld, -, hfresh⟩ := hnoted.held.passed ⟨session, event, none⟩ (Or.inr hview)
      refine Or.inl ⟨_, rfl, hheld, fun x => hfresh x ?_⟩
      by_cases hx : x = event.surface
      · subst hx
        intro view hv
        rw [isView, hv] at hview
        cases hview
      · exact hnoted.fresh x hx (by simp [hold]) (by simp [hnew])
  | some root =>
      have hviews : ∀ x, (noted s session event).root event.surface = some x ∨
          (s.enlist event).root event.surface = some x →
          (noted s session event).isView x = true ∨
            (noted s session event).surfaces.lookup x = none := fun x hx =>
        hx.elim (fun hnew => Or.inl (isView_of_root hnew))
          fun hold => hnoted.views x (isView_of_root hold)
      have hleft : ∀ x ∈ leftRoot event.surface ((s.enlist event).root event.surface)
          ((noted s session event).root event.surface),
          (noted s session event).isView x = true ∨
            (noted s session event).surfaces.lookup x = none := fun x hx =>
        hviews x (Or.inr (leftRoot_ne hroot hx).1)
      have hcomposed := hnoted.held.composeIf hleft
      rw [observe_inside h.mode hquiet hroot]
      generalize (noted s session event).composeIf _ = first at hcomposed ⊢
      obtain ⟨t, result⟩ := first
      rcases hcomposed with ⟨previous, rfl, hfirst⟩ | ⟨⟨error, rfl⟩, x, -, hexhausted⟩
      · obtain ⟨hpassed, hpassedLife, hpassedFresh⟩ := hfirst.held.passedOn session event
        have hthere : t.isView root = true ∨ t.surfaces.lookup root = none := by
          rw [(hfirst.alike root).1, hfirst.surfaces]
          rcases Option.or_eq_some_iff.mp hroot with hnew | ⟨-, hold⟩
          · exact hviews root (Or.inl hnew)
          · exact hviews root (Or.inr hold)
        have hlast := hpassed.compose hthere
        simp only []
        generalize t.compose root = second at hlast ⊢
        obtain ⟨u, result⟩ := second
        rcases hlast with ⟨composed, rfl, hsecond⟩ | ⟨⟨error, rfl⟩, life, hlife, hexhausted⟩
        · refine Or.inl ⟨_, rfl, ?_⟩
          rw [List.map_append, List.map_append, ← List.append_assoc, ← List.append_assoc]
          refine ⟨hsecond.held, fun x => hsecond.fresh x ?_⟩
          rcases hnoted.stale hroot with heq | hstale
          · exact Or.inl (heq ▸ rfl)
          · exact Or.inr (hpassedFresh x (hfirst.fresh x hstale))
        · refine Or.inr ⟨⟨error, rfl⟩, root, life, ?_, hexhausted⟩
          rw [← hlife, hpassedLife, hfirst.notes root fun hmem => (leftRoot_ne hroot hmem).2 rfl]
      · exact Or.inr ⟨⟨error, rfl⟩, x, hexhausted⟩

/-! ### Retained commits -/

theorem tryCompose_surfaces (s : SourceViews) (root : ClientSurfaceId) :
    (s.tryCompose root).1.surfaces = s.surfaces := by
  unfold tryCompose
  split
  · rfl
  · split
    · split
      · rfl
      · split <;> rfl
    · split
      · rfl
      · split
        · rfl
        · split <;> rfl

theorem compose_surfaces (s : SourceViews) (root : ClientSurfaceId) :
    (s.compose root).1.surfaces = s.surfaces := by
  have htry := tryCompose_surfaces s root
  unfold SourceViews.compose
  split
  · rename_i heq
    rw [heq] at htry
    exact htry
  · rename_i heq
    rw [heq] at htry
    split
    · exact htry
    · simp only []
      split
      · exact htry
      · split
        · exact htry
        · split <;> exact htry

theorem composeIf_surfaces (s : SourceViews) (root : Option ClientSurfaceId) :
    (s.composeIf root).1.surfaces = s.surfaces := by
  cases root with
  | none => rfl
  | some root => exact compose_surfaces s root

/-- Composing changes nothing that is retained of the surfaces. -/
theorem observe_surfaces
    (hmode : s.mode = .composited) :
    (s.observe session event).1.surfaces = (noted s session event).surfaces := by
  by_cases hquiet : Quiet event.kind
  · rw [observe_quiet hmode hquiet]
  cases hroot : ((noted s session event).root event.surface).or
      ((s.enlist event).root event.surface) with
  | none => rw [observe_outside hmode hroot]
  | some root =>
      have hfirst := composeIf_surfaces (noted s session event) (leftRoot event.surface
        ((s.enlist event).root event.surface) ((noted s session event).root event.surface))
      rw [observe_inside hmode hquiet hroot]
      generalize (noted s session event).composeIf _ = first at hfirst ⊢
      obtain ⟨t, result⟩ := first
      cases result with
      | error error => exact hfirst
      | ok previous =>
          have hsecond := compose_surfaces t root
          simp only []
          generalize t.compose root = second at hsecond ⊢
          obtain ⟨u, result⟩ := second
          cases result <;> exact hsecond.trans hfirst

/-- What is retained of a commit. -/
theorem noted_commitOf_commit
    {surface : ClientSurfaceId} :
    ((noted s session ⟨surface, .commit commit⟩).commitOf surface).map (·.geometry) =
      if (s.root surface).isSome then some commit.geometry else none := by
  rw [commitOf, noted_surface s session ⟨surface, .commit commit⟩ (by simp), Option.bind_some]
  cases hroot : s.root surface with
  | none => simp [Surface.note, enlist, hroot]
  | some root =>
      simp only [Surface.note, enlist, hroot, Option.isSome_some, if_true, Option.map_some]
      cases ((s.surfaces.lookup surface).getD {}).commit with
      | none => rfl
      | some previous => simp

/-- Every surface has the commit that was observed last, if it belonged to a view then. -/
def Retains (r : ViewRun) : Prop :=
  ∀ x, (r.views.commitOf x).map (·.geometry) = (r.commits x).map (·.geometry)

theorem Retains.observe (h : Retains r) (hmode : r.views.mode = .composited)
    (session : HoistSessionId) (event : ClientSurfaceEvent) (x : ClientSurfaceId) :
    ((r.views.observe session event).1.commitOf x).map (·.geometry) =
      (r.latest (.observe session event) x).map (·.geometry) := by
  obtain ⟨surface, kind⟩ := event
  have hcommit : (r.views.observe session ⟨surface, kind⟩).1.commitOf x =
      (noted r.views session ⟨surface, kind⟩).commitOf x := by
    rw [commitOf, commitOf, observe_surfaces hmode]
  rw [hcommit]
  by_cases hx : x = surface
  · subst hx
    cases kind with
    | commit commit =>
        rw [noted_commitOf_commit, ViewRun.latest, Function.update_self]
        split_ifs <;> rfl
    | destroyed =>
        simp [commitOf, noted, noteEvent, ViewRun.latest]
    | role | interaction | stateRequest | metadata =>
        rw [noted_commitOf (by simp) (by simp)]
        exact h x
  · have hsame := ((elsewhere_noted r.views session ⟨surface, kind⟩).alikeAt hx).2.2
    rw [hsame, h x]
    cases kind with
    | commit | destroyed => rw [ViewRun.latest, Function.update_of_ne hx]
    | _ => rfl

theorem Retains.withdraw (h : Retains r) (surface x : ClientSurfaceId) :
    ((r.views.withdraw surface).1.commitOf x).map (·.geometry) =
      (r.latest (.withdraw surface) x).map (·.geometry) := by
  have hsurfaces : (r.views.withdraw surface).1.surfaces = r.views.surfaces.erase surface :=
    composeIf_surfaces _ _
  rw [commitOf, hsurfaces, AList.lookup_erase_eq, ViewRun.latest]
  by_cases hx : x = surface
  · rw [if_pos hx, hx, Function.update_self]
    rfl
  · rw [if_neg hx, Function.update_of_ne hx]
    exact h x

/-! ### Runs of calls -/

/-- After a run without errors everything is fresh; an error means that revisions are exhausted. -/
structure ViewRun.Good (r : ViewRun) : Prop where
  settled : r.failed = false → Settled r.views r.log
  retains : r.failed = false → Retains r
  exhausted : r.failed = true → ∃ root, Exhausted r.log root

theorem ViewRun.good_init : ViewRun.Good {} := by
  refine ⟨fun _ => ⟨⟨rfl, fun _ _ h => ?_, fun root => ?_⟩, fun root view h => ?_⟩, fun _ x => rfl,
    fun h => ?_⟩
  · cases h
  · exact heldAt_absent rfl rfl
  · cases h
  · cases h

theorem ViewRun.Good.step (h : r.Good) (hcall : KeepsKind r.views call) : (r.step call).Good := by
  unfold ViewRun.step
  cases hfailed : r.failed with
  | true =>
      rw [if_pos rfl]
      exact h
  | false =>
      have hsettled := h.settled hfailed
      have hretains := h.retains hfailed
      rw [if_neg Bool.false_ne_true]
      cases call with
      | observe session event =>
          have hnext := hretains.observe hsettled.mode session event
          have hresult := hsettled.observe hcall
          simp only []
          generalize r.views.observe session event = result at hnext hresult ⊢
          obtain ⟨t, result⟩ := result
          rcases hresult with ⟨events, rfl, hafter⟩ | ⟨⟨error, rfl⟩, hexhausted⟩
          · refine ⟨fun _ => ?_, fun _ => hnext, fun hf => ?_⟩
            · rw [List.append_assoc] at hafter
              exact hafter
            · cases hf
          · refine ⟨fun hf => ?_, fun hf => ?_, fun _ => hexhausted⟩
            · cases hf
            · cases hf
      | withdraw surface =>
          have hnext := hretains.withdraw surface
          have hresult := hsettled.withdraw surface
          simp only []
          generalize r.views.withdraw surface = result at hnext hresult ⊢
          obtain ⟨t, result⟩ := result
          rcases hresult with ⟨event, rfl, hafter⟩ | ⟨⟨error, rfl⟩, hexhausted⟩
          · refine ⟨fun _ => ?_, fun _ => hnext, fun hf => ?_⟩
            · rw [List.append_assoc] at hafter
              exact hafter
            · cases hf
          · refine ⟨fun hf => ?_, fun hf => ?_, fun _ => hexhausted⟩
            · cases hf
            · cases hf

/-- **Composed views are never stale**: after every call, the last commit of each view whose root has
one shows what belongs to it then, and the revisions sent for a view exceed all before.  Calls fail
only for want of revisions. -/
theorem composed_views_are_fresh (calls : List ViewCall)
    (hcalls : Meets ViewRun.step (fun r => KeepsKind r.views) {} calls) :
    let r := exec ViewRun.step {} calls
    (r.failed = false →
      (∀ x, (r.views.commitOf x).map (·.geometry) = (r.commits x).map (·.geometry)) ∧
        ∀ root life, lifetime root r.log = some life →
          (life.revisions.Pairwise fun a b => b.1 = true → a.2 < b.2) ∧
            ∀ commit, life.commit = some commit → ∃ view retained sent,
              r.views.views.lookup root = some view ∧ r.views.commitOf root = some retained ∧
                retained.geometry = commit.geometry ∧ lastCommit root r.log = some sent ∧
                Shown r.views root view.hits retained sent) ∧
      (r.failed = true → ∃ root life, lifetime root r.log = some life ∧
        ∃ note ∈ life.revisions, wireLimit ≤ note.2 + 1) := by
  have hgood : ViewRun.Good (exec ViewRun.step {} calls) :=
    hcalls.invariant (fun _ _ h hcall => h.step hcall) ViewRun.good_init
  refine ⟨fun hfailed => ⟨hgood.retains hfailed, fun root life hlife => ?_⟩, hgood.exhausted⟩
  have hsettled := hgood.settled hfailed
  have hview := (hsettled.held root).created
  rw [hlife] at hview
  obtain ⟨view, hview⟩ := Option.isSome_iff_exists.mp hview.symm
  have hsound := (hsettled.held root).sound life view hlife hview
  refine ⟨hsound.rising, fun commit hcommit => ?_⟩
  have hlatest := hsound.latest
  rw [hcommit, Option.map_some] at hlatest
  obtain ⟨retained, hretained, hgeometry⟩ := Option.map_eq_some_iff.mp hlatest
  obtain ⟨sent, hsent, hshown⟩ := (hsettled.fresh root view hview).2 retained hretained
  exact ⟨view, retained, sent, hview, hretained, hgeometry, hsent, hshown⟩

/-! ### A toplevel with a menu -/

def menuCalls (toplevel menu : ClientSurfaceCommit) : List ViewCall :=
  [.observe 1 ⟨⟨⟨0, 0⟩, 1⟩, .role (.toplevel {})⟩, .observe 1 ⟨⟨⟨0, 0⟩, 1⟩, .commit toplevel⟩,
    .observe 1 ⟨⟨⟨0, 0⟩, 2⟩, .role (.popup { owner := ⟨⟨0, 0⟩, 1⟩ })⟩,
    .observe 1 ⟨⟨⟨0, 0⟩, 2⟩, .commit menu⟩]

/-- A mapped commit of one layer with its buffer. -/
def layerCommit (layer : ℕ) : ClientSurfaceCommit :=
  let view : SurfaceContentView :=
    ⟨.finite 0, .finite 0, .finite 8, .finite 8, .finite 8, .finite 8⟩
  { revision := 1
    mapped := true
    root := some ⟨layer, {}, view⟩
    buffers := [⟨layer, .replaced ⟨⟨8, 8⟩, true⟩ ⟨⟨0, layer⟩, ⟨0, layer⟩⟩⟩] }

theorem keepsKind_menuCalls {toplevel menu : ClientSurfaceCommit}
    (h : ((ViewRun.step {} (.observe 1 ⟨⟨⟨0, 0⟩, 1⟩, .role (.toplevel {})⟩)).step
      (.observe 1 ⟨⟨⟨0, 0⟩, 1⟩, .commit toplevel⟩)).views.isView ⟨⟨0, 0⟩, 2⟩ = false) :
    Meets ViewRun.step (fun r => KeepsKind r.views) {} (menuCalls toplevel menu) :=
  ⟨Or.inr ⟨rfl, rfl⟩, trivial, h, trivial, trivial⟩

/-- The menu is shown with its toplevel. -/
theorem composed_views_are_fresh_of_menu :
    let r := exec ViewRun.step {} (menuCalls (layerCommit 1) (layerCommit 2))
    ∃ sent hits commit members, lastCommit ⟨⟨0, 0⟩, 1⟩ r.log = some sent ∧
      Shown r.views ⟨⟨0, 0⟩, 1⟩ hits commit sent ∧ commit.mapped = true ∧
      r.views.membersOf ⟨⟨0, 0⟩, 1⟩ = members ∧ members = [⟨⟨0, 0⟩, 1⟩, ⟨⟨0, 0⟩, 2⟩] := by
  intro r
  have hcalls : Meets ViewRun.step (fun r => KeepsKind r.views) {}
      (menuCalls (layerCommit 1) (layerCommit 2)) := keepsKind_menuCalls (by decide +kernel)
  have hlife : (lifetime ⟨⟨0, 0⟩, 1⟩ r.log).bind (·.commit) = some (layerCommit 1) := by
    decide +kernel
  obtain ⟨life, hlife, hcommit⟩ := Option.bind_eq_some_iff.mp hlife
  obtain ⟨-, hviews⟩ := (composed_views_are_fresh _ hcalls).1 (by decide +kernel)
  obtain ⟨view, retained, sent, -, -, hretained, hsent, hshown⟩ :=
    (hviews ⟨⟨0, 0⟩, 1⟩ life hlife).2 (layerCommit 1) hcommit
  have hmapped : retained.mapped = true :=
    (congrArg ClientSurfaceCommit.mapped hretained :)
  exact ⟨sent, view.hits, retained, _, hsent, hshown, hmapped, rfl, by decide +kernel⟩

/-- A menu that is mapped without a layer of its own is left out with its overlays, and a toplevel that
is mapped without one is hidden, although nothing fails. -/
theorem menu_of_overlays_is_not_shown :
    (let menu : ClientSurfaceCommit := { layerCommit 2 with root := none, overlays := [⟨2, {}, {}⟩] }
      let calls := menuCalls (layerCommit 1) menu
      let r := exec ViewRun.step {} calls
      Meets ViewRun.step (fun r => KeepsKind r.views) {} calls ∧ r.failed = false ∧
        r.views.LeadsTo ⟨⟨0, 0⟩, 2⟩ ⟨⟨0, 0⟩, 1⟩ ∧ r.commits ⟨⟨0, 0⟩, 2⟩ = some menu ∧
        ((lastCommit ⟨⟨0, 0⟩, 1⟩ r.log).bind (·.scene)).map (fun s => s.layers.map (·.placement.layer)) =
          some [1]) ∧
      (let toplevel : ClientSurfaceCommit := { layerCommit 1 with root := none }
        let calls := menuCalls toplevel (layerCommit 2)
        let r := exec ViewRun.step {} calls
        Meets ViewRun.step (fun r => KeepsKind r.views) {} calls ∧ r.failed = false ∧
          r.commits ⟨⟨0, 0⟩, 1⟩ = some toplevel ∧
          (r.views.views.lookup ⟨⟨0, 0⟩, 1⟩).map (·.invalid) = some false ∧
          (lastCommit ⟨⟨0, 0⟩, 1⟩ r.log).map (·.event) =
            some (SourceViews.hidden ⟨⟨0, 0⟩, 1⟩ 4)) := by
  refine ⟨⟨keepsKind_menuCalls (by decide +kernel), by decide +kernel, ?_, by decide +kernel,
    by decide +kernel⟩, keepsKind_menuCalls (by decide +kernel), by decide +kernel, by decide +kernel,
    by decide +kernel, by decide +kernel⟩
  rw [← root_eq_some_iff]
  decide +kernel

end Views
