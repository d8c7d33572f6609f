/-
**What a composed view shows.**

A view shows its toplevel and, above it, the popups whose owners lead to it, in the order of the stack;
input is taken where these take it.  A toplevel that is not mapped, or that cannot be composed, shows
nothing and takes no input.

Main definitions: `Members`, `Depicts`, `Shown`.

Main results:

* `SourceViews.compose_spec` — composing a view shows it, with a larger revision;
* `Shown.elsewhere` — what a view shows does not depend on surfaces that do not belong to it.
-/

import Weld.SourceViews

namespace Views

open Client Hoist

variable {root surface : ClientSurfaceId}

namespace SourceViews

variable (s : SourceViews)

/-- What is retained of the commits of a surface. -/
def commitOf (surface : ClientSurfaceId) : Option ClientSurfaceCommit :=
  (s.surfaces.lookup surface).bind (·.commit)

/-- The state of a popup. -/
def popupOf (surface : ClientSurfaceId) : Option PopupState :=
  (s.surfaces.lookup surface).bind fun state => state.role.bind fun role =>
    match role with
    | .popup popup => some popup
    | .toplevel _ | .layer => none

theorem ownerOf_eq (surface : ClientSurfaceId) :
    s.ownerOf surface = (s.popupOf surface).map (·.owner) := by
  unfold ownerOf popupOf
  cases s.surfaces.lookup surface with
  | none => rfl
  | some state =>
      cases hrole : state.role with
      | none => simp [hrole]
      | some role => cases role <;> simp [hrole, ClientSurfaceRole.popupOwner]

/-- The owners of the surface lead to the root, over less than `maxViewSurfaces` surfaces. -/
def LeadsTo (surface root : ClientSurfaceId) : Prop :=
  ∃ n < maxViewSurfaces, BoundedWalk.Path s.isView s.ownerOf n surface root

theorem root_eq_some_iff : s.root surface = some root ↔ s.LeadsTo surface root :=
  BoundedWalk.walk_eq_some_iff

/-- A popup is drawn once it is mapped with some extent. -/
def drawn (surface : ClientSurfaceId) : Bool :=
  (s.commitOf surface).any fun commit =>
    commit.mapped && (commit.windowGeometry.isSome || commit.root.isSome)

end SourceViews

open SourceViews

/-! ### The surfaces of a view -/

/-- The surfaces that make up a view: the root, and the popups that lead to it and are drawn, in the
order of the stack. -/
def Members (s : SourceViews) (root : ClientSurfaceId) (members : List ClientSurfaceId) : Prop :=
  ∃ popups : List (ClientSurfaceId × PopupState), members = root :: popups.map (·.1) ∧
    popups.Pairwise (fun a b => stackKey a < stackKey b) ∧
    ∀ surface popup, (surface, popup) ∈ popups ↔
      s.popupOf surface = some popup ∧ s.LeadsTo surface root ∧ s.drawn surface = true

/-- The layers of the members, each with the commit it belongs to. -/
def placements (s : SourceViews) (members : List ClientSurfaceId) :
    List (ClientSurfaceId × ClientSurfaceCommit × SurfaceLayerPlacement) :=
  members.flatMap fun member => (s.commitOf member).toList.flatMap fun commit =>
    (commit.root.toList ++ commit.overlays).map fun placement => (member, commit, placement)

/-- Where the members take input. -/
def inputPlacements (s : SourceViews) (members : List ClientSurfaceId) :
    List (ClientSurfaceId × SurfaceInputPlacement) :=
  members.flatMap fun member => (s.commitOf member).toList.flatMap fun commit =>
    commit.inputs.map fun input => (member, input)

/-- A layer as it is drawn. -/
def CompositionLayer.drawn (layer : CompositionLayer) :
    Option ClientBufferLease × SurfaceLayerPlacement :=
  (some layer.buffer, layer.placement)

/-- A region, whatever session it belongs to. -/
def HitRegion.region (hit : HitRegion) :
    ClientSurfaceId × SurfaceLayerId × LogicalPoint × List SurfaceInputRect :=
  (hit.target.surface, hit.target.layer, hit.target.origin, hit.regions)

/-- The layers are those of the members, and the regions as well: each member at one place. -/
def Depicts (s : SourceViews) (members : List ClientSurfaceId) (layers : List CompositionLayer)
    (hits : List HitRegion) : Prop :=
  ∃ place : ClientSurfaceId → LogicalPoint,
    layers.map (·.drawn) = (placements s members).map (fun entry =>
      (retainedBuffer entry.2.1 entry.2.2.layer,
        { entry.2.2 with position := moved entry.2.2.position (place entry.1) })) ∧
    hits.map (·.region) = (inputPlacements s members).map (fun entry =>
      (entry.1, entry.2.layer, moved entry.2.position (place entry.1), entry.2.regions))

/-- A composition fails if the viewport is no rectangle, if a layer has no buffer, or if there are too
many layers. -/
def Fails (s : SourceViews) (commit : ClientSurfaceCommit) (members : List ClientSurfaceId) : Prop :=
  (∃ placement ∈ commit.root, validViewport (viewport commit placement).view = false) ∨
    (∃ entry ∈ placements s members, retainedBuffer entry.2.1 entry.2.2.layer = none) ∨
    maxViewLayers < (placements s members).length

/-- What a view shows whose root has the commit: its members, or nothing. -/
def Shown (s : SourceViews) (root : ClientSurfaceId) (hits : List HitRegion)
    (commit : ClientSurfaceCommit) (event : ViewEvent) : Prop :=
  ∃ members, Members s root members ∧
    (commit.mapped = true ∧ commit.root.isSome = true ∧ ¬ Fails s commit members →
      ∃ shown scene, event.event = ⟨root, .commit shown⟩ ∧ shown.mapped = true ∧
        event.scene = some scene ∧ Depicts s members scene.layers hits) ∧
    (¬ (commit.mapped = true ∧ commit.root.isSome = true ∧ ¬ Fails s commit members) →
      ∃ shown, event.event = ⟨root, .commit shown⟩ ∧ shown.mapped = false ∧
        event.scene = none ∧ hits = [])

/-! ### Surfaces elsewhere -/

/-- The two states agree on the roles and the commits of a surface, and on whether it has a view. -/
def AlikeAt (s t : SourceViews) (surface : ClientSurfaceId) : Prop :=
  t.isView surface = s.isView surface ∧ t.popupOf surface = s.popupOf surface ∧
    t.commitOf surface = s.commitOf surface

variable {s : SourceViews} {x : ClientSurfaceId} {t : SourceViews}

theorem leadsTo_elsewhere (halike : ∀ y, y ≠ x → AlikeAt s t y) (hx : ¬ s.LeadsTo x root)
    (h : s.LeadsTo surface root) : t.LeadsTo surface root := by
  rw [← root_eq_some_iff] at h hx ⊢
  refine BoundedWalk.walk_elsewhere (fun y hy => (halike y hy).1) (fun y hy => ?_) hx h
  rw [t.ownerOf_eq, s.ownerOf_eq, (halike y hy).2.1]

variable {members : List ClientSurfaceId}

/-- The members of a view are the same if only a surface changes that does not belong to it. -/
theorem Members.elsewhere (h : Members s root members) (halike : ∀ y, y ≠ x → AlikeAt s t y)
    (hs : ¬ s.LeadsTo x root) (ht : ¬ t.LeadsTo x root) : Members t root members := by
  obtain ⟨popups, hmembers, hsorted, hpopups⟩ := h
  refine ⟨popups, hmembers, hsorted, fun surface popup => ?_⟩
  rw [hpopups]
  by_cases hsurface : surface = x
  · subst hsurface
    exact ⟨fun h => absurd h.2.1 hs, fun h => absurd h.2.1 ht⟩
  · obtain ⟨-, hpopup, hcommit⟩ := halike surface hsurface
    have hback : ∀ y, y ≠ x → AlikeAt t s y := fun y hy =>
      ⟨(halike y hy).1.symm, (halike y hy).2.1.symm, (halike y hy).2.2.symm⟩
    rw [hpopup, drawn, drawn, hcommit]
    exact ⟨fun h => ⟨h.1, leadsTo_elsewhere halike hs h.2.1, h.2.2⟩,
      fun h => ⟨h.1, leadsTo_elsewhere hback ht h.2.1, h.2.2⟩⟩

theorem Members.leadsTo {member : ClientSurfaceId} (h : Members s root members)
    (hmember : member ∈ members) : member = root ∨ s.LeadsTo member root := by
  obtain ⟨popups, rfl, -, hpopups⟩ := h
  rcases List.mem_cons.mp hmember with rfl | hmember
  · exact Or.inl rfl
  · obtain ⟨⟨surface, popup⟩, hentry, rfl⟩ := List.mem_map.mp hmember
    exact Or.inr ((hpopups surface popup).mp hentry).2.1

variable {hits : List HitRegion} {event : ViewEvent} {commit : ClientSurfaceCommit}

section

variable (h : Shown s root hits commit event)
include h

/-- What a view shows depends on its members and their commits. -/
theorem Shown.transfer (hsame : ∀ members, Members s root members → Members t root members ∧ ∀ member
      ∈ members, t.commitOf member = s.commitOf member) : Shown t root hits commit event := by
  obtain ⟨members, hmembers, hshown, hhidden⟩ := h
  obtain ⟨hthere, hcommits⟩ := hsame members hmembers
  have hplacements : placements t members = placements s members :=
    List.flatMap_congr fun member hmember => by rw [hcommits member hmember]
  have hinputs : inputPlacements t members = inputPlacements s members :=
    List.flatMap_congr fun member hmember => by rw [hcommits member hmember]
  refine ⟨members, hthere, ?_, ?_⟩
  · unfold Fails Depicts
    rw [hplacements, hinputs]
    exact hshown
  · unfold Fails
    rw [hplacements]
    exact hhidden

/-- **What a view shows does not depend on surfaces that do not belong to it.** -/
theorem Shown.elsewhere (hx : root ≠ x) (halike : ∀ y, y ≠ x → AlikeAt s t y) (hs : ¬ s.LeadsTo x root)
    (ht : ¬ t.LeadsTo x root) : Shown t root hits commit event := by
  refine h.transfer fun members hmembers =>
    ⟨hmembers.elsewhere halike hs ht, fun member hmember => (halike member ?_).2.2⟩
  rintro rfl
  rcases hmembers.leadsTo hmember with hroot | hleads
  · exact hx hroot.symm
  · exact hs hleads

theorem Shown.congr (halike : ∀ y, AlikeAt s t y) : Shown t root hits commit event := by
  have hstop : t.isView = s.isView := funext fun y => (halike y).1
  have hnext : t.ownerOf = s.ownerOf := funext fun y => by
    rw [t.ownerOf_eq, s.ownerOf_eq, (halike y).2.1]
  refine h.transfer fun members hmembers => ⟨?_, fun member _ => (halike member).2.2⟩
  obtain ⟨popups, heq, hsorted, hpopups⟩ := hmembers
  refine ⟨popups, heq, hsorted, fun surface popup => ?_⟩
  rw [hpopups, (halike surface).2.1, LeadsTo, LeadsTo, hstop, hnext,
    drawn, drawn, (halike surface).2.2]

end

/-! ### Assembling a scene -/

namespace SourceViews

theorem stackKey_inj {a b : ClientSurfaceId × PopupState} (h : stackKey a = stackKey b) :
    a.1 = b.1 := by
  obtain ⟨⟨⟨source', client'⟩, surface'⟩, popup'⟩ := b
  simp only [stackKey, EmbeddingLike.apply_eq_iff_eq, Prod.mk.injEq] at h
  obtain ⟨-, rfl, rfl, rfl⟩ := h
  rfl

variable {s : SourceViews} {root : ClientSurfaceId}
  {surface : ClientSurfaceId} {entry : ClientSurfaceId × PopupState} {view : View}
  {popup : PopupState} {size : LogicalSize} {geometry : SurfaceWindowGeometry}
  {members : List ClientSurfaceId} {placement : SurfaceLayerPlacement} {t : SourceViews}

theorem popupOf_eq_some_iff :
    s.popupOf surface = some popup ↔
      ∃ state, s.surfaces.lookup surface = some state ∧ state.role = some (.popup popup) := by
  unfold popupOf
  rw [Option.bind_eq_some_iff]
  refine exists_congr fun state => and_congr_right fun _ => ?_
  cases hrole : state.role with
  | none => simp
  | some role => cases role <;> simp

theorem mem_popups :
    entry ∈ s.popups root ↔ s.popupOf entry.1 = some entry.2 ∧ s.LeadsTo entry.1 root := by
  unfold popups
  rw [List.mem_insertionSort, List.mem_filterMap, ← root_eq_some_iff, popupOf_eq_some_iff]
  constructor
  · rintro ⟨⟨id, state⟩, hmem, hentry⟩
    have hlookup := AList.mem_entries_iff.mp hmem
    cases hrole : state.role with
    | none => simp [hrole] at hentry
    | some role =>
        cases role with
        | toplevel | layer => simp [hrole] at hentry
        | popup popup =>
            simp only [hrole] at hentry
            split_ifs at hentry with hroot
            cases hentry
            exact ⟨⟨state, hlookup, hrole⟩, hroot⟩
  · rintro ⟨⟨state, hlookup, hrole⟩, hroot⟩
    refine ⟨⟨entry.1, state⟩, AList.mem_entries_iff.mpr hlookup, ?_⟩
    simp only [hrole, hroot, if_true]

theorem id_of_popup {entry : Σ _ : ClientSurfaceId, Surface} {found : ClientSurfaceId × PopupState}
    (h : found ∈ (match entry.2.role with
      | some (.popup popup) => if s.root entry.1 = some root then some (entry.1, popup) else none
      | some (.toplevel _) | some .layer | none => none)) : found.1 = entry.1 := by
  split at h
  · split_ifs at h
    · cases h
      rfl
    · exact absurd h (Option.not_mem_none _)
  all_goals exact absurd h (Option.not_mem_none _)

/-- The popups are sorted, and no two have the same key. -/
theorem popups_sorted : (s.popups root).Pairwise fun a b => stackKey a < stackKey b := by
  have hids : (s.popups root).Pairwise fun a b => a.1 ≠ b.1 := by
    unfold popups
    rw [(List.perm_insertionSort _ _).pairwise_iff fun h => Ne.symm h]
    refine List.Pairwise.filterMap _ ?_ (List.nodupKeys_iff_pairwise.mp s.surfaces.nodupKeys)
    intro entry other hne found hfound found' hfound'
    rw [id_of_popup hfound, id_of_popup hfound']
    exact hne
  have hkeys : (s.popups root).Pairwise fun a b => stackKey a ≤ stackKey b :=
    List.pairwise_insertionSort _ _
  refine (hids.and hkeys).imp fun {a b} hab => ?_
  exact lt_of_le_of_ne hab.2 fun heq => hab.1 (stackKey_inj heq)

/-- The members that are drawn, as they are found. -/
def membersOf (s : SourceViews) (root : ClientSurfaceId) : List ClientSurfaceId :=
  root :: ((s.popups root).filter fun entry => s.drawn entry.1).map (·.1)

theorem members_membersOf : Members s root (s.membersOf root) := by
  refine ⟨(s.popups root).filter fun entry => s.drawn entry.1, rfl, popups_sorted.filter _, ?_⟩
  intro surface popup
  rw [List.mem_filter, mem_popups, and_assoc]

/-! ### Appending the members -/

variable {commit : ClientSurfaceCommit} {state : Surface} {session : HoistSessionId}

/-- The layers of a commit at an offset. -/
def offsetLayers (commit : ClientSurfaceCommit) (offset : LogicalPoint) :
    List (Option ClientBufferLease × SurfaceLayerPlacement) :=
  (commit.root.toList ++ commit.overlays).map fun placement =>
    (retainedBuffer commit placement.layer,
      { placement with position := moved placement.position offset })

/-- The regions of a commit at an offset. -/
def offsetRegions (surface : ClientSurfaceId) (commit : ClientSurfaceCommit)
    (offset : LogicalPoint) :
    List (ClientSurfaceId × SurfaceLayerId × LogicalPoint × List SurfaceInputRect) :=
  commit.inputs.map fun input =>
    (surface, input.layer, moved input.position offset, input.regions)

/-- A layer of the commit has no buffer. -/
def Lacks (commit : ClientSurfaceCommit) : Prop :=
  ∃ placement ∈ commit.root.toList ++ commit.overlays, retainedBuffer commit placement.layer = none

theorem mapM_compositionLayer (commit : ClientSurfaceCommit) (offset : LogicalPoint)
    (placements : List SurfaceLayerPlacement) :
    (∃ layers, placements.mapM (compositionLayer commit offset) = .ok layers ∧
        layers.map (·.drawn) = placements.map fun placement =>
          (retainedBuffer commit placement.layer,
            { placement with position := moved placement.position offset })) ∨
      ((∃ error, placements.mapM (compositionLayer commit offset) = .error error) ∧
        ∃ placement ∈ placements, retainedBuffer commit placement.layer = none) := by
  induction placements with
  | nil => exact Or.inl ⟨[], rfl, rfl⟩
  | cons placement placements ih =>
      rw [List.mapM_cons]
      cases hbuffer : retainedBuffer commit placement.layer with
      | none =>
          refine Or.inr ⟨⟨"composition layer has no retained buffer", ?_⟩, placement,
            List.mem_cons_self, hbuffer⟩
          rw [compositionLayer, hbuffer]
          rfl
      | some buffer =>
          rw [compositionLayer, hbuffer]
          rcases ih with ⟨layers, heq, hlayers⟩ | ⟨⟨error, heq⟩, lacking, hmem, hnone⟩
          · refine Or.inl ⟨_, by rw [heq]; rfl, ?_⟩
            rw [List.map_cons, List.map_cons, hlayers, hbuffer]
            rfl
          · refine Or.inr ⟨⟨error, by rw [heq]; rfl⟩, lacking, List.mem_cons_of_mem _ hmem, hnone⟩

/-- What a mapped surface adds to a scene. -/
theorem append_spec (offset : LogicalPoint) (scene : Scene)
    (hstate : s.surfaces.lookup surface = some state) (hsession : state.session = some session)
    (hcommit : state.commit = some commit) (hmapped : commit.mapped = true) :
    (∃ more, s.append surface offset scene = .ok more ∧
        more.layers.map (·.drawn) = scene.layers.map (·.drawn) ++ offsetLayers commit offset ∧
        more.hits.map (·.region) =
          scene.hits.map (·.region) ++ offsetRegions surface commit offset) ∨
      ((∃ error, s.append surface offset scene = .error error) ∧ Lacks commit) := by
  unfold append
  simp only [hstate, hsession, hcommit, hmapped, if_true]
  rcases mapM_compositionLayer commit offset (commit.root.toList ++ commit.overlays) with
    ⟨layers, heq, hlayers⟩ | ⟨⟨error, heq⟩, hlacks⟩
  · rw [heq]
    refine Or.inl ⟨_, rfl, ?_, ?_⟩
    · rw [List.map_append, hlayers]
      rfl
    · rw [List.map_append, List.map_map]
      rfl
  · rw [heq]
    exact Or.inr ⟨⟨error, rfl⟩, hlacks⟩

theorem drawn_eq_true_iff :
    s.drawn surface = true ↔ ∃ commit, s.commitOf surface = some commit ∧ commit.mapped = true ∧
      (commit.windowGeometry.isSome = true ∨ commit.root.isSome = true) := by
  unfold drawn
  rw [Option.any_eq_true]
  simp only [Bool.and_eq_true, Bool.or_eq_true]

/-- Where a popup is put. -/
def placeOf (s : SourceViews) (size : LogicalSize) (entry : ClientSurfaceId × PopupState) :
    LogicalPoint :=
  ((s.commitOf entry.1).bind (popupPosition size entry.2)).getD {}

theorem popupPosition_isSome (h : commit.windowGeometry.isSome = true ∨ commit.root.isSome = true) :
    (popupPosition size popup commit).isSome = true := by
  unfold popupPosition
  rw [Option.isSome_map]
  cases hgeometry : commit.windowGeometry with
  | some geometry => rfl
  | none =>
      rw [hgeometry] at h
      simpa using h

/-- A popup that is not drawn adds nothing. -/
theorem appendPopup_undrawn {scene : Scene}
    (hdrawn : s.drawn entry.1 = false) : s.appendPopup size scene entry = .ok scene := by
  unfold appendPopup
  rw [show (s.surfaces.lookup entry.1).bind (·.commit) = s.commitOf entry.1 from rfl]
  cases hcommit : (s.commitOf entry.1).filter (·.mapped) with
  | none => rfl
  | some commit =>
      obtain ⟨hcommit, hmapped⟩ := Option.filter_eq_some_iff.mp hcommit
      unfold drawn at hdrawn
      rw [hcommit] at hdrawn
      simp only [Option.any_some, hmapped, Bool.true_and, Bool.or_eq_false_iff] at hdrawn
      have hposition : popupPosition size entry.2 commit = none := by
        unfold popupPosition
        have hgeometry : commit.windowGeometry = none := by simpa using hdrawn.1
        have hroot : commit.root = none := by simpa using hdrawn.2
        simp [hgeometry, hroot]
      simp only [hposition]

/-- What a popup that is drawn adds. -/
theorem appendPopup_drawn (size : LogicalSize) (scene : Scene)
    (hsessions : ∀ surface state, s.surfaces.lookup surface = some state → state.session.isSome = true)
    (hdrawn : s.drawn entry.1 = true) :
    ∃ commit, s.commitOf entry.1 = some commit ∧
      ((∃ more, s.appendPopup size scene entry = .ok more ∧ more.layers.map (·.drawn) =
            scene.layers.map (·.drawn) ++ offsetLayers commit (s.placeOf size entry) ∧
          more.hits.map (·.region) =
            scene.hits.map (·.region) ++ offsetRegions entry.1 commit (s.placeOf size entry)) ∨
        ((∃ error, s.appendPopup size scene entry = .error error) ∧ Lacks commit)) := by
  obtain ⟨commit, hcommit, hmapped, hextent⟩ := drawn_eq_true_iff.mp hdrawn
  obtain ⟨state, hstate, hstateCommit⟩ := Option.bind_eq_some_iff.mp hcommit
  obtain ⟨session, hsession⟩ := Option.isSome_iff_exists.mp (hsessions _ _ hstate)
  have hsome : (popupPosition size entry.2 commit).isSome = true := popupPosition_isSome hextent
  obtain ⟨position, hposition⟩ := Option.isSome_iff_exists.mp hsome
  have hplace : s.placeOf size entry = position := by
    unfold placeOf
    rw [hcommit, Option.bind_some, hposition]
    rfl
  have happend : s.appendPopup size scene entry = s.append entry.1 position scene := by
    unfold appendPopup
    rw [show (s.surfaces.lookup entry.1).bind (·.commit) = s.commitOf entry.1 from rfl, hcommit]
    simp only [Option.filter_some, hmapped, if_true, hposition]
  rw [happend, hplace]
  exact ⟨commit, hcommit, append_spec position scene hstate hsession hstateCommit hmapped⟩

/-- The layers of the popups that are drawn, each at its place. -/
def popupLayers (s : SourceViews) (size : LogicalSize)
    (entries : List (ClientSurfaceId × PopupState)) :
    List (Option ClientBufferLease × SurfaceLayerPlacement) :=
  (entries.filter fun entry => s.drawn entry.1).flatMap fun entry =>
    (s.commitOf entry.1).toList.flatMap fun commit => offsetLayers commit (s.placeOf size entry)

/-- The regions of the popups that are drawn. -/
def popupRegions (s : SourceViews) (size : LogicalSize)
    (entries : List (ClientSurfaceId × PopupState)) :
    List (ClientSurfaceId × SurfaceLayerId × LogicalPoint × List SurfaceInputRect) :=
  (entries.filter fun entry => s.drawn entry.1).flatMap fun entry =>
    (s.commitOf entry.1).toList.flatMap fun commit =>
      offsetRegions entry.1 commit (s.placeOf size entry)

/-- What the popups of a view add. -/
theorem foldlM_appendPopup (size : LogicalSize)
    (hsessions : ∀ surface state, s.surfaces.lookup surface = some state → state.session.isSome = true)
    (entries : List (ClientSurfaceId × PopupState)) (scene : Scene) :
    (∃ more, entries.foldlM (s.appendPopup size) scene = .ok more ∧
        more.layers.map (·.drawn) = scene.layers.map (·.drawn) ++ s.popupLayers size entries ∧
        more.hits.map (·.region) = scene.hits.map (·.region) ++ s.popupRegions size entries) ∨
      ((∃ error, entries.foldlM (s.appendPopup size) scene = .error error) ∧
        ∃ entry ∈ entries, s.drawn entry.1 = true ∧
          ∃ commit, s.commitOf entry.1 = some commit ∧ Lacks commit) := by
  induction entries generalizing scene with
  | nil => exact Or.inl ⟨scene, rfl, by simp [popupLayers], by simp [popupRegions]⟩
  | cons entry entries ih =>
      have hlater : ∀ {more : Scene},
          ((∃ error, entries.foldlM (s.appendPopup size) more = .error error) ∧
            ∃ entry ∈ entries, s.drawn entry.1 = true ∧
              ∃ commit, s.commitOf entry.1 = some commit ∧ Lacks commit) →
          s.appendPopup size scene entry = .ok more →
          (∃ error, (entry :: entries).foldlM (s.appendPopup size) scene = .error error) ∧
            ∃ found ∈ entry :: entries, s.drawn found.1 = true ∧
              ∃ commit, s.commitOf found.1 = some commit ∧ Lacks commit := by
        rintro more ⟨⟨error, herror⟩, found, hmem, hdrawn, hlacks⟩ heq
        refine ⟨⟨error, ?_⟩, found, List.mem_cons_of_mem _ hmem, hdrawn, hlacks⟩
        rw [List.foldlM_cons, heq]
        exact herror
      cases hdrawn : s.drawn entry.1 with
      | false =>
          have heq : s.appendPopup size scene entry = .ok scene := appendPopup_undrawn hdrawn
          rcases ih scene with ⟨more, hmore, hlayers, hregions⟩ | herror
          · refine Or.inl ⟨more, ?_, ?_, ?_⟩
            · rw [List.foldlM_cons, heq]
              exact hmore
            · rw [hlayers, popupLayers, popupLayers, List.filter_cons_of_neg (by simp [hdrawn])]
            · rw [hregions, popupRegions, popupRegions, List.filter_cons_of_neg (by simp [hdrawn])]
          · exact Or.inr (hlater herror heq)
      | true =>
          obtain ⟨commit, hcommit, hcases⟩ := appendPopup_drawn size scene hsessions hdrawn
          rcases hcases with ⟨next, heq, hlayers, hregions⟩ | ⟨⟨error, heq⟩, hlacks⟩
          · rcases ih next with ⟨more, hmore, hmoreLayers, hmoreRegions⟩ | herror
            · refine Or.inl ⟨more, ?_, ?_, ?_⟩
              · rw [List.foldlM_cons, heq]
                exact hmore
              · rw [hmoreLayers, hlayers, popupLayers, popupLayers,
                  List.filter_cons_of_pos (by simp [hdrawn])]
                simp [hcommit]
              · rw [hmoreRegions, hregions, popupRegions, popupRegions,
                  List.filter_cons_of_pos (by simp [hdrawn])]
                simp [hcommit]
            · exact Or.inr (hlater herror heq)
          · refine Or.inr ⟨⟨error, ?_⟩, entry, List.mem_cons_self, hdrawn, commit, hcommit, hlacks⟩
            rw [List.foldlM_cons, heq]
            rfl

/-! ### The whole scene -/

theorem map_placements (place : ClientSurfaceId → LogicalPoint) (members : List ClientSurfaceId) :
    (placements s members).map (fun entry =>
        (retainedBuffer entry.2.1 entry.2.2.layer,
          { entry.2.2 with position := moved entry.2.2.position (place entry.1) })) =
      members.flatMap fun member => (s.commitOf member).toList.flatMap fun commit =>
        offsetLayers commit (place member) := by
  simp only [placements, List.map_flatMap, List.map_map, offsetLayers]
  rfl

theorem map_inputPlacements (place : ClientSurfaceId → LogicalPoint)
    (members : List ClientSurfaceId) :
    (inputPlacements s members).map (fun entry =>
        (entry.1, entry.2.layer, moved entry.2.position (place entry.1), entry.2.regions)) =
      members.flatMap fun member => (s.commitOf member).toList.flatMap fun commit =>
        offsetRegions member commit (place member) := by
  simp only [inputPlacements, List.map_flatMap, List.map_map, offsetRegions]
  rfl

/-- Where the members of a view are put. -/
def place (s : SourceViews) (root : ClientSurfaceId) (geometry : SurfaceWindowGeometry)
    (surface : ClientSurfaceId) : LogicalPoint :=
  if surface = root then ⟨geometry.origin.x.neg, geometry.origin.y.neg⟩
  else ((s.popupOf surface).map fun popup =>
    s.placeOf ⟨geometry.view.logicalWidth, geometry.view.logicalHeight⟩ (surface, popup)).getD {}

/-- The popups of a view are put where their state says. -/
theorem place_popup (hroot : s.popupOf root = none) (hentry : entry ∈ s.popups root) :
    s.place root geometry entry.1 =
      s.placeOf ⟨geometry.view.logicalWidth, geometry.view.logicalHeight⟩ entry := by
  obtain ⟨hpopup, -⟩ := mem_popups.mp hentry
  have hne : entry.1 ≠ root := by
    intro heq
    rw [heq, hroot] at hpopup
    cases hpopup
  rw [place, if_neg hne, hpopup]
  rfl

/-- What the members contribute, member by member. -/
theorem flatMap_membersOf {β : Type}
    (hroot : s.popupOf root = none) (hcommit : s.commitOf root = some commit)
    (f : ClientSurfaceId → ClientSurfaceCommit → LogicalPoint → List β) :
    ((s.membersOf root).flatMap fun member => (s.commitOf member).toList.flatMap fun commit =>
        f member commit (s.place root geometry member)) =
      f root commit ⟨geometry.origin.x.neg, geometry.origin.y.neg⟩ ++
        ((s.popups root).filter fun entry => s.drawn entry.1).flatMap fun entry =>
          (s.commitOf entry.1).toList.flatMap fun commit =>
            f entry.1 commit (s.placeOf ⟨geometry.view.logicalWidth, geometry.view.logicalHeight⟩
              entry) := by
  have hplace : s.place root geometry root = ⟨geometry.origin.x.neg, geometry.origin.y.neg⟩ :=
    if_pos rfl
  rw [membersOf, List.flatMap_cons, hcommit, hplace, List.flatMap_map]
  congr 1
  · simp
  · refine List.flatMap_congr fun entry hentry => ?_
    rw [place_popup hroot (List.mem_filter.mp hentry).1]

/-- A member whose commit lacks a buffer makes the composition fail. -/
theorem fails_of_lacks {member : ClientSurfaceId}
    {lacking : ClientSurfaceCommit} (hmember : member ∈ members)
    (hcommit : s.commitOf member = some lacking) (h : Lacks lacking) : Fails s commit members := by
  obtain ⟨placement, hplacement, hnone⟩ := h
  refine Or.inr (Or.inl ⟨(member, lacking, placement), ?_, hnone⟩)
  refine List.mem_flatMap.mpr ⟨member, hmember, List.mem_flatMap.mpr ⟨lacking, ?_, ?_⟩⟩
  · rw [hcommit]
    exact List.mem_singleton_self _
  · exact List.mem_map_of_mem hplacement

/-- What is depicted has all its buffers. -/
theorem not_fails_of_depicts {layers : List CompositionLayer} (h : Depicts s members layers hits)
    (hplacement : commit.root = some placement)
    (hvalid : validViewport (viewport commit placement).view = true)
    (hlimit : layers.length ≤ maxViewLayers) : ¬ Fails s commit members := by
  obtain ⟨place, hlayers, -⟩ := h
  rintro (⟨other, hother, hinvalid⟩ | ⟨entry, hentry, hnone⟩ | hmany)
  · rw [hplacement] at hother
    obtain rfl : placement = other := Option.some.inj hother
    rw [hvalid] at hinvalid
    cases hinvalid
  · have hmem := List.mem_map_of_mem (f := fun entry : ClientSurfaceId × ClientSurfaceCommit ×
      SurfaceLayerPlacement => (retainedBuffer entry.2.1 entry.2.2.layer,
        { entry.2.2 with position := moved entry.2.2.position (place entry.1) })) hentry
    rw [← hlayers] at hmem
    obtain ⟨layer, -, hlayer⟩ := List.mem_map.mp hmem
    have hsome : some layer.buffer = retainedBuffer entry.2.1 entry.2.2.layer :=
      congrArg Prod.fst hlayer
    rw [hnone] at hsome
    cases hsome
  · have hlength := congrArg List.length hlayers
    rw [List.length_map, List.length_map] at hlength
    omega

/-- **A scene shows the members, unless it cannot be composed.** -/
theorem assemble_spec
    (hsessions : ∀ surface state, s.surfaces.lookup surface = some state → state.session.isSome = true)
    (hroot : s.popupOf root = none) (hcommit : s.commitOf root = some commit)
    (hmapped : commit.mapped = true) (hplacement : commit.root = some placement) :
    (∃ scene, s.assemble root (viewport commit placement) = .ok scene ∧
        ¬ Fails s commit (s.membersOf root) ∧
        Depicts s (s.membersOf root) scene.layers scene.hits) ∨
      ((∃ error, s.assemble root (viewport commit placement) = .error error) ∧
        Fails s commit (s.membersOf root)) := by
  obtain ⟨state, hstate, hstateCommit⟩ := Option.bind_eq_some_iff.mp hcommit
  obtain ⟨session, hsession⟩ := Option.isSome_iff_exists.mp (hsessions _ _ hstate)
  set geometry := viewport commit placement with hgeometry
  unfold assemble
  cases hvalid : validViewport geometry.view with
  | false =>
      refine Or.inr ⟨⟨_, if_neg (by simp)⟩, Or.inl ⟨placement, hplacement, ?_⟩⟩
      rw [← hgeometry]
      exact hvalid
  | true =>
      rw [if_pos rfl]
      rcases append_spec ⟨geometry.origin.x.neg, geometry.origin.y.neg⟩ {} hstate hsession
          hstateCommit hmapped with ⟨base, hbase, hlayers, hregions⟩ | ⟨⟨error, herror⟩, hlacks⟩
      · rw [hbase]
        rcases foldlM_appendPopup ⟨geometry.view.logicalWidth,
            geometry.view.logicalHeight⟩ hsessions (s.popups root) base with
          ⟨scene, hscene, hmoreLayers, hmoreRegions⟩ | ⟨⟨error, herror⟩, entry, hentry, hdrawn,
            lacking, hlacking, hlacks⟩
        · have hdepicts : Depicts s (s.membersOf root) scene.layers scene.hits := by
            refine ⟨s.place root geometry, ?_, ?_⟩
            · rw [map_placements, flatMap_membersOf hroot hcommit
                fun _ commit place => offsetLayers commit place, hmoreLayers, hlayers]
              rfl
            · rw [map_inputPlacements, flatMap_membersOf hroot hcommit
                fun member commit place => offsetRegions member commit place, hmoreRegions, hregions]
              rfl
          by_cases hlimit : scene.layers.length ≤ maxViewLayers
          · refine Or.inl ⟨scene, ?_, not_fails_of_depicts hdepicts hplacement
              (hgeometry ▸ hvalid) hlimit, hdepicts⟩
            simp only [bind, Except.bind, hscene, if_pos hlimit]
          · refine Or.inr ⟨⟨"composition layer limit exceeded", ?_⟩, Or.inr (Or.inr ?_)⟩
            · simp only [bind, Except.bind, hscene, if_neg hlimit]
            · obtain ⟨place, hall, -⟩ := hdepicts
              have hlength := congrArg List.length hall
              rw [List.length_map, List.length_map] at hlength
              omega
        · refine Or.inr ⟨⟨error, ?_⟩, fails_of_lacks ?_ hlacking hlacks⟩
          · simp only [bind, Except.bind, herror]
          · exact List.mem_cons_of_mem _
              (List.mem_map_of_mem (List.mem_filter.mpr ⟨hentry, hdrawn⟩))
      · refine Or.inr ⟨⟨error, ?_⟩, fails_of_lacks List.mem_cons_self hcommit hlacks⟩
        simp only [bind, Except.bind, herror]

/-! ### Composing a view -/

/-- The state with another view for one root. -/
structure SetsView (s t : SourceViews) (root : ClientSurfaceId) (view : View) : Prop where
  mode : t.mode = s.mode
  surfaces : t.surfaces = s.surfaces
  views : ∀ x, t.views.lookup x = if x = root then some view else s.views.lookup x

theorem setsView_setView (view : View) : SetsView s (s.setView root view) root view :=
  ⟨rfl, rfl, fun _ => AList.lookup_insert_eq _ _ _ _⟩

theorem SetsView.trans {u : SourceViews} {view' : View} (h : SetsView s t root view)
    (h' : SetsView t u root view') : SetsView s u root view' := by
  refine ⟨h'.mode.trans h.mode, h'.surfaces.trans h.surfaces, fun x => ?_⟩
  rw [h'.views, h.views]
  split_ifs
  · rfl
  · rfl

/-- Clearing a mark changes one view, if it is there. -/
theorem setsView_modify (hview : s.views.lookup root = some view) :
    SetsView s { s with views := s.views.modify root fun view => { view with invalid := false } }
      root { view with invalid := false } := by
  refine ⟨rfl, rfl, fun x => ?_⟩
  rw [AList.lookup_modify]
  split_ifs with hx
  · rw [hx, hview]
    rfl
  · rfl

theorem SetsView.alikeAt (h : SetsView s t root view)
    (hview : s.isView root = true) (x : ClientSurfaceId) : AlikeAt s t x := by
  refine ⟨?_, ?_, ?_⟩
  · unfold isView at hview ⊢
    rw [h.views]
    split_ifs with hx
    · rw [hx, hview]
      rfl
    · rfl
  · unfold popupOf
    rw [h.surfaces]
  · unfold commitOf
    rw [h.surfaces]

/-- The two ways a revision advances. -/
theorem advance_cases (view : View) (upstream : ℕ) :
    (∃ revision, view.advance upstream = ({ view with revision := revision }, .ok revision) ∧
        max view.revision upstream < revision ∧ max view.revision upstream + 1 < wireLimit) ∨
      ((∃ error, view.advance upstream = (view, .error error)) ∧
        wireLimit ≤ max view.revision upstream + 1) := by
  unfold View.advance checkedSucc
  split_ifs with hlimit
  · exact Or.inl ⟨max view.revision upstream + 1, rfl, Nat.lt_succ_self _, hlimit⟩
  · exact Or.inr ⟨⟨_, rfl⟩, by omega⟩

/-- A view is shown with a larger revision than before. -/
def Emits (s t : SourceViews) (root : ClientSurfaceId) (view : View) (commit : ClientSurfaceCommit)
    (event : ViewEvent) : Prop :=
  ∃ view' shown, SetsView s t root view' ∧ event.event = ⟨root, .commit shown⟩ ∧
    shown.revision = view'.revision ∧ max view.revision commit.revision < view'.revision ∧
    Shown s root view'.hits commit event

/-- A root that shows nothing. -/
theorem shown_hidden (hidden : ¬ (commit.mapped = true ∧ commit.root.isSome = true ∧
      ¬ Fails s commit (s.membersOf root))) (session : HoistSessionId) (revision : ℕ) :
    Shown s root [] commit ⟨session, SourceViews.hidden root revision, none⟩ :=
  ⟨s.membersOf root, members_membersOf, fun h => absurd h hidden, fun _ => ⟨_, rfl, rfl, rfl, rfl⟩⟩

/-- A first try to compose a view whose root has a commit. -/
theorem tryCompose_spec
    (hsessions : ∀ surface state, s.surfaces.lookup surface = some state → state.session.isSome = true)
    (hview : s.views.lookup root = some view) (hroot : s.popupOf root = none)
    (hcommit : s.commitOf root = some commit) :
    (∃ t event, s.tryCompose root = (t, .ok (some event)) ∧ Emits s t root view commit event) ∨
      ∃ t view' error, s.tryCompose root = (t, .error error) ∧
        (t.views.lookup root = some view' ∧ SetsView s t root view') ∧
        view'.revision = view.revision ∧
        (wireLimit ≤ max view.revision commit.revision + 1 ∨
          ¬ (commit.mapped = true ∧ commit.root.isSome = true ∧
            ¬ Fails s commit (s.membersOf root))) := by
  obtain ⟨state, hstate, hstateCommit⟩ := Option.bind_eq_some_iff.mp hcommit
  obtain ⟨session, hsession⟩ := Option.isSome_iff_exists.mp (hsessions _ _ hstate)
  have hsame : SetsView s s root view := by
    refine ⟨rfl, rfl, fun x => ?_⟩
    split_ifs with hx
    · rw [hx, hview]
    · rfl
  unfold tryCompose
  rw [hstate]
  simp only [Option.bind_some, hsession, hstateCommit, Option.map_some]
  cases hplacement : commit.root.filter fun _ => commit.mapped with
  | none =>
      have hhidden : ¬ (commit.mapped = true ∧ commit.root.isSome = true ∧
          ¬ Fails s commit (s.membersOf root)) := by
        rintro ⟨hmapped, hsome, -⟩
        obtain ⟨placement, hplaced⟩ := Option.isSome_iff_exists.mp hsome
        rw [hplaced] at hplacement
        simp [hmapped] at hplacement
      simp only [hview]
      rcases advance_cases { view with hits := [] } commit.revision with
        ⟨revision, hadvance, hlarger, -⟩ | ⟨⟨error, hadvance⟩, hlimit⟩
      · rw [hadvance]
        exact Or.inl ⟨_, _, rfl, _, _, setsView_setView _, rfl, rfl, hlarger,
          shown_hidden hhidden session revision⟩
      · rw [hadvance]
        exact Or.inr ⟨_, _, _, rfl, ⟨by simp [setView], setsView_setView _⟩, rfl, Or.inl hlimit⟩
  | some placement =>
      obtain ⟨hplaced, hmapped⟩ := Option.filter_eq_some_iff.mp hplacement
      simp only []
      rcases assemble_spec hsessions hroot hcommit hmapped hplaced with
        ⟨scene, hscene, hsound, hdepicts⟩ | ⟨⟨error, herror⟩, hfails⟩
      · simp only [hscene, hview]
        rcases advance_cases { view with hits := scene.hits } commit.revision with
          ⟨revision, hadvance, hlarger, -⟩ | ⟨⟨error, hadvance⟩, hlimit⟩
        · rw [hadvance]
          refine Or.inl ⟨_, _, rfl, _, _, setsView_setView _, rfl, rfl, hlarger, s.membersOf root,
            members_membersOf, fun _ => ⟨_, _, rfl, rfl, rfl, hdepicts⟩, fun h => ?_⟩
          exact absurd ⟨hmapped, by rw [hplaced]; rfl, hsound⟩ h
        · rw [hadvance]
          exact Or.inr ⟨_, _, _, rfl, ⟨by simp [setView], setsView_setView _⟩, rfl, Or.inl hlimit⟩
      · rw [herror]
        exact Or.inr ⟨s, view, error, rfl, ⟨hview, hsame⟩, rfl, Or.inr fun h => h.2.2 hfails⟩

/-- A root without a commit shows nothing yet. -/
theorem compose_waiting (hview : s.views.lookup root = some view)
    (hcommit : s.commitOf root = none) :
    (s.compose root).2 = .ok none ∧
      SetsView s (s.compose root).1 root { view with invalid := false } := by
  have htry : s.tryCompose root = (s, .ok none) := by
    unfold tryCompose
    have hnone : ((s.surfaces.lookup root).bind fun state => state.session.bind fun session =>
        state.commit.map fun commit => (session, commit)) = none := by
      cases hstate : s.surfaces.lookup root with
      | none => rfl
      | some state =>
          have hstateCommit : state.commit = none := by
            unfold commitOf at hcommit
            rw [hstate] at hcommit
            exact hcommit
          rw [Option.bind_some, hstateCommit]
          cases state.session with
          | none | some => rfl
    rw [hnone]
  unfold compose
  rw [htry]
  exact ⟨rfl, setsView_modify hview⟩

/-- **Composing a view shows it with a larger revision, unless there is none.** -/
theorem compose_spec
    (hsessions : ∀ surface state, s.surfaces.lookup surface = some state → state.session.isSome = true)
    (hview : s.views.lookup root = some view) (hroot : s.popupOf root = none)
    (hcommit : s.commitOf root = some commit) :
    (∃ event, (s.compose root).2 = .ok (some event) ∧
        Emits s (s.compose root).1 root view commit event) ∨
      ((∃ error, (s.compose root).2 = .error error) ∧
        wireLimit ≤ max view.revision commit.revision + 1) := by
  obtain ⟨state, hstate, hstateCommit⟩ := Option.bind_eq_some_iff.mp hcommit
  obtain ⟨session, hsession⟩ := Option.isSome_iff_exists.mp (hsessions _ _ hstate)
  unfold compose
  rcases tryCompose_spec hsessions hview hroot hcommit with
    ⟨t, event, htry, view', shown, hsets, hevent, hrevision, hlarger, hshown⟩ |
      ⟨t, view', error, htry, ⟨hview', hsets⟩, hrevision, hcause⟩
  · rw [htry]
    refine Or.inl ⟨event, rfl, { view' with invalid := false }, shown, ?_, hevent, hrevision,
      hlarger, hshown⟩
    have hthere : t.views.lookup root = some view' := by
      rw [hsets.views, if_pos rfl]
    exact hsets.trans (setsView_modify hthere)
  · have hstate' : t.surfaces.lookup root = some state := by
      rw [hsets.surfaces, hstate]
    rw [htry]
    simp only [hview', hstate', hsession, hstateCommit, Option.map_some, Option.getD_some]
    rcases advance_cases { view' with invalid := true } commit.revision with
      ⟨revision, hadvance, hlarger, hlimit⟩ | ⟨⟨error, hadvance⟩, hlimit⟩
    · rw [hadvance]
      simp only [hrevision] at hlarger hlimit
      have hhidden := hcause.resolve_left (by omega)
      refine Or.inl ⟨_, rfl, _, _, hsets.trans (setsView_setView _), rfl, rfl, hlarger, ?_⟩
      exact shown_hidden hhidden session revision
    · rw [hadvance]
      simp only [hrevision] at hlimit
      exact Or.inr ⟨⟨error, rfl⟩, hlimit⟩

end SourceViews

end Views
