/-
**What a snapshot of a surface tree says.**

A snapshot lists the layers that have something to show and places some of them.  As long as the
nodes are distinct, no layer belongs to two surfaces, and every surface that is remembered has a
node, every layer is listed once and everything that is placed is listed.

Main definitions: `SurfaceTreeState.Sound`, `CachedSurfaceBuffer.entry`.

Main results:

* `SurfaceTreeState.mem_snapshot_buffers` — **what is listed**;
* `SurfaceTreeState.Sound.nodup_layers` — every layer is listed once;
* `SurfaceTreeState.Sound.listed` — every surface with a view is listed;
* `SurfaceTreeState.overlay_of_mem`, `SurfaceTreeState.input_of_mem` — what
  is placed.
-/

import Weld.SurfaceTreeCommits

namespace SurfaceTree

open Client

/-- How a layer with something to show is listed. -/
def CachedSurfaceBuffer.entry (cached : CachedSurfaceBuffer) (metadata : SurfaceBufferMetadata)
    (content : Option PendingSurfaceBufferContent) : PendingSurfaceBufferUpdate where
  layer := cached.layer
  width := metadata.width
  height := metadata.height
  content := content.getD .retained
  isOpaque := cached.isOpaque

namespace SurfaceTreeState

variable {s : SurfaceTreeState}

/-- What a snapshot relies on. -/
structure Sound (s : SurfaceTreeState) : Prop where
  planted : Planted s.nodes
  known : ∀ {id cached}, s.buffers.lookup id = some cached → id ∈ s.nodes.map TreeNode.objectId
  measured : ∀ {id cached}, s.buffers.lookup id = some cached → cached.Measured
  separate : ∀ {a b cached cached'}, s.buffers.lookup a = some cached →
    s.buffers.lookup b = some cached' → cached.layer = cached'.layer → a = b

/-! ### What is listed -/

variable {entry : PendingSurfaceBufferUpdate}

theorem mem_bufferUpdates {nodes : List TreeNode} (hnodup : (nodes.map TreeNode.objectId).Nodup) :
    ∀ contentUpdates : Dict ObjectId PendingSurfaceBufferContent,
      entry ∈ s.bufferUpdates nodes contentUpdates ↔
        ∃ node ∈ nodes, ∃ cached metadata, s.buffers.lookup node.objectId = some cached ∧
          cached.metadata = some metadata ∧ cached.view.isSome = true ∧
          entry = cached.entry metadata (contentUpdates.lookup node.objectId) := by
  induction nodes with
  | nil => simp [bufferUpdates]
  | cons node nodes ih =>
      intro contentUpdates
      obtain ⟨hout, hnodup⟩ := List.nodup_cons.mp hnodup
      -- The content of this node was used up before the others are listed.
      have herase : ∀ other ∈ nodes,
          (contentUpdates.erase node.objectId).lookup other.objectId =
            contentUpdates.lookup other.objectId := by
        intro other hother
        have hne : other.objectId ≠ node.objectId := by
          intro heq
          exact hout (List.mem_map.mpr ⟨other, hother, heq⟩)
        simp [hne]
      have hrest : entry ∈ s.bufferUpdates nodes (contentUpdates.erase node.objectId) ↔
          ∃ other ∈ nodes, ∃ cached metadata, s.buffers.lookup other.objectId = some cached ∧
            cached.metadata = some metadata ∧ cached.view.isSome = true ∧
            entry = cached.entry metadata (contentUpdates.lookup other.objectId) := by
        rw [ih hnodup]
        constructor
        · rintro ⟨other, hother, cached, metadata, hlookup, hmetadata, hview, heq⟩
          rw [herase other hother] at heq
          exact ⟨other, hother, cached, metadata, hlookup, hmetadata, hview, heq⟩
        · rintro ⟨other, hother, cached, metadata, hlookup, hmetadata, hview, heq⟩
          rw [← herase other hother] at heq
          exact ⟨other, hother, cached, metadata, hlookup, hmetadata, hview, heq⟩
      simp only [List.mem_cons, exists_eq_or_imp]
      cases hlookup : s.buffers.lookup node.objectId with
      | none => simpa [bufferUpdates, hlookup] using ih hnodup contentUpdates
      | some cached =>
          cases hmetadata : cached.metadata with
          | none => simpa [bufferUpdates, hlookup, hmetadata] using ih hnodup contentUpdates
          | some metadata =>
              cases hview : cached.view with
              | none =>
                  have hskip := ih hnodup contentUpdates
                  simpa [bufferUpdates, hlookup, hmetadata, hview] using hskip
              | some view =>
                  have hstep : s.bufferUpdates (node :: nodes) contentUpdates =
                      cached.entry metadata (contentUpdates.lookup node.objectId) ::
                        s.bufferUpdates nodes (contentUpdates.erase node.objectId) := by
                    simp [bufferUpdates, hlookup, hmetadata, hview, CachedSurfaceBuffer.entry]
                  rw [hstep, List.mem_cons, hrest]
                  simp [hmetadata, hview]

theorem mem_snapshot_buffers (h : (s.nodes.map TreeNode.objectId).Nodup) {rootId : ObjectId}
    {contentUpdates : Dict ObjectId PendingSurfaceBufferContent}
    {feedback : ObjectId → List FeedbackCallback} :
    entry ∈ (s.snapshot rootId contentUpdates feedback).1.buffers ↔
      ∃ node ∈ s.nodes, ∃ cached metadata, s.buffers.lookup node.objectId = some cached ∧
        cached.metadata = some metadata ∧ cached.view.isSome = true ∧
        entry = cached.entry metadata (contentUpdates.lookup node.objectId) := by
  rw [← mem_bufferUpdates h]
  exact (List.perm_insertionSort _ _).mem_iff

section

variable {rootId : ObjectId} {contentUpdates : Dict ObjectId PendingSurfaceBufferContent}
  {feedback : ObjectId → List FeedbackCallback}

theorem layers_perm (s : SurfaceTreeState) (rootId : ObjectId)
    (contentUpdates : Dict ObjectId PendingSurfaceBufferContent)
    (feedback : ObjectId → List FeedbackCallback) :
    (s.snapshot rootId contentUpdates feedback).1.layers.Perm
      ((s.bufferUpdates s.nodes contentUpdates).map PendingSurfaceBufferUpdate.layer) :=
  (List.perm_insertionSort _ _).map _

/-- Every layer is listed once: the surfaces differ, and so do their layers. -/
theorem Sound.nodup_layers (h : s.Sound) :
    (s.snapshot rootId contentUpdates feedback).1.layers.Nodup := by
  rw [(layers_perm s rootId contentUpdates feedback).nodup_iff]
  have hpart : ∀ (nodes : List TreeNode) (contentUpdates : Dict ObjectId _),
      (nodes.map TreeNode.objectId).Nodup →
      ((s.bufferUpdates nodes contentUpdates).map PendingSurfaceBufferUpdate.layer).Nodup := by
    intro nodes
    induction nodes with
    | nil => simp [bufferUpdates]
    | cons node nodes ih =>
        intro contentUpdates hnodup
        obtain ⟨hout, hnodup⟩ := List.nodup_cons.mp hnodup
        rw [bufferUpdates]
        split
        · exact ih _ hnodup
        · next cached metadata hlisted =>
          have hlookup : s.buffers.lookup node.objectId = some cached := by
            obtain ⟨found, hfound, hrest⟩ := Option.bind_eq_some_iff.mp hlisted
            obtain ⟨measured, -, hrest⟩ := Option.bind_eq_some_iff.mp hrest
            obtain ⟨view, -, heq⟩ := Option.bind_eq_some_iff.mp hrest
            cases heq
            exact hfound
          refine List.nodup_cons.mpr ⟨?_, ih _ hnodup⟩
          intro hin
          obtain ⟨entry, hentry, hlayer⟩ := List.mem_map.mp hin
          obtain ⟨other, hother, found, _, hfound, -, -, rfl⟩ :=
            (mem_bufferUpdates hnodup _).mp hentry
          have hsame := h.separate hfound hlookup hlayer
          exact hout (List.mem_map.mpr ⟨other, hother, hsame⟩)
  exact hpart s.nodes contentUpdates h.planted.distinct

/-- Every surface with a view is listed. -/
theorem Sound.listed (h : s.Sound) {id : ObjectId} {cached : CachedSurfaceBuffer}
    (hlookup : s.buffers.lookup id = some cached) (hview : cached.view.isSome = true) :
    cached.layer ∈ (s.snapshot rootId contentUpdates feedback).1.layers := by
  obtain ⟨node, hnode, rfl⟩ := List.mem_map.mp (h.known hlookup)
  have hmetadata : cached.metadata.isSome = true := (h.measured hlookup).symm.trans hview
  obtain ⟨metadata, hmetadata⟩ := Option.isSome_iff_exists.mp hmetadata
  refine List.mem_map.mpr ⟨cached.entry metadata (contentUpdates.lookup node.objectId), ?_, rfl⟩
  exact (mem_snapshot_buffers h.planted.distinct).mpr
    ⟨node, hnode, cached, metadata, hlookup, hmetadata, hview, rfl⟩

/-! ### What is placed -/

variable {placed : SurfaceLayerPlacement}

theorem placement_eq_some {id : ObjectId} {position : Point}
    (h : s.placement id position = some placed) :
    ∃ cached, s.buffers.lookup id = some cached ∧ cached.view.isSome = true ∧
      placed.layer = cached.layer := by
  obtain ⟨cached, hlookup, hrest⟩ := Option.bind_eq_some_iff.mp h
  obtain ⟨view, hview, heq⟩ := Option.bind_eq_some_iff.mp hrest
  cases heq
  exact ⟨cached, hlookup, by simp [hview], rfl⟩

theorem inputPlacement_eq_some {node : TreeNode} {placed : SurfaceInputPlacement}
    (h : s.inputPlacement node = some placed) :
    ∃ cached, s.buffers.lookup node.objectId = some cached ∧ cached.view.isSome = true ∧
      placed.layer = cached.layer := by
  obtain ⟨cached, hlookup, hrest⟩ := Option.bind_eq_some_iff.mp h
  obtain ⟨view, hview, heq⟩ := Option.bind_eq_some_iff.mp hrest
  cases heq
  exact ⟨cached, hlookup, by simp [hview], rfl⟩

theorem aboveRoot_subset (s : SurfaceTreeState) (rootId : ObjectId) :
    s.aboveRoot rootId ⊆ s.nodes := by
  unfold aboveRoot
  cases s.rootIndex rootId with
  | none => exact List.nil_subset _
  | some index => exact List.drop_subset _ _

theorem fromRoot_subset (s : SurfaceTreeState) (rootId : ObjectId) :
    s.fromRoot rootId ⊆ s.nodes := by
  unfold fromRoot
  cases s.rootIndex rootId with
  | none => exact List.nil_subset _
  | some index => exact List.drop_subset _ _

/-- The surface of an overlay is visible and has a view. -/
theorem overlay_of_mem (h : placed ∈ (s.snapshot rootId contentUpdates feedback).1.overlays) :
    ∃ node ∈ s.nodes, s.protocolVisible node = true ∧
      ∃ cached, s.buffers.lookup node.objectId = some cached ∧ cached.view.isSome = true ∧
        placed.layer = cached.layer := by
  obtain ⟨node, hnode, hplaced⟩ := List.mem_filterMap.mp h
  obtain ⟨hmem, hvisible⟩ := List.mem_filter.mp hnode
  exact ⟨node, s.aboveRoot_subset rootId hmem, hvisible, placement_eq_some hplaced⟩

theorem input_of_mem {placed : SurfaceInputPlacement}
    (h : placed ∈ (s.snapshot rootId contentUpdates feedback).1.inputs) :
    ∃ node ∈ s.nodes, s.protocolVisible node = true ∧
      ∃ cached, s.buffers.lookup node.objectId = some cached ∧ cached.view.isSome = true ∧
        placed.layer = cached.layer := by
  obtain ⟨node, hnode, hplaced⟩ := List.mem_filterMap.mp h
  obtain ⟨hmem, hvisible⟩ := List.mem_filter.mp hnode
  exact ⟨node, s.fromRoot_subset rootId hmem, hvisible, inputPlacement_eq_some hplaced⟩

/-- The overlays are stacked as the walk met their surfaces. -/
theorem overlays_sublist (s : SurfaceTreeState) (rootId : ObjectId)
    (contentUpdates : Dict ObjectId PendingSurfaceBufferContent)
    (feedback : ObjectId → List FeedbackCallback) :
    ((s.snapshot rootId contentUpdates feedback).1.overlays.map SurfaceLayerPlacement.layer).Sublist
      ((s.aboveRoot rootId).filterMap fun node => s.layerOf node.objectId) := by
  have hlayers : ∀ nodes : List TreeNode,
      ((nodes.filterMap fun node => s.placement node.objectId node.position).map
        SurfaceLayerPlacement.layer).Sublist
        (nodes.filterMap fun node => s.layerOf node.objectId) := by
    intro nodes
    induction nodes with
    | nil => exact List.Sublist.slnil
    | cons node nodes ih =>
        cases hplaced : s.placement node.objectId node.position with
        | none =>
            simp only [List.filterMap_cons, hplaced]
            exact ih.trans ((List.sublist_cons_self node nodes).filterMap _)
        | some placed =>
            obtain ⟨cached, hlookup, -, hlayer⟩ := placement_eq_some hplaced
            have hlayerOf : s.layerOf node.objectId = some placed.layer := by
              simp [layerOf, hlookup, hlayer]
            simp only [List.filterMap_cons, hplaced, hlayerOf, List.map_cons]
            exact ih.cons_cons placed.layer
  exact (hlayers _).trans (List.filter_sublist.filterMap _)

end

end SurfaceTreeState

end SurfaceTree
