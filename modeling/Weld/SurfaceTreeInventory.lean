/-
**Every snapshot obeys the inventory rule.**

A history is a run of updates and removals on one tree, with what a reader of its snapshots shows
for every layer.  A layer that is listed as retained was listed by the snapshot before, and the
reader shows what was last imported for its surface; a layer listed with content has exactly the
buffer that this update imported.  What is placed is listed, and overlays and inputs belong to
surfaces whose ancestors all have a buffer attached.  Every buffer and every point that the clients
attached is disposed of once.

The release store is shared with others, so every update finds it as they left it.

Main definitions: `History`, `Advance`, `Consistent`, `Inventory`.

Main results:

* `advance_outcome` — **every call advances the tree**;
* `snapshots_obey_the_inventory_rule` — **the rule, in every run**.
-/

import Weld.SurfaceTreeSnapshots
import Weld.Transition

namespace SurfaceTree

open Client Transition SurfaceTreeState

/-! ### Histories -/

/-- A call, and what it finds. -/
inductive Event
  | update (root : ClientTree) (rootGeometry : Option Rectangle) (store : DmabufReleaseStore)
      (feedback : ObjectId → List FeedbackCallback)
  | removeSurface (rootId removedId : ObjectId) (feedback : ObjectId → List FeedbackCallback)

namespace Event

/-- The surfaces the call walks over, with what they were given. -/
def surfaces : Event → List Surface
  | update root _ _ _ => root.tree.surfaces
  | removeSurface _ _ _ => []

def rootId : Event → ObjectId
  | update root _ _ _ => root.tree.root.objectId
  | removeSurface rootId _ _ => rootId

end Event

/-- What a reader shows for every layer after it read a snapshot. -/
def PendingSurfaceTreeSnapshot.display (snapshot : PendingSurfaceTreeSnapshot)
    (shown : SurfaceLayerId → Option PendingSurfaceBufferContent) (layer : SurfaceLayerId) :
    Option PendingSurfaceBufferContent :=
  (snapshot.buffers.find? fun entry => entry.layer = layer).bind fun entry =>
    if entry.content = .retained then shown layer else some entry.content

/-- Which surfaces have a buffer attached after the surfaces of a walk were assigned something. -/
def attachAll (attached : ObjectId → Bool) (surfaces : List Surface) : ObjectId → Bool :=
  surfaces.foldl (fun attached surface =>
      Function.update attached surface.objectId
        (attachedAfter surface.assignment (attached surface.objectId)))
    attached

/-- A tree, its last snapshot, and what followed from all of them. -/
structure History where
  tree : SurfaceTreeState := {}
  snapshot : PendingSurfaceTreeSnapshot := {}
  effects : List Effect := []
  shown : SurfaceLayerId → Option PendingSurfaceBufferContent := fun _ => none
  attached : ObjectId → Bool := fun _ => false

namespace History

variable (smithay : Smithay)

def outcome (h : History) : Event → Outcome
  | .update root rootGeometry store feedback =>
      (h.tree.update smithay root.tree rootGeometry { store } feedback).1
  | .removeSurface rootId removedId feedback =>
      h.tree.removeSurface rootId removedId {} feedback

def step (h : History) (event : Event) : History :=
  let outcome := h.outcome smithay event
  { tree := outcome.tree
    snapshot := outcome.snapshot
    effects := h.effects ++ outcome.releases.effects
    shown := outcome.snapshot.display h.shown
    attached := attachAll h.attached event.surfaces }

/-- A tree that was just created. -/
def start (shmOnly : Bool) : History := { tree := { shmOnly } }

end History

/-! ### The rule -/

/-- What one call of a run owes to its readers and to the clients. -/
structure Inventory (smithay : Smithay) (h : History) (event : Event) : Prop where
  distinct : (h.outcome smithay event).snapshot.layers.Nodup
  /-- Every entry shows what was last imported for its surface. -/
  entries : ∀ entry ∈ (h.outcome smithay event).snapshot.buffers, ∃ id result,
    (h.outcome smithay event).tree.layerOf id = some entry.layer ∧
      lastImport (h.step smithay event).effects id = some result ∧
      entry.width = result.metadata.width ∧ entry.height = result.metadata.height ∧
      entry.isOpaque = result.isOpaque ∧
      (h.step smithay event).shown entry.layer = some result.content ∧
      (entry.content = .retained →
        entry.layer ∈ h.snapshot.layers ∧ h.shown entry.layer = some result.content) ∧
      (entry.content ≠ .retained → entry.content = result.content ∧
        ∃ surface ∈ event.surfaces, surface.objectId = id ∧
          ∃ buffer, surface.assignment = some (.newBuffer buffer) ∧
            .imported id buffer result ∈ (h.outcome smithay event).releases.effects ∧
            Carries smithay (h.outcome smithay event).releases.effects buffer result)
  root : ∀ placed, (h.outcome smithay event).snapshot.root = some placed →
    placed.layer ∈ (h.outcome smithay event).snapshot.layers
  overlays : ∀ placed ∈ (h.outcome smithay event).snapshot.overlays,
    placed.layer ∈ (h.outcome smithay event).snapshot.layers ∧
      ∃ id, (h.outcome smithay event).tree.layerOf id = some placed.layer ∧
        Lineage (h.outcome smithay event).tree.nodes ((h.step smithay event).attached · = true) id
  inputs : ∀ placed ∈ (h.outcome smithay event).snapshot.inputs,
    placed.layer ∈ (h.outcome smithay event).snapshot.layers ∧
      ∃ id, (h.outcome smithay event).tree.layerOf id = some placed.layer ∧
        Lineage (h.outcome smithay event).tree.nodes ((h.step smithay event).attached · = true) id
  /-- The nodes are those of the walk, so overlays are stacked as the tree is. -/
  stacking : ((h.outcome smithay event).snapshot.overlays.map SurfaceLayerPlacement.layer).Sublist
    (((h.outcome smithay event).tree.aboveRoot event.rootId).filterMap fun node =>
      (h.outcome smithay event).tree.layerOf node.objectId)
  walked : match event with
    | .update root _ _ _ =>
        (h.outcome smithay event).tree.nodes = (root.tree.visits {}).map Visit.node ∧
          ∀ node ∈ (h.outcome smithay event).tree.nodes,
            node.parent = none → node.objectId = root.tree.root.objectId
    | .removeSurface _ _ _ => (h.outcome smithay event).tree.nodes.Sublist h.tree.nodes
  buffers : (h.outcome smithay event).releases.effects.filterMap Effect.buffer? =
    event.surfaces.filterMap fun surface => attachedBuffer surface.assignment
  points : (h.outcome smithay event).releases.effects.filterMap Effect.point? =
    event.surfaces.filterMap Surface.releasePoint

/-! ### What both calls have in common -/

/-- What a surface was assigned on a walk: nothing, if it was not met. -/
def Assigned (surfaces : List Surface) (id : ObjectId) (assignment : Option BufferAssignment) :
    Prop :=
  (∃ surface ∈ surfaces, surface.objectId = id ∧ surface.assignment = assignment) ∨
    (id ∉ surfaces.map Surface.objectId ∧ assignment = none)

/-- The step from a tree to the next, and the contents of the snapshot made of it. -/
structure Advance (smithay : Smithay) (h : History) (surfaces : List Surface)
    (tree : SurfaceTreeState) (contentUpdates : Dict ObjectId PendingSurfaceBufferContent)
    (delta : List Effect) : Prop where
  planted : Planted tree.nodes
  known : ∀ {id cached}, tree.buffers.lookup id = some cached →
    id ∈ tree.nodes.map TreeNode.objectId
  settled : ∀ {id cached}, tree.buffers.lookup id = some cached →
    ∃ assignment, Assigned surfaces id assignment ∧
      Settled smithay (h.tree.buffers.lookup id) id assignment delta (some cached)
        (contentUpdates.lookup id)
  numbered : Numbered (h.effects ++ delta) tree.nextLayerId

/-- What holds between two calls. -/
structure Consistent (h : History) : Prop where
  planted : Planted h.tree.nodes
  known : ∀ {id cached}, h.tree.buffers.lookup id = some cached →
    id ∈ h.tree.nodes.map TreeNode.objectId
  measured : ∀ {id cached}, h.tree.buffers.lookup id = some cached → cached.Measured
  numbered : Numbered h.effects h.tree.nextLayerId
  named : ∀ {id cached}, h.tree.buffers.lookup id = some cached →
    .allocated id cached.layer ∈ h.effects
  /-- What has something to show is listed, and shows what was last imported. -/
  showing : ∀ {id cached width height isOpaque}, h.tree.buffers.lookup id = some cached →
    cached.Shows width height isOpaque → cached.layer ∈ h.snapshot.layers ∧
      ∃ result, lastImport h.effects id = some result ∧
        h.shown cached.layer = some result.content ∧ width = result.metadata.width ∧
        height = result.metadata.height ∧ isOpaque = result.isOpaque
  attached : ∀ {id cached}, h.tree.buffers.lookup id = some cached →
    cached.clientMapped = true → h.attached id = true

theorem consistent_start (shmOnly : Bool) : Consistent (.start shmOnly) where
  planted := ⟨List.nodup_nil, fun _ hnode => absurd hnode List.not_mem_nil⟩
  known := by rintro id cached ⟨⟩
  measured := by rintro id cached ⟨⟩
  numbered := ⟨fun h => absurd h List.not_mem_nil, fun h => absurd h List.not_mem_nil⟩
  named := by rintro id cached ⟨⟩
  showing := by rintro id cached width height isOpaque ⟨⟩
  attached := by rintro id cached ⟨⟩

/-! ### Every call advances the tree -/

section

variable {smithay : Smithay} {h : History}

theorem Settled.withInput {old : Option CachedSurfaceBuffer} {id : ObjectId}
    {assignment : Option BufferAssignment} {effects : List Effect} {cached : CachedSurfaceBuffer}
    {content : Option PendingSurfaceBufferContent}
    (h : Settled smithay old id assignment effects (some cached) content)
    (input : SurfaceInputRegion) :
    Settled smithay old id assignment effects (some { cached with input }) content := by
  cases h with
  | imported hassigned hmem hcarries hlast hlayer hmeasured hshows =>
      exact .imported hassigned hmem hcarries hlast hlayer hmeasured hshows
  | kept hlast hlayer hmeasured hmapped hshows =>
      exact .kept hlast hlayer hmeasured hmapped hshows

/-- Refreshing where surfaces take input changes nothing else. -/
theorem SurfaceTreeState.refreshInputRects_spec (smithay : Smithay) (s : SurfaceTreeState)
    (rootId : ObjectId) :
    (s.refreshInputRects smithay rootId).nodes = s.nodes ∧
      (s.refreshInputRects smithay rootId).nextLayerId = s.nextLayerId ∧
      ∀ id cached', (s.refreshInputRects smithay rootId).buffers.lookup id = some cached' →
        ∃ cached input, s.buffers.lookup id = some cached ∧ cached' = { cached with input } := by
  have hall : ∀ (nodes : List TreeNode) (t : SurfaceTreeState),
      let t' := nodes.foldl
        (fun s node => s.modify node.objectId fun cached =>
          { cached with
            input := cached.input.refresh smithay (s.inputBounds rootId node.objectId cached) }) t
      t'.nodes = t.nodes ∧ t'.nextLayerId = t.nextLayerId ∧
        ∀ id cached', t'.buffers.lookup id = some cached' →
          ∃ cached input, t.buffers.lookup id = some cached ∧ cached' = { cached with input } := by
    intro nodes
    induction nodes with
    | nil => exact fun t => ⟨rfl, rfl, fun id cached' h => ⟨cached', cached'.input, h, rfl⟩⟩
    | cons node nodes ih =>
        intro t
        obtain ⟨hnodes, hnext, hbuffers⟩ := ih (t.modify node.objectId fun cached =>
          { cached with
            input := cached.input.refresh smithay (t.inputBounds rootId node.objectId cached) })
        refine ⟨hnodes, hnext, ?_⟩
        intro id cached' hlookup
        obtain ⟨cached, input, hcached, rfl⟩ := hbuffers id cached' hlookup
        simp only [modify, AList.lookup_modify] at hcached
        split_ifs at hcached
        · obtain ⟨before, hbefore, rfl⟩ := Option.map_eq_some_iff.mp hcached
          exact ⟨before, input, hbefore, rfl⟩
        · exact ⟨cached, input, hcached, rfl⟩
  exact hall s.nodes s

theorem Consistent.advance_update (hc : Consistent h) (smithay : Smithay) (root : ClientTree)
    (rootGeometry : Option Rectangle) (store : DmabufReleaseStore)
    (feedback : ObjectId → List FeedbackCallback) :
    let outcome := (h.tree.update smithay root.tree rootGeometry { store } feedback).1
    let contentUpdates :=
      (h.tree.commitAll smithay (root.tree.visits {}) rootGeometry { store }).contentUpdates
    Advance smithay h root.tree.surfaces outcome.tree contentUpdates outcome.releases.effects ∧
      outcome.tree.nodes = (root.tree.visits {}).map Visit.node ∧
      outcome.releases.effects.filterMap Effect.buffer? =
        root.tree.surfaces.filterMap (fun surface => attachedBuffer surface.assignment) ∧
      outcome.releases.effects.filterMap Effect.point? =
        root.tree.surfaces.filterMap Surface.releasePoint := by
  intro outcome contentUpdates
  let cs := (root.tree.visits {}).map h.tree.committedNode
  let begun : Turn :=
    { tree := h.tree.begin (root.tree.visits {}) rootGeometry, releases := { store } }
  have hids : (cs.map fun c => c.node.objectId) = root.tree.surfaces.map Surface.objectId := by
    simp [cs, Tree.surfaces, Function.comp_def]
  obtain ⟨delta, hwalked⟩ := Turn.walk_walked smithay cs begun (by rw [hids]; exact root.distinct)
  have hdelta : outcome.releases.effects = delta := hwalked.effects
  have hnodes : (cs.foldl (Turn.commit smithay) begun).tree.nodes =
      (root.tree.visits {}).map Visit.node := by
    rw [hwalked.nodes]
    simp [begun, begin, cs, Function.comp_def]
  obtain ⟨hrefreshed, hnext, hinput⟩ := refreshInputRects_spec smithay
    (cs.foldl (Turn.commit smithay) begun).tree root.tree.root.objectId
  have houtcome : outcome.tree =
      (cs.foldl (Turn.commit smithay) begun).tree.refreshInputRects smithay
        root.tree.root.objectId := rfl
  have hvisited : ∀ c ∈ cs, begun.tree.buffers.lookup c.node.objectId =
      h.tree.buffers.lookup c.node.objectId := by
    intro c hc
    obtain ⟨visit, hvisit, rfl⟩ := List.mem_map.mp hc
    have hin : visit.surface.objectId ∈
        (root.tree.visits {}).map fun visit => visit.surface.objectId :=
      List.mem_map.mpr ⟨visit, hvisit, rfl⟩
    simp only [begun, begin, committedNode_node, Visit.node_objectId, AList.lookup_retain]
    cases h.tree.buffers.lookup visit.surface.objectId with
    | none => rfl
    | some cached => simp [hin]
  -- Only surfaces of the walk are remembered.
  have hknown : ∀ {id cached}, outcome.tree.buffers.lookup id = some cached →
      ∃ visit ∈ root.tree.visits {}, visit.surface.objectId = id := by
    intro id cached' hlookup
    obtain ⟨cached, _, hcached, -⟩ := hinput id cached' hlookup
    by_contra hout
    have hnot : id ∉ cs.map fun c => c.node.objectId := by
      rw [hids, Tree.surfaces, List.map_map]
      intro hin
      obtain ⟨visit, hvisit, hid⟩ := List.mem_map.mp hin
      exact hout ⟨visit, hvisit, hid⟩
    rw [(hwalked.elsewhere id hnot).1] at hcached
    simp only [begun, begin, AList.lookup_retain] at hcached
    obtain ⟨-, hin⟩ := Option.filter_eq_some_iff.mp hcached
    obtain ⟨visit, hvisit, hid⟩ := List.mem_map.mp (of_decide_eq_true hin)
    exact hout ⟨visit, hvisit, hid⟩
  refine ⟨⟨?_, ?_, ?_, ?_⟩, ?_, ?_, ?_⟩
  · rw [houtcome, hrefreshed, hnodes]
    exact planted_visits root
  · intro id cached hlookup
    obtain ⟨visit, hvisit, rfl⟩ := hknown hlookup
    rw [houtcome, hrefreshed, hnodes, List.map_map]
    exact List.mem_map.mpr ⟨visit, hvisit, rfl⟩
  · intro id cached' hlookup
    obtain ⟨visit, hvisit, rfl⟩ := hknown hlookup
    obtain ⟨cached, input, hcached, rfl⟩ := hinput _ cached' hlookup
    have hmem : h.tree.committedNode visit ∈ cs := List.mem_map_of_mem hvisit
    have hmeasured : ∀ before,
        begun.tree.buffers.lookup visit.surface.objectId = some before → before.Measured := by
      intro before hbefore
      have hstart := hvisited _ hmem
      simp only [committedNode_node, Visit.node_objectId] at hstart
      rw [hstart] at hbefore
      exact hc.measured hbefore
    have hsettled := hwalked.settled _ hmem hmeasured rfl
    rw [hvisited _ hmem] at hsettled
    simp only [committedNode_node, Visit.node_objectId] at hsettled
    rw [hcached, ← hdelta] at hsettled
    exact ⟨visit.surface.assignment,
      .inl ⟨visit.surface, List.mem_map_of_mem hvisit, rfl, rfl⟩, hsettled.withInput input⟩
  · rw [houtcome, hnext, hdelta]
    exact hwalked.numbered h.effects hc.numbered
  · rw [houtcome, hrefreshed, hnodes]
  · rw [hdelta, hwalked.buffers]
    simp [cs, Tree.surfaces, List.filterMap_map, Function.comp_def, committedNode]
  · rw [hdelta, hwalked.points]
    simp [cs, Tree.surfaces, List.filterMap_map, Function.comp_def, committedNode]

/-- Removing keeps what is left of the tree. -/
theorem Consistent.advance_remove (hc : Consistent h) (smithay : Smithay)
    (rootId removedId : ObjectId) (feedback : ObjectId → List FeedbackCallback) :
    let outcome := h.tree.removeSurface rootId removedId {} feedback
    Advance smithay h [] outcome.tree ∅ [] ∧ outcome.tree.nodes.Sublist h.tree.nodes := by
  intro outcome
  have hkept : ∀ {id cached}, outcome.tree.buffers.lookup id = some cached →
      h.tree.buffers.lookup id = some cached ∧
        id ∉ closeRemoved h.tree.nodes h.tree.nodes.length [removedId] := by
    intro id cached hlookup
    simp only [outcome, removeSurface, AList.lookup_retain] at hlookup
    obtain ⟨hbefore, hout⟩ := Option.filter_eq_some_iff.mp hlookup
    exact ⟨hbefore, of_decide_eq_true hout⟩
  refine ⟨⟨?_, ?_, ?_, ?_⟩, List.filter_sublist⟩
  · exact hc.planted.remove (closed_removed _ _)
  · intro id cached hlookup
    obtain ⟨hbefore, hout⟩ := hkept hlookup
    obtain ⟨node, hnode, rfl⟩ := List.mem_map.mp (hc.known hbefore)
    exact List.mem_map.mpr ⟨node, List.mem_filter.mpr ⟨hnode, decide_eq_true hout⟩, rfl⟩
  · intro id cached hlookup
    obtain ⟨hbefore, -⟩ := hkept hlookup
    refine ⟨none, .inr ⟨List.not_mem_nil, rfl⟩, ?_⟩
    rw [hbefore]
    exact .kept rfl rfl (hc.measured hbefore) (fun hmapped => hmapped)
      fun width height isOpaque hshows => ⟨cached, rfl, hshows⟩
  · rw [List.append_nil]
    exact hc.numbered

end

/-! ### What follows from an advance -/

theorem attachAll_eq {id : ObjectId} :
    ∀ (surfaces : List Surface) (attached : ObjectId → Bool)
      (assignment : Option BufferAssignment),
      (surfaces.map Surface.objectId).Nodup → Assigned surfaces id assignment →
      attachAll attached surfaces id = attachedAfter assignment (attached id) := by
  intro surfaces
  induction surfaces with
  | nil =>
      rintro attached assignment - (⟨surface, hmem, -⟩ | ⟨-, rfl⟩)
      · exact absurd hmem List.not_mem_nil
      · rfl
  | cons surface surfaces ih =>
      intro attached assignment hnodup hassigned
      obtain ⟨hout, hrest⟩ := List.nodup_cons.mp hnodup
      rw [attachAll, List.foldl_cons]
      obtain ⟨other, hmem, rfl, rfl⟩ | ⟨hnone, rfl⟩ := hassigned
      · obtain heq | hmem := List.mem_cons.mp hmem
        · subst heq
          exact (ih _ none hrest (.inr ⟨hout, rfl⟩)).trans (Function.update_self ..)
        · have hne : other.objectId ≠ surface.objectId := by
            intro heq
            exact hout (List.mem_map.mpr ⟨other, hmem, heq⟩)
          refine (ih _ _ hrest (.inl ⟨other, hmem, rfl, rfl⟩)).trans ?_
          rw [Function.update_of_ne hne]
      · simp only [List.map_cons, List.mem_cons, not_or] at hnone
        refine (ih _ _ hrest (.inr ⟨hnone.2, rfl⟩)).trans ?_
        rw [Function.update_of_ne hnone.1]

/-- What a reader shows for a layer that is listed. -/
theorem display_of_mem {snapshot : PendingSurfaceTreeSnapshot}
    (hnodup : snapshot.layers.Nodup) {entry : PendingSurfaceBufferUpdate}
    (hmem : entry ∈ snapshot.buffers)
    (shown : SurfaceLayerId → Option PendingSurfaceBufferContent) :
    snapshot.display shown entry.layer =
      if entry.content = .retained then shown entry.layer else some entry.content := by
  rw [PendingSurfaceTreeSnapshot.display]
  cases hfind : snapshot.buffers.find? fun other => other.layer = entry.layer with
  | none =>
      have hnone := List.find?_eq_none.mp hfind entry hmem
      simp at hnone
  | some found =>
      have hlayer : found.layer = entry.layer := by simpa using List.find?_some hfind
      obtain rfl := List.inj_on_of_nodup_map hnodup (List.mem_of_find?_eq_some hfind) hmem hlayer
      rfl

section

variable {smithay : Smithay} {h : History} {surfaces : List Surface} {tree : SurfaceTreeState}
  {contentUpdates : Dict ObjectId PendingSurfaceBufferContent} {delta : List Effect}
  {id rootId : ObjectId} {cached : CachedSurfaceBuffer}
  {feedback : ObjectId → List FeedbackCallback}
  {old : Option CachedSurfaceBuffer} {assignment : Option BufferAssignment}
  {content : Option PendingSurfaceBufferContent}

theorem Settled.measured
    (hs : Settled smithay old id assignment delta (some cached) content) : cached.Measured := by
  cases hs with
  | imported _ _ _ _ _ hmeasured | kept _ _ hmeasured => exact hmeasured

theorem Settled.layered (hs : Settled smithay old id assignment delta (some cached) content) :
    Layered old delta id cached.layer := by
  cases hs with
  | imported _ _ _ _ hlayer | kept _ hlayer => exact hlayer

section

variable (ha : Advance smithay h surfaces tree contentUpdates delta) (hc : Consistent h)
include ha hc

theorem Advance.named (hlookup : tree.buffers.lookup id = some cached) :
    .allocated id cached.layer ∈ h.effects ++ delta := by
  obtain ⟨assignment, -, hsettled⟩ := ha.settled hlookup
  have hlayered := hsettled.layered
  cases hbefore : h.tree.buffers.lookup id with
  | none =>
      rw [hbefore] at hlayered
      exact List.mem_append_right _ hlayered
  | some before =>
      rw [hbefore] at hlayered
      have hsame : before.layer = cached.layer := hlayered
      rw [← hsame]
      exact List.mem_append_left _ (hc.named hbefore)

theorem Advance.sound : tree.Sound where
  planted := ha.planted
  known := ha.known
  measured := by
    intro id cached hlookup
    obtain ⟨assignment, -, hsettled⟩ := ha.settled hlookup
    exact hsettled.measured
  separate := by
    intro a b cached cached' hlookup hlookup' hlayer
    have hname := ha.named hc hlookup
    rw [hlayer] at hname
    exact ha.numbered.unique hname (ha.named hc hlookup')

/-- **An entry of the snapshot**: what was last imported for its surface, new or shown already. -/
theorem Advance.entry {entry : PendingSurfaceBufferUpdate}
    (hentry : entry ∈ (tree.snapshot rootId contentUpdates feedback).1.buffers) :
    ∃ id result, tree.layerOf id = some entry.layer ∧
      lastImport (h.effects ++ delta) id = some result ∧
      entry.width = result.metadata.width ∧ entry.height = result.metadata.height ∧
      entry.isOpaque = result.isOpaque ∧
      (tree.snapshot rootId contentUpdates feedback).1.display h.shown entry.layer =
        some result.content ∧
      (entry.content = .retained →
        entry.layer ∈ h.snapshot.layers ∧ h.shown entry.layer = some result.content) ∧
      (entry.content ≠ .retained → entry.content = result.content ∧
        ∃ surface ∈ surfaces, surface.objectId = id ∧
          ∃ buffer, surface.assignment = some (.newBuffer buffer) ∧
            .imported id buffer result ∈ delta ∧ Carries smithay delta buffer result) := by
  have hdisplay := display_of_mem ((ha.sound hc).nodup_layers) hentry h.shown
  obtain ⟨node, -, cached, metadata, hlookup, hmetadata, -, rfl⟩ :=
    (mem_snapshot_buffers ha.planted.distinct).mp hentry
  rw [hdisplay]
  have hlayerOf : tree.layerOf node.objectId = some cached.layer := by
    simp [layerOf, hlookup]
  obtain ⟨assignment, hassigned, hsettled⟩ := ha.settled hlookup
  generalize hcontent : contentUpdates.lookup node.objectId = content at hsettled
  cases hsettled with
  | @imported _ buffer result hnew hmem hcarries hlast hlayer hmeasured hshows =>
      obtain ⟨_, hsame, hwidth, hheight, hopaque⟩ := hshows
      rw [hmetadata] at hsame
      cases hsame
      have hne := hcarries.content_ne_retained
      refine ⟨node.objectId, result, hlayerOf, ?_, hwidth, hheight, hopaque, ?_, ?_, ?_⟩
      · rw [lastImport_append, hlast, Option.some_or]
      · exact if_neg hne
      · exact fun hretained => absurd hretained hne
      · intro _
        obtain ⟨surface, hsurface, hid, hsame⟩ | ⟨-, rfl⟩ := hassigned
        · exact ⟨rfl, surface, hsurface, hid, buffer, hsame.trans hnew, hmem, hcarries⟩
        · cases hnew
  | kept hlast hlayer hmeasured hmapped hshows =>
      obtain ⟨before, hbefore, hshown⟩ := hshows _ _ _ ⟨metadata, hmetadata, rfl, rfl, rfl⟩
      obtain ⟨hlisted, result, himport, hshowing, hwidth, hheight, hopaque⟩ :=
        hc.showing hbefore hshown
      rw [hbefore] at hlayer
      have hsame : before.layer = cached.layer := hlayer
      rw [hsame] at hlisted hshowing
      have hretained : (cached.entry metadata none).content = .retained := rfl
      refine ⟨node.objectId, result, hlayerOf, ?_, hwidth, hheight, hopaque, ?_, ?_, ?_⟩
      · rw [lastImport_append, hlast, Option.none_or, himport]
      · rw [if_pos hretained]
        exact hshowing
      · exact fun _ => ⟨hlisted, hshowing⟩
      · exact fun hne => absurd hretained hne

section

variable (hnodup : (surfaces.map Surface.objectId).Nodup)
include hnodup

theorem Advance.attached (hlookup : tree.buffers.lookup id = some cached)
    (hmapped : cached.clientMapped = true) : attachAll h.attached surfaces id = true := by
  obtain ⟨assignment, hassigned, hsettled⟩ := ha.settled hlookup
  rw [attachAll_eq surfaces h.attached assignment hnodup hassigned]
  generalize contentUpdates.lookup id = content at hsettled
  cases hsettled with
  | imported hnew _ _ _ _ _ _ =>
      rw [hnew]
      rfl
  | kept _ _ _ hattached _ =>
      have hafter := hattached hmapped
      cases assignment with
      | some assigned =>
          cases assigned with
          | newBuffer buffer => rfl
          | removed => cases hafter
      | none =>
          cases hbefore : h.tree.buffers.lookup id with
          | none =>
              rw [hbefore] at hafter
              cases hafter
          | some before =>
              rw [hbefore] at hafter
              exact hc.attached hbefore hafter

/-- What is visible has only ancestors with a buffer attached. -/
theorem Advance.lineage {node : TreeNode} (hnode : node ∈ tree.nodes)
    (hvisible : tree.protocolVisible node = true) :
    Lineage tree.nodes (attachAll h.attached surfaces · = true) node.objectId := by
  refine ((protocolVisible_iff ha.planted hnode).mp hvisible).imp ?_
  intro id hmapped
  rw [clientMapped] at hmapped
  cases hlookup : tree.buffers.lookup id with
  | none =>
      rw [hlookup] at hmapped
      cases hmapped
  | some cached =>
      rw [hlookup] at hmapped
      exact ha.attached hc hnodup hlookup hmapped

/-- **An advance keeps a history consistent.** -/
theorem Advance.consistent (rootId : ObjectId) (feedback : ObjectId → List FeedbackCallback) :
    Consistent
      { tree
        snapshot := (tree.snapshot rootId contentUpdates feedback).1
        effects := h.effects ++ delta
        shown := (tree.snapshot rootId contentUpdates feedback).1.display h.shown
        attached := attachAll h.attached surfaces } where
  planted := ha.planted
  known := ha.known
  measured := (ha.sound hc).measured
  numbered := ha.numbered
  named := ha.named hc
  showing := by
    rintro id cached width height isOpaque hlookup ⟨metadata, hmetadata, rfl, rfl, rfl⟩
    have hview : cached.view.isSome = true := by
      rw [(ha.sound hc).measured hlookup, hmetadata]
      rfl
    refine ⟨(ha.sound hc).listed hlookup hview, ?_⟩
    obtain ⟨node, hnode, rfl⟩ := List.mem_map.mp (ha.known hlookup)
    have hentry : cached.entry metadata (contentUpdates.lookup node.objectId) ∈
        (tree.snapshot rootId contentUpdates feedback).1.buffers :=
      (mem_snapshot_buffers ha.planted.distinct).mpr
        ⟨node, hnode, cached, metadata, hlookup, hmetadata, hview, rfl⟩
    obtain ⟨id, result, hlayerOf, himport, hwidth, hheight, hopaque, hdisplay, -⟩ :=
      ha.entry hc hentry
    -- The entry of a layer belongs to the surface that has it.
    obtain ⟨other, hother, hlayer⟩ := Option.map_eq_some_iff.mp hlayerOf
    obtain rfl := (ha.sound hc).separate hother hlookup hlayer
    exact ⟨result, himport, hdisplay, hwidth, hheight, hopaque⟩
  attached := ha.attached hc hnodup

end

end

end

/-! ### The rule in every run -/

section

variable {h : History}

theorem Event.distinct_surfaces (event : Event) : (event.surfaces.map Surface.objectId).Nodup := by
  cases event with
  | update root _ _ _ => exact root.distinct
  | removeSurface _ _ _ => exact List.nodup_nil

/-- **Every call advances the tree.** -/
theorem Consistent.advance_outcome (hc : Consistent h) (smithay : Smithay) (event : Event) :
    ∃ contentUpdates feedback,
      (h.outcome smithay event).snapshot =
        ((h.outcome smithay event).tree.snapshot event.rootId contentUpdates feedback).1 ∧
      Advance smithay h event.surfaces (h.outcome smithay event).tree contentUpdates
        (h.outcome smithay event).releases.effects := by
  cases event with
  | update root rootGeometry store feedback =>
      exact ⟨_, feedback, rfl, (hc.advance_update smithay root rootGeometry store feedback).1⟩
  | removeSurface rootId removedId feedback =>
      exact ⟨∅, feedback, rfl, (hc.advance_remove smithay rootId removedId feedback).1⟩

theorem Consistent.step (hc : Consistent h) (smithay : Smithay) (event : Event) :
    Consistent (h.step smithay event) := by
  obtain ⟨contentUpdates, feedback, hsnapshot, ha⟩ := hc.advance_outcome smithay event
  rw [History.step, hsnapshot]
  exact ha.consistent hc event.distinct_surfaces event.rootId feedback

/-- **The inventory rule for one call.** -/
theorem Consistent.inventory (hc : Consistent h) (smithay : Smithay) (event : Event) :
    Inventory smithay h event := by
  obtain ⟨contentUpdates, feedback, hsnapshot, ha⟩ := hc.advance_outcome smithay event
  have hsound := ha.sound hc
  have hlayerOf : ∀ {id cached layer}, layer = cached.layer →
      (h.outcome smithay event).tree.buffers.lookup id = some cached →
      (h.outcome smithay event).tree.layerOf id = some layer := by
    rintro id cached _ rfl hlookup
    simp [layerOf, hlookup]
  constructor
  · rw [hsnapshot]
    exact hsound.nodup_layers
  · intro entry hentry
    rw [hsnapshot] at hentry
    have hlisted := ha.entry hc hentry
    rw [← hsnapshot] at hlisted
    exact hlisted
  · intro placed hplaced
    rw [hsnapshot] at hplaced ⊢
    obtain ⟨cached, hlookup, hview, hlayer⟩ := placement_eq_some hplaced
    rw [hlayer]
    exact hsound.listed hlookup hview
  · intro placed hplaced
    rw [hsnapshot] at hplaced ⊢
    obtain ⟨node, hnode, hvisible, cached, hlookup, hview, hlayer⟩ := overlay_of_mem hplaced
    refine ⟨?_, node.objectId, hlayerOf hlayer hlookup,
      ha.lineage hc event.distinct_surfaces hnode hvisible⟩
    rw [hlayer]
    exact hsound.listed hlookup hview
  · intro placed hplaced
    rw [hsnapshot] at hplaced ⊢
    obtain ⟨node, hnode, hvisible, cached, hlookup, hview, hlayer⟩ := input_of_mem hplaced
    refine ⟨?_, node.objectId, hlayerOf hlayer hlookup,
      ha.lineage hc event.distinct_surfaces hnode hvisible⟩
    rw [hlayer]
    exact hsound.listed hlookup hview
  · rw [hsnapshot]
    exact overlays_sublist _ _ _ _
  · cases event with
    | update root rootGeometry store feedback =>
        obtain ⟨-, hnodes, -, -⟩ := hc.advance_update smithay root rootGeometry store feedback
        refine ⟨hnodes, ?_⟩
        intro node hnode hparent
        rw [History.outcome, hnodes] at hnode
        obtain ⟨visit, hvisit, rfl⟩ := List.mem_map.mp hnode
        rw [Visit.node_objectId, root.tree.eq_root_of_mem_visits hvisit hparent]
    | removeSurface rootId removedId feedback =>
        exact (hc.advance_remove smithay rootId removedId feedback).2
  · cases event with
    | update root rootGeometry store feedback =>
        exact (hc.advance_update smithay root rootGeometry store feedback).2.2.1
    | removeSurface rootId removedId feedback => rfl
  · cases event with
    | update root rootGeometry store feedback =>
        exact (hc.advance_update smithay root rootGeometry store feedback).2.2.2
    | removeSurface rootId removedId feedback => rfl

theorem History.effects_subset (smithay : Smithay) (h : History) (events : List Event) :
    h.effects ⊆ (exec (History.step smithay) h events).effects := by
  have hstep : ∀ (h' : History) (event : Event), h.effects ⊆ h'.effects →
      h.effects ⊆ (h'.step smithay event).effects := by
    intro h' event hsub
    exact List.subset_append_of_subset_left _ hsub
  exact exec_invariant hstep (List.Subset.refl _) events

end

/-- A tree nobody shows is released like one that is shown. -/
theorem releaseUntracked_gives (surfaces : List Surface) (releases : Releases) :
    ∃ delta, Gives releases
      (surfaces.foldl (fun releases surface =>
          releaseWithoutSampling surface.assignment surface.releasePoint releases) releases)
      delta (surfaces.filterMap fun surface => attachedBuffer surface.assignment)
      (surfaces.filterMap Surface.releasePoint) := by
  induction surfaces generalizing releases with
  | nil => exact ⟨[], Gives.refl releases⟩
  | cons surface surfaces ih =>
      obtain ⟨first, hfirst⟩ :=
        releaseWithoutSampling_gives surface.assignment surface.releasePoint releases
      obtain ⟨rest, hrest⟩ := ih
        (releaseWithoutSampling surface.assignment surface.releasePoint releases)
      have hboth := hfirst.trans hrest
      refine ⟨first ++ rest, hboth.effects, ?_, ?_, hboth.quiet⟩
      · rw [hboth.buffers]
        cases hattached : attachedBuffer surface.assignment <;> simp [hattached]
      · rw [hboth.points]
        cases hpoint : surface.releasePoint <;> simp [hpoint]

/-- A surface with nothing left to take. -/
def Surface.Drained (surface : Surface) : Prop :=
  surface.assignment = none ∧ surface.releasePoint = none

theorem drained_of_mem_surfaces {tree : Tree} {surface : Surface}
    (h : surface ∈ tree.drain.surfaces) : surface.Drained := by
  rw [Tree.surfaces_drain] at h
  obtain ⟨before, -, rfl⟩ := List.mem_map.mp h
  exact ⟨rfl, rfl⟩

end SurfaceTree
