/-
**Committing the surfaces of a tree.**

What a commit means for its surface is one of three things: it has new content, or it keeps what it
had, or it has no layer at all.  The surfaces of a walk are distinct, so what each of them is left
with at the end of the walk is what its own commit left it with.

Main definitions: `Numbered`, `Settled`, `Committed`, `Walked`.

Main results:

* `Turn.applyCommit_committed` — **one commit**;
* `Turn.walk_walked` — **all commits of a walk**.
-/

import Weld.BufferImports
import Weld.SurfaceTreeWalk

namespace SurfaceTree

open Client

/-! ### Layers -/

/-- No layer was given to two surfaces, and the next one was given to none. -/
structure Numbered (effects : List Effect) (next : Option ℕ) : Prop where
  unique : ∀ {a b : ObjectId} {layer : SurfaceLayerId}, .allocated a layer ∈ effects →
    .allocated b layer ∈ effects → a = b
  below : ∀ {a : ObjectId} {layer : SurfaceLayerId}, .allocated a layer ∈ effects →
    ∀ raw, next = some raw → layer < raw

variable {effects : List Effect}

theorem Numbered.quiet {delta : List Effect} {next : Option ℕ} (h : Numbered effects next)
    (hdelta : ∀ a layer, .allocated a layer ∉ delta) : Numbered (effects ++ delta) next := by
  have hold : ∀ a layer, Effect.allocated a layer ∈ effects ++ delta →
      Effect.allocated a layer ∈ effects := by
    intro a layer hmem
    exact (List.mem_append.mp hmem).resolve_right (hdelta a layer)
  constructor
  · intro a b layer ha hb
    exact h.unique (hold a layer ha) (hold b layer hb)
  · intro a layer ha
    exact h.below (hold a layer ha)

theorem Numbered.allocate {raw : ℕ} (h : Numbered effects (some raw)) (id : ObjectId) :
    Numbered (effects ++ [.allocated id raw]) (Hoist.checkedSucc raw) := by
  constructor
  · intro a b layer ha hb
    simp only [List.mem_append, List.mem_singleton, Effect.allocated.injEq] at ha hb
    obtain ha | ⟨rfl, rfl⟩ := ha
    · obtain hb | ⟨rfl, rfl⟩ := hb
      · exact h.unique ha hb
      · exact absurd (h.below ha layer rfl) (Nat.lt_irrefl layer)
    · obtain hb | ⟨rfl, -⟩ := hb
      · exact absurd (h.below hb layer rfl) (Nat.lt_irrefl layer)
      · rfl
  · intro a layer ha next hnext
    obtain ⟨-, rfl⟩ := Hoist.checkedSucc_eq_some.mp hnext
    simp only [List.mem_append, List.mem_singleton, Effect.allocated.injEq] at ha
    obtain ha | ⟨-, rfl⟩ := ha
    · exact Nat.lt_succ_of_lt (h.below ha raw rfl)
    · exact Nat.lt_succ_self layer

/-! ### What a commit leaves a surface with -/

/-- A surface has a view exactly when it has a buffer to show. -/
def CachedSurfaceBuffer.Measured (cached : CachedSurfaceBuffer) : Prop :=
  cached.view.isSome = cached.metadata.isSome

/-- A surface shows something of a size. -/
def CachedSurfaceBuffer.Shows (cached : CachedSurfaceBuffer) (width height : ℕ)
    (isOpaque : Bool) : Prop :=
  ∃ metadata, cached.metadata = some metadata ∧ metadata.width = width ∧
    metadata.height = height ∧ cached.isOpaque = isOpaque

/-- Whether a surface has a buffer attached after it was assigned something. -/
def attachedAfter : Option BufferAssignment → Bool → Bool
  | some (.newBuffer _), _ => true
  | some .removed, _ => false
  | none, attached => attached

/-- A surface has kept its layer, or was given one. -/
def Layered (old : Option CachedSurfaceBuffer) (effects : List Effect) (id : ObjectId)
    (layer : SurfaceLayerId) : Prop :=
  match old with
  | some before => before.layer = layer
  | none => .allocated id layer ∈ effects

/-- What a surface is left with after its commit: new content, what it had, or no layer at all. -/
inductive Settled (smithay : Smithay) (old : Option CachedSurfaceBuffer) (id : ObjectId)
    (assignment : Option BufferAssignment) (effects : List Effect) :
    Option CachedSurfaceBuffer → Option PendingSurfaceBufferContent → Prop
  | imported {cached : CachedSurfaceBuffer} {buffer : WlBuffer} {result : ImportedBuffer}
      (hassigned : assignment = some (.newBuffer buffer))
      (hmem : .imported id buffer result ∈ effects)
      (hcarries : Carries smithay effects buffer result)
      (hlast : lastImport effects id = some result)
      (hlayer : Layered old effects id cached.layer)
      (hmeasured : cached.Measured)
      (hshows : cached.Shows result.metadata.width result.metadata.height result.isOpaque) :
      Settled smithay old id assignment effects (some cached) (some result.content)
  | kept {cached : CachedSurfaceBuffer}
      (hlast : lastImport effects id = none)
      (hlayer : Layered old effects id cached.layer)
      (hmeasured : cached.Measured)
      (hmapped : cached.clientMapped = true →
        attachedAfter assignment (old.any CachedSurfaceBuffer.clientMapped) = true)
      (hshows : ∀ width height isOpaque, cached.Shows width height isOpaque →
        ∃ before, old = some before ∧ before.Shows width height isOpaque) :
      Settled smithay old id assignment effects (some cached) none
  | exhausted (hlast : lastImport effects id = none) :
      Settled smithay old id assignment effects none none

section

variable {cached : CachedSurfaceBuffer}

theorem CachedSurfaceBuffer.accept_measured (cached : CachedSurfaceBuffer)
    (imported : ImportedBuffer) : (cached.accept imported).Measured := rfl

theorem CachedSurfaceBuffer.accept_shows (cached : CachedSurfaceBuffer)
    (imported : ImportedBuffer) :
    (cached.accept imported).Shows imported.metadata.width imported.metadata.height
      imported.isOpaque :=
  ⟨imported.metadata, rfl, rfl, rfl, rfl⟩

theorem CachedSurfaceBuffer.clear_measured (cached : CachedSurfaceBuffer) (clientMapped : Bool) :
    (cached.clear clientMapped).Measured := rfl

theorem CachedSurfaceBuffer.not_shows_clear (cached : CachedSurfaceBuffer) (clientMapped : Bool)
    {width height : ℕ} {isOpaque : Bool} :
    ¬ (cached.clear clientMapped).Shows width height isOpaque := by
  rintro ⟨metadata, hmetadata, -⟩
  cases hmetadata

/-- What a new scale can change: the scale and the view of a buffer that is shown anyway. -/
theorem CachedSurfaceBuffer.rescale_cases (smithay : Smithay) (cached : CachedSurfaceBuffer)
    (viewport : ViewportCachedState) (bufferScale : ℤ) (bufferTransform : Transform) :
    cached.rescale smithay viewport bufferScale bufferTransform = cached ∨
      ∃ previous scale view, cached.metadata = some previous ∧
        cached.rescale smithay viewport bufferScale bufferTransform =
          { cached with
            metadata := some { previous with scale, transform := bufferTransform }
            view := some view } := by
  unfold CachedSurfaceBuffer.rescale
  cases hmetadata : cached.metadata with
  | none => exact .inl rfl
  | some previous =>
      cases hscale : checkedBufferScale bufferScale with
      | error error => exact .inl rfl
      | ok scale =>
          dsimp only
          cases hview : surfaceContentView smithay viewport
              { previous with scale, transform := bufferTransform } with
          | error error => exact .inl rfl
          | ok view => exact .inr ⟨previous, scale, view, rfl, rfl⟩

theorem CachedSurfaceBuffer.rescale_kept (smithay : Smithay) (h : cached.Measured)
    (viewport : ViewportCachedState) (bufferScale : ℤ) (bufferTransform : Transform) :
    (cached.rescale smithay viewport bufferScale bufferTransform).layer = cached.layer ∧
      (cached.rescale smithay viewport bufferScale bufferTransform).clientMapped =
        cached.clientMapped ∧
      (cached.rescale smithay viewport bufferScale bufferTransform).Measured ∧
      ∀ width height isOpaque,
        (cached.rescale smithay viewport bufferScale bufferTransform).Shows width height isOpaque →
          cached.Shows width height isOpaque := by
  obtain hsame | ⟨previous, scale, view, hprevious, hnew⟩ :=
    cached.rescale_cases smithay viewport bufferScale bufferTransform
  · rw [hsame]
    exact ⟨rfl, rfl, h, fun _ _ _ hshows => hshows⟩
  · rw [hnew]
    refine ⟨rfl, rfl, rfl, ?_⟩
    rintro width height isOpaque ⟨metadata, hmetadata, rfl, rfl, rfl⟩
    cases hmetadata
    exact ⟨previous, hprevious, rfl, rfl, rfl⟩

end

/-! ### One commit -/

/-- What the commit of one surface does. -/
structure Committed (smithay : Smithay) (turn turn' : Turn) (c : CommittedNode)
    (delta : List Effect) : Prop where
  effects : turn'.releases.effects = turn.releases.effects ++ delta
  buffers : delta.filterMap Effect.buffer? = (attachedBuffer c.assignment).toList
  points : delta.filterMap Effect.point? = c.releasePoint.toList
  nodes : turn'.tree.nodes = turn.tree.nodes
  elsewhere : ∀ k, k ≠ c.node.objectId →
    turn'.tree.buffers.lookup k = turn.tree.buffers.lookup k ∧
      turn'.contentUpdates.lookup k = turn.contentUpdates.lookup k ∧ lastImport delta k = none
  settled : (∀ before, turn.tree.buffers.lookup c.node.objectId = some before → before.Measured) →
    turn.contentUpdates.lookup c.node.objectId = none →
    Settled smithay (turn.tree.buffers.lookup c.node.objectId) c.node.objectId c.assignment delta
      (turn'.tree.buffers.lookup c.node.objectId) (turn'.contentUpdates.lookup c.node.objectId)

namespace Turn

variable {smithay : Smithay} {turn : Turn} {c : CommittedNode} {start : CachedSurfaceBuffer}
  {delta : List Effect}

theorem not_allocated_of_quiet
    (h : ∀ effect ∈ delta, effect.isQuiet = true) (a : ObjectId) (layer : SurfaceLayerId) :
    .allocated a layer ∉ delta := by
  intro hmem
  cases h _ hmem

/-- A commit that only changes what is remembered of its surface, and signals its point. -/
theorem committed_of_modify (smithay : Smithay)
    (hstart : turn.tree.buffers.lookup c.node.objectId = some start)
    (hattached : attachedBuffer c.assignment = none) {turn' : Turn}
    {f : CachedSurfaceBuffer → CachedSurfaceBuffer}
    (htree : turn'.tree = turn.tree.modify c.node.objectId f)
    (hcontent : turn'.contentUpdates = turn.contentUpdates)
    (hreleases : turn'.releases = turn.releases.signalReleasePoint c.releasePoint)
    (hf : start.Measured → (f start).layer = start.layer ∧ (f start).Measured ∧
      ((f start).clientMapped = true → attachedAfter c.assignment start.clientMapped = true) ∧
      ∀ width height isOpaque, (f start).Shows width height isOpaque →
        start.Shows width height isOpaque) :
    ∃ delta, Committed smithay turn turn' c delta ∧ ∀ a layer, .allocated a layer ∉ delta := by
  have hgives := (Gives.refl turn.releases).signal c.releasePoint
  rw [← hreleases] at hgives
  refine ⟨_, ?_, not_allocated_of_quiet hgives.quiet⟩
  constructor
  · exact hgives.effects
  · rw [hgives.buffers, hattached]
    rfl
  · exact hgives.points
  · rw [htree]
    rfl
  · intro k hk
    refine ⟨?_, by rw [hcontent], lastImport_quiet hgives.quiet k⟩
    simp [htree, SurfaceTreeState.modify, hk]
  · intro hmeasured hnone
    obtain ⟨hlayer, hmeasured', hmapped, hshows⟩ := hf (hmeasured start hstart)
    have hafter : turn'.tree.buffers.lookup c.node.objectId = some (f start) := by
      simp [htree, SurfaceTreeState.modify, hstart]
    rw [hafter, hcontent, hnone, hstart]
    exact .kept (lastImport_quiet hgives.quiet _) hlayer.symm hmeasured' hmapped
      fun width height isOpaque h => ⟨start, rfl, hshows width height isOpaque h⟩

theorem attach_committed (smithay : Smithay)
    (hstart : turn.tree.buffers.lookup c.node.objectId = some start) {buffer : WlBuffer} (hassigned : c.assignment = some (.newBuffer buffer)) :
    ∃ delta, Committed smithay turn (turn.attach smithay c buffer c.releasePoint) c delta ∧
      ∀ a layer, .allocated a layer ∉ delta := by
  obtain ⟨delta, hgives, hcarries⟩ := importBuffer_gives smithay c.viewport buffer c.bufferScale
    c.bufferTransform c.releasePoint turn.tree.shmOnly turn.releases
  unfold attach
  cases himport : importBuffer smithay c.viewport buffer c.bufferScale c.bufferTransform
      c.releasePoint turn.tree.shmOnly turn.releases with
  | mk result releases =>
      rw [himport] at hgives hcarries
      have hbuffers : delta.filterMap Effect.buffer? = (attachedBuffer c.assignment).toList := by
        rw [hgives.buffers, hassigned]
        rfl
      cases result with
      | error error =>
          refine ⟨delta, ⟨hgives.effects, hbuffers, hgives.points, rfl, ?_, ?_⟩,
            not_allocated_of_quiet hgives.quiet⟩
          · intro k hk
            exact ⟨by simp [SurfaceTreeState.modify, hk], rfl, lastImport_quiet hgives.quiet k⟩
          · intro _ hnone
            have hafter : (turn.tree.modify c.node.objectId
                fun cached => cached.clear true).buffers.lookup c.node.objectId =
                  some (start.clear true) := by
              simp [SurfaceTreeState.modify, hstart]
            rw [hafter, hnone, hstart]
            refine .kept (lastImport_quiet hgives.quiet _) rfl (start.clear_measured true) ?_ ?_
            · intro _
              rw [hassigned]
              rfl
            · intro width height isOpaque hshows
              exact absurd hshows (start.not_shows_clear true)
      | ok imported =>
          have hlast : lastImport (delta ++ [.imported c.node.objectId buffer imported])
              c.node.objectId = some imported := by
            simp [lastImport, Effect.importOf]
          refine ⟨delta ++ [.imported c.node.objectId buffer imported],
            ⟨?_, ?_, ?_, rfl, ?_, ?_⟩, ?_⟩
          · rw [← List.append_assoc, ← hgives.effects]
            rfl
          · simp [hbuffers, Effect.buffer?]
          · simp [hgives.points, Effect.point?]
          · intro k hk
            refine ⟨by simp [SurfaceTreeState.modify, hk], by simp [hk], ?_⟩
            rw [lastImport_append, lastImport_quiet hgives.quiet]
            simp [lastImport, Effect.importOf, Ne.symm hk]
          · intro _ _
            have hafter : (turn.tree.modify c.node.objectId
                fun cached => cached.accept imported).buffers.lookup c.node.objectId =
                  some (start.accept imported) := by
              simp [SurfaceTreeState.modify, hstart]
            rw [hafter, AList.lookup_insert, hstart]
            exact .imported hassigned (by simp)
              ((hcarries imported rfl).mono (List.subset_append_left _ _)) hlast rfl
              (start.accept_measured imported) (start.accept_shows imported)
          · intro a layer hmem
            simp only [List.mem_append, List.mem_singleton, reduceCtorEq, or_false] at hmem
            exact not_allocated_of_quiet hgives.quiet a layer hmem

/-- The input region of a surface has no part in what it is left with. -/
theorem committed_of_input (hstart : turn.tree.buffers.lookup c.node.objectId = some start)
    {turn₁ turn' : Turn} {input : CachedSurfaceBuffer → SurfaceInputRegion}
    (htree : turn₁.tree =
      turn.tree.modify c.node.objectId fun cached => { cached with input := input cached })
    (hcontent : turn₁.contentUpdates = turn.contentUpdates)
    (hreleases : turn₁.releases = turn.releases) (h : Committed smithay turn₁ turn' c delta) :
    Committed smithay turn turn' c delta := by
  have hbegun : turn₁.tree.buffers.lookup c.node.objectId =
      some { start with input := input start } := by
    simp [htree, SurfaceTreeState.modify, hstart]
  constructor
  · rw [h.effects, hreleases]
  · exact h.buffers
  · exact h.points
  · rw [h.nodes, htree]
    rfl
  · intro k hk
    obtain ⟨hbuffers, hupdates, hlast⟩ := h.elsewhere k hk
    refine ⟨?_, by rw [hupdates, hcontent], hlast⟩
    rw [hbuffers, htree]
    simp [SurfaceTreeState.modify, hk]
  · intro hmeasured hnone
    have hmeasured₁ : ∀ before, turn₁.tree.buffers.lookup c.node.objectId = some before →
        before.Measured := by
      intro before hbefore
      rw [hbegun] at hbefore
      cases hbefore
      exact hmeasured start hstart
    have hsettled := h.settled hmeasured₁ (by rw [hcontent, hnone])
    rw [hbegun] at hsettled
    rw [hstart]
    generalize turn'.tree.buffers.lookup c.node.objectId = now at hsettled
    generalize turn'.contentUpdates.lookup c.node.objectId = content at hsettled
    cases hsettled with
    | imported hassigned hmem hcarries hlast hlayer hmeasured hshows =>
        exact .imported hassigned hmem hcarries hlast hlayer hmeasured hshows
    | kept hlast hlayer hmeasured hmapped hshows =>
        refine .kept hlast hlayer hmeasured hmapped ?_
        intro width height isOpaque hnow
        obtain ⟨before, hbefore, hshown⟩ := hshows width height isOpaque hnow
        cases hbefore
        exact ⟨start, rfl, hshown⟩
    | exhausted hlast => exact .exhausted hlast

theorem applyLayered_committed (smithay : Smithay)
    (hstart : turn.tree.buffers.lookup c.node.objectId = some start) :
    ∃ delta, Committed smithay turn (turn.applyLayered smithay c) c delta ∧
      ∀ a layer, .allocated a layer ∉ delta := by
  let input := fun cached : CachedSurfaceBuffer => cached.input.update c.inputRegion
  let turn₁ : Turn :=
    { turn with
      tree := turn.tree.modify c.node.objectId fun cached => { cached with input := input cached } }
  have hinput : turn₁.tree =
      turn.tree.modify c.node.objectId fun cached => { cached with input := input cached } := rfl
  have hbegun : turn₁.tree.buffers.lookup c.node.objectId =
      some { start with input := input start } := by
    simp [turn₁, SurfaceTreeState.modify, hstart]
  cases hassigned : c.assignment with
  | some assignment =>
      cases assignment with
      | newBuffer buffer =>
          have happly : turn.applyLayered smithay c =
              turn₁.attach smithay c buffer c.releasePoint := by
            simp only [applyLayered, hassigned]
            rfl
          obtain ⟨delta, hcommitted, hquiet⟩ := attach_committed smithay hbegun hassigned
          rw [happly]
          exact ⟨delta, committed_of_input hstart hinput rfl rfl hcommitted, hquiet⟩
      | removed =>
          have htree : (turn.applyLayered smithay c).tree =
              turn₁.tree.modify c.node.objectId fun cached => cached.clear false := by
            simp only [applyLayered, hassigned]
            rfl
          obtain ⟨delta, hcommitted, hquiet⟩ := committed_of_modify smithay hbegun
            (by rw [hassigned]; rfl) htree (by simp only [applyLayered, hassigned]; rfl)
            (by simp only [applyLayered, hassigned]; rfl)
            (by
              intro _
              refine ⟨rfl, CachedSurfaceBuffer.clear_measured _ false, ?_, ?_⟩
              · rintro ⟨⟩
              · intro width height isOpaque hshows
                exact absurd hshows (CachedSurfaceBuffer.not_shows_clear _ false))
          exact ⟨delta, committed_of_input hstart hinput rfl rfl hcommitted, hquiet⟩
  | none =>
      have htree : (turn.applyLayered smithay c).tree =
          turn₁.tree.modify c.node.objectId fun cached =>
            cached.rescale smithay c.viewport c.bufferScale c.bufferTransform := by
        simp only [applyLayered, hassigned]
        rfl
      obtain ⟨delta, hcommitted, hquiet⟩ := committed_of_modify smithay hbegun
        (by rw [hassigned]; rfl) htree (by simp only [applyLayered, hassigned]; rfl)
        (by simp only [applyLayered, hassigned]; rfl)
        (by
          intro hmeasured
          obtain ⟨hlayer, hmapped, hafter, hshows⟩ := CachedSurfaceBuffer.rescale_kept smithay
            hmeasured c.viewport c.bufferScale c.bufferTransform
          refine ⟨hlayer, hafter, ?_, hshows⟩
          intro h
          rw [hassigned, attachedAfter]
          rwa [hmapped] at h)
      exact ⟨delta, committed_of_input hstart hinput rfl rfl hcommitted, hquiet⟩

theorem nextLayerId_applyLayered (smithay : Smithay) (turn : Turn) (c : CommittedNode) :
    (turn.applyLayered smithay c).tree.nextLayerId = turn.tree.nextLayerId := by
  unfold applyLayered
  cases c.assignment with
  | none => rfl
  | some assignment =>
      cases assignment with
      | removed => rfl
      | newBuffer buffer =>
          dsimp only [attach]
          split <;> rfl

/-- A surface that was just given its layer had nothing before. -/
theorem settled_of_allocated {raw : ℕ} {now : Option CachedSurfaceBuffer}
    {content : Option PendingSurfaceBufferContent}
    {id : ObjectId} {assignment : Option BufferAssignment}
    (h : Settled smithay (some { layer := raw }) id assignment delta now content) :
    Settled smithay none id assignment (.allocated id raw :: delta) now content := by
  have hcons : ∀ result, lastImport delta id = result →
      lastImport (.allocated id raw :: delta) id = result := by
    rintro _ rfl
    rfl
  cases h with
  | imported hassigned hmem hcarries hlast hlayer hmeasured hshows =>
      obtain rfl : raw = _ := hlayer
      exact .imported hassigned (List.mem_cons_of_mem _ hmem)
        (hcarries.mono (List.subset_cons_self _ _)) (hcons _ hlast) List.mem_cons_self hmeasured
        hshows
  | kept hlast hlayer hmeasured hmapped hshows =>
      obtain rfl : raw = _ := hlayer
      refine .kept (hcons _ hlast) List.mem_cons_self hmeasured hmapped ?_
      intro width height isOpaque hnow
      obtain ⟨before, hbefore, metadata, hmetadata, -⟩ := hshows width height isOpaque hnow
      cases hbefore
      cases hmetadata
  | exhausted hlast => exact .exhausted (hcons _ hlast)

/-- **What one commit does.** -/
theorem applyCommit_committed (smithay : Smithay) (turn : Turn) (c : CommittedNode) :
    ∃ delta, Committed smithay turn (turn.applyCommit smithay c) c delta ∧
      ∀ effects, Numbered effects turn.tree.nextLayerId →
        Numbered (effects ++ delta) (turn.applyCommit smithay c).tree.nextLayerId := by
  unfold applyCommit SurfaceTreeState.layerFor
  cases hlookup : turn.tree.buffers.lookup c.node.objectId with
  | some start =>
      obtain ⟨delta, hcommitted, hquiet⟩ := applyLayered_committed smithay hlookup
      refine ⟨delta, hcommitted, ?_⟩
      intro effects hnumbered
      have hnext := nextLayerId_applyLayered smithay turn c
      rw [hnext]
      exact hnumbered.quiet hquiet
  | none =>
      cases hraw : turn.tree.nextLayerId with
      | none =>
          obtain ⟨delta, hgives⟩ :=
            releaseWithoutSampling_gives c.assignment c.releasePoint turn.releases
          refine ⟨delta, ⟨hgives.effects, hgives.buffers, hgives.points, rfl, ?_, ?_⟩, ?_⟩
          · intro k _
            exact ⟨rfl, rfl, lastImport_quiet hgives.quiet k⟩
          · intro _ hnone
            rw [hlookup, hnone]
            exact .exhausted (lastImport_quiet hgives.quiet _)
          · intro effects hnumbered
            rw [hraw]
            exact hnumbered.quiet (not_allocated_of_quiet hgives.quiet)
      | some raw =>
          let turn₁ : Turn :=
            { turn with
              tree :=
                { turn.tree with
                  nextLayerId := Hoist.checkedSucc raw
                  buffers := turn.tree.buffers.insert c.node.objectId { layer := raw } }
              releases := turn.releases.record (.allocated c.node.objectId raw) }
          have hbegun : turn₁.tree.buffers.lookup c.node.objectId = some { layer := raw } := by
            simp [turn₁]
          obtain ⟨delta, hcommitted, hquiet⟩ := applyLayered_committed smithay hbegun
          refine ⟨.allocated c.node.objectId raw :: delta, ⟨?_, hcommitted.buffers,
            hcommitted.points, hcommitted.nodes, ?_, ?_⟩, ?_⟩
          · rw [hcommitted.effects]
            simp [turn₁, Releases.record]
          · intro k hk
            obtain ⟨hbuffers, hupdates, hlast⟩ := hcommitted.elsewhere k hk
            refine ⟨?_, hupdates, hlast⟩
            rw [hbuffers]
            simp [turn₁, hk]
          · intro _ hnone
            have hmeasured : ∀ before,
                turn₁.tree.buffers.lookup c.node.objectId = some before → before.Measured := by
              intro before hbefore
              rw [hbegun] at hbefore
              cases hbefore
              rfl
            have hsettled := hcommitted.settled hmeasured hnone
            rw [hbegun] at hsettled
            rw [hlookup]
            exact settled_of_allocated hsettled
          · intro effects hnumbered
            have hnext := nextLayerId_applyLayered smithay turn₁ c
            rw [hnext, List.append_cons]
            exact (hnumbered.allocate c.node.objectId).quiet hquiet

end Turn

/-! ### All commits of a walk -/

section

variable {smithay : Smithay} {id : ObjectId} {assignment : Option BufferAssignment}
  {old now : Option CachedSurfaceBuffer} {content : Option PendingSurfaceBufferContent} {delta : List Effect}

theorem Layered.mono {effects' : List Effect} {layer : SurfaceLayerId} (h : Layered old effects id layer)
    (hsub : effects ⊆ effects') : Layered old effects' id layer := by
  cases old with
  | none => exact hsub h
  | some before => exact h

/-- What a surface is left with does not depend on the commits of the others. -/
theorem Settled.mono (h : Settled smithay old id assignment delta now content) (hsub : delta ⊆ effects)
    (hlast : lastImport effects id = lastImport delta id) :
    Settled smithay old id assignment effects now content := by
  cases h with
  | imported hassigned hmem hcarries hlast' hlayer hmeasured hshows =>
      exact .imported hassigned (hsub hmem) (hcarries.mono hsub) (hlast.trans hlast')
        (hlayer.mono hsub) hmeasured hshows
  | kept hlast' hlayer hmeasured hmapped hshows =>
      exact .kept (hlast.trans hlast') (hlayer.mono hsub) hmeasured hmapped hshows
  | exhausted hlast' => exact .exhausted (hlast.trans hlast')

end

/-- What the commits of some surfaces do. -/
structure Walked (smithay : Smithay) (turn turn' : Turn) (cs : List CommittedNode)
    (delta : List Effect) : Prop where
  effects : turn'.releases.effects = turn.releases.effects ++ delta
  buffers : delta.filterMap Effect.buffer? = cs.filterMap fun c => attachedBuffer c.assignment
  points : delta.filterMap Effect.point? = cs.filterMap CommittedNode.releasePoint
  nodes : turn'.tree.nodes = turn.tree.nodes ++ cs.map CommittedNode.node
  elsewhere : ∀ k, k ∉ cs.map (fun c => c.node.objectId) →
    turn'.tree.buffers.lookup k = turn.tree.buffers.lookup k ∧
      turn'.contentUpdates.lookup k = turn.contentUpdates.lookup k ∧ lastImport delta k = none
  settled : ∀ c ∈ cs,
    (∀ before, turn.tree.buffers.lookup c.node.objectId = some before → before.Measured) →
    turn.contentUpdates.lookup c.node.objectId = none →
    Settled smithay (turn.tree.buffers.lookup c.node.objectId) c.node.objectId c.assignment delta
      (turn'.tree.buffers.lookup c.node.objectId) (turn'.contentUpdates.lookup c.node.objectId)
  numbered : ∀ effects, Numbered effects turn.tree.nextLayerId →
    Numbered (effects ++ delta) turn'.tree.nextLayerId

namespace Turn

/-- **What the commits of distinct surfaces do**: each surface is left with what its own commit left
it with. -/
theorem walk_walked (smithay : Smithay) :
    ∀ (cs : List CommittedNode) (turn : Turn), (cs.map fun c => c.node.objectId).Nodup →
      ∃ delta, Walked smithay turn (cs.foldl (Turn.commit smithay) turn) cs delta := by
  intro cs
  induction cs with
  | nil =>
      intro turn _
      refine ⟨[], ⟨(List.append_nil _).symm, rfl, rfl, (List.append_nil _).symm, ?_, by simp, ?_⟩⟩
      · intro k _
        exact ⟨rfl, rfl, rfl⟩
      · intro effects hnumbered
        rw [List.append_nil]
        exact hnumbered
  | cons c cs ih =>
      intro turn hnodup
      obtain ⟨hout, hnodup⟩ := List.nodup_cons.mp hnodup
      obtain ⟨first, hfirst, hnumbered⟩ := turn.applyCommit_committed smithay c
      obtain ⟨rest, hrest⟩ := ih (turn.commit smithay c) hnodup
      have hhead := hrest.elsewhere _ hout
      refine ⟨first ++ rest, ?_⟩
      rw [List.foldl_cons]
      constructor
      · rw [hrest.effects, ← List.append_assoc, ← hfirst.effects]
        rfl
      · rw [List.filterMap_append, hfirst.buffers, hrest.buffers]
        cases hattached : attachedBuffer c.assignment <;> simp [hattached]
      · rw [List.filterMap_append, hfirst.points, hrest.points]
        cases hpoint : c.releasePoint <;> simp [hpoint]
      · rw [hrest.nodes]
        simp [commit, pushNode, hfirst.nodes]
      · intro k hk
        simp only [List.map_cons, List.mem_cons, not_or] at hk
        obtain ⟨hbuffers, hupdates, hlast⟩ := hrest.elsewhere k hk.2
        obtain ⟨hbuffers', hupdates', hlast'⟩ := hfirst.elsewhere k hk.1
        refine ⟨hbuffers.trans hbuffers', hupdates.trans hupdates', ?_⟩
        rw [lastImport_append, hlast, hlast']
        rfl
      · intro d hd hmeasured hnone
        obtain rfl | hd := List.mem_cons.mp hd
        · -- The others come later and leave this surface alone.
          have hsettled := hfirst.settled hmeasured hnone
          rw [hhead.1, hhead.2.1]
          refine hsettled.mono (List.subset_append_left _ _) ?_
          rw [lastImport_append, hhead.2.2, Option.none_or]
        · have hne : d.node.objectId ≠ c.node.objectId := by
            intro heq
            exact hout (List.mem_map.mpr ⟨d, hd, heq⟩)
          obtain ⟨hbuffers, hupdates, hlast⟩ := hfirst.elsewhere _ hne
          have hbegun : (turn.commit smithay c).tree.buffers.lookup d.node.objectId =
              turn.tree.buffers.lookup d.node.objectId := hbuffers
          have hsettled := hrest.settled d hd
            (by rw [hbegun]; exact hmeasured) (hupdates.trans hnone)
          rw [hbegun] at hsettled
          refine hsettled.mono (List.subset_append_right _ _) ?_
          rw [lastImport_append, hlast, Option.or_none]
      · intro effects hstart
        rw [← List.append_assoc]
        exact hrest.numbered _ (hnumbered effects hstart)

end Turn

end SurfaceTree
