/-
**The exits of an import.**

An attached buffer leaves through one of several exits: it is imported, or the import fails, or it is
never tried.  At every exit the buffer and its point are disposed of, each exactly once, and what a
successful import shows is exactly the buffer it was made from.

Main definitions: `lastImport`, `Gives`, `Carries`.

Main results:

* `importBuffer_gives` — **the exits of an import**;
* `releaseWithoutSampling_gives` — the exit without one.
-/

import Weld.ClientBuffers

namespace SurfaceTree

open Client

/-! ### Effects -/

/-- An effect that neither gives a layer nor content to a surface. -/
def Effect.isQuiet : Effect → Bool
  | .allocated _ _ | .imported _ _ _ => false
  | _ => true

/-- The last successful import for a surface. -/
def lastImport (effects : List Effect) (surface : ObjectId) : Option ImportedBuffer :=
  (effects.filterMap (Effect.importOf surface)).getLast?

theorem lastImport_append (effects delta : List Effect) (surface : ObjectId) :
    lastImport (effects ++ delta) surface =
      (lastImport delta surface).or (lastImport effects surface) := by
  simp [lastImport, List.filterMap_append, List.getLast?_append]

variable {effects : List Effect}

theorem lastImport_quiet (h : ∀ effect ∈ effects, effect.isQuiet = true)
    (surface : ObjectId) : lastImport effects surface = none := by
  have hnone : effects.filterMap (Effect.importOf surface) = [] := by
    refine List.filterMap_eq_nil_iff.mpr ?_
    intro effect heffect
    cases effect with
    | imported id buffer result => cases h _ heffect
    | _ => rfl
  simp [lastImport, hnone]

/-- What a handler that shows nothing adds to the record: it disposes of some buffers and points. -/
structure Gives (before after : Releases) (delta : List Effect) (buffers : List WlBuffer)
    (points : List DrmSyncPoint) : Prop where
  effects : after.effects = before.effects ++ delta
  buffers : delta.filterMap Effect.buffer? = buffers
  points : delta.filterMap Effect.point? = points
  quiet : ∀ effect ∈ delta, effect.isQuiet = true

variable {buffer : WlBuffer}

section

variable {a b c : Releases} {d e : List Effect} {buffers buffers' : List WlBuffer}
  {points points' : List DrmSyncPoint}

theorem Gives.refl (a : Releases) : Gives a a [] [] [] where
  effects := (List.append_nil _).symm
  buffers := rfl
  points := rfl
  quiet := by simp

section

variable (h : Gives a b d buffers points)
include h

theorem Gives.trans (h' : Gives b c e buffers' points') :
    Gives a c (d ++ e) (buffers ++ buffers') (points ++ points') where
  effects := by rw [h'.effects, h.effects, List.append_assoc]
  buffers := by rw [List.filterMap_append, h.buffers, h'.buffers]
  points := by rw [List.filterMap_append, h.points, h'.points]
  quiet := by
    intro effect heffect
    obtain heffect | heffect := List.mem_append.mp heffect
    · exact h.quiet effect heffect
    · exact h'.quiet effect heffect

theorem Gives.release (buffer : WlBuffer) :
    Gives a (b.release buffer) (d ++ [.released buffer]) (buffers ++ [buffer]) points where
  effects := by simp [Releases.release, Releases.record, h.effects]
  buffers := by simp [h.buffers, Effect.buffer?]
  points := by simp [h.points, Effect.point?]
  quiet := by
    intro effect heffect
    obtain heffect | heffect := List.mem_append.mp heffect
    · exact h.quiet effect heffect
    · rw [List.mem_singleton.mp heffect]
      rfl

theorem Gives.signal (point : Option DrmSyncPoint) :
    Gives a (b.signalReleasePoint point) (d ++ point.toList.map .signaled) buffers
      (points ++ point.toList) := by
  cases point with
  | none => simpa [Releases.signalReleasePoint] using h
  | some point =>
      constructor
      · simp [Releases.signalReleasePoint, Releases.record, h.effects]
      · simp [h.buffers, Effect.buffer?]
      · simp [h.points, Effect.point?]
      · intro effect heffect
        obtain heffect | heffect := List.mem_append.mp heffect
        · exact h.quiet effect heffect
        · obtain rfl : effect = .signaled point := by simpa using heffect
          rfl

end

theorem Releases.register_gives {point : Option DrmSyncPoint} {release : DmabufReleaseId}
    (h : a.register buffer point = some (release, b)) :
    Gives a b (.handed buffer release :: point.toList.map fun point => .stored point release)
      [buffer] point.toList := by
  obtain ⟨⟨id, store⟩, -, heq⟩ := Option.map_eq_some_iff.mp h
  cases heq
  cases point with
  | none | some => exact ⟨rfl, rfl, rfl, by simp [Effect.isQuiet]⟩

end

/-! ### Importing -/

/-- The result of an import shows exactly the buffer it was made from. -/
def Carries (smithay : Smithay) (effects : List Effect) (buffer : WlBuffer)
    (result : ImportedBuffer) : Prop :=
  match getDmabuf buffer with
  | some dmabuf =>
      ∃ release, .handed buffer release ∈ effects ∧
        result.content = .importedDmabuf dmabuf release ∧
        dmabuf.size = ⟨result.metadata.width, result.metadata.height⟩ ∧
        result.isOpaque = !smithay.hasAlpha dmabuf.format
  | none =>
      ∃ copied, copyShmBuffer buffer = .ok copied ∧
        result.content = .shmPixels copied.bgraPixels ∧
        result.metadata.width = copied.width ∧ result.metadata.height = copied.height ∧
        result.isOpaque = copied.isOpaque

variable {result : ImportedBuffer}

theorem Carries.mono {smithay : Smithay} {effects' : List Effect}
    (h : Carries smithay effects buffer result) (hsub : effects ⊆ effects') :
    Carries smithay effects' buffer result := by
  unfold Carries at *
  cases hdmabuf : getDmabuf buffer with
  | none => simpa only [hdmabuf] using h
  | some dmabuf =>
      simp only [hdmabuf] at h ⊢
      obtain ⟨release, hmem, hrest⟩ := h
      exact ⟨release, hsub hmem, hrest⟩

/-- Imported content is never a promise that nothing changed. -/
theorem Carries.content_ne_retained {smithay : Smithay} (h : Carries smithay effects buffer result) :
    result.content ≠ .retained := by
  unfold Carries at h
  cases hdmabuf : getDmabuf buffer with
  | none =>
      simp only [hdmabuf] at h
      obtain ⟨copied, -, hcontent, -⟩ := h
      simp [hcontent]
  | some dmabuf =>
      simp only [hdmabuf] at h
      obtain ⟨release, -, hcontent, -⟩ := h
      simp [hcontent]

section Import

variable {smithay : Smithay} {viewport : ViewportCachedState} {buffer : WlBuffer}
  {bufferScale : ℤ} {bufferTransform : Transform} {releasePoint : Option DrmSyncPoint}
  {shmOnly : Bool} {releases : Releases}
  {width height : ℕ} {dmabuf : Dmabuf} {imported : ImportedBuffer}

theorem measureBuffer_ok {metadata : SurfaceBufferMetadata}
    {view : SurfaceContentView}
    (h : measureBuffer smithay viewport width height bufferScale bufferTransform =
      .ok (metadata, view)) :
    metadata.width = width ∧ metadata.height = height := by
  unfold measureBuffer at h
  cases hscale : checkedBufferScale bufferScale with
  | error error => simp [hscale, bind, Except.bind] at h
  | ok scale =>
      cases hview : surfaceContentView smithay viewport
          { width, height, scale, transform := bufferTransform } with
      | error error => simp [hscale, hview, bind, Except.bind] at h
      | ok found =>
          simp only [hscale, hview, bind, Except.bind, pure, Except.pure, Except.ok.injEq,
            Prod.mk.injEq] at h
          rw [← h.1]
          exact ⟨rfl, rfl⟩

theorem dmabufExtent_ok
    (h : dmabufExtent dmabuf = .ok (width, height)) : dmabuf.size = ⟨width, height⟩ := by
  obtain ⟨handle, ⟨w, hgt⟩, format⟩ := dmabuf
  by_cases hw : w < 0
  · simp [dmabufExtent, tryUnsigned, hw, bind, Except.bind] at h
  · by_cases hh : hgt < 0
    · simp [dmabufExtent, tryUnsigned, hw, hh, bind, Except.bind] at h
    · simp only [dmabufExtent, tryUnsigned, if_neg hw, if_neg hh, bind, Except.bind, pure,
        Except.pure, Except.ok.injEq, Prod.mk.injEq] at h
      simp only [Size.mk.injEq]
      omega

theorem importDmabuf_ok {releases' : Releases}
    (h : importDmabuf smithay viewport buffer dmabuf bufferScale bufferTransform releasePoint
      releases = .ok (imported, releases')) :
    ∃ release, releases.register buffer releasePoint = some (release, releases') ∧
      imported.content = .importedDmabuf dmabuf release ∧
      dmabuf.size = ⟨imported.metadata.width, imported.metadata.height⟩ ∧
      imported.isOpaque = !smithay.hasAlpha dmabuf.format := by
  unfold importDmabuf at h
  cases hextent : dmabufExtent dmabuf with
  | error error => simp [hextent, bind, Except.bind] at h
  | ok extent =>
      obtain ⟨width, height⟩ := extent
      cases hmeasured : measureBuffer smithay viewport width height bufferScale
          bufferTransform with
      | error error => simp [hextent, hmeasured, bind, Except.bind] at h
      | ok measured =>
          cases hregister : releases.register buffer releasePoint with
          | none =>
              simp [hextent, hmeasured, hregister, bind, Except.bind, throw, throwThe,
                MonadExceptOf.throw] at h
          | some registered =>
              obtain ⟨release, after⟩ := registered
              simp only [hextent, hmeasured, hregister, bind, Except.bind, pure, Except.pure,
                Except.ok.injEq, Prod.mk.injEq] at h
              obtain ⟨rfl, rfl⟩ := h
              obtain ⟨hwidth, hheight⟩ := measureBuffer_ok hmeasured
              refine ⟨release, rfl, rfl, ?_, rfl⟩
              rw [dmabufExtent_ok hextent, hwidth, hheight]

theorem importShm_ok {copied : CopiedShmBuffer}
    (h : importShm smithay viewport copied bufferScale bufferTransform = .ok imported) :
    imported.content = .shmPixels copied.bgraPixels ∧
      imported.metadata.width = copied.width ∧ imported.metadata.height = copied.height ∧
      imported.isOpaque = copied.isOpaque := by
  unfold importShm at h
  cases hmeasured : measureBuffer smithay viewport copied.width copied.height bufferScale
      bufferTransform with
  | error error => simp [hmeasured, bind, Except.bind] at h
  | ok measured =>
      simp only [hmeasured, bind, Except.bind, pure, Except.pure, Except.ok.injEq] at h
      obtain rfl := h
      obtain ⟨hwidth, hheight⟩ := measureBuffer_ok hmeasured
      exact ⟨rfl, hwidth, hheight, rfl⟩

/-- **Every exit of an import disposes of the buffer and of its point, once each; an import that
succeeds shows exactly the buffer.** -/
theorem importBuffer_gives (smithay : Smithay) (viewport : ViewportCachedState) (buffer : WlBuffer)
    (bufferScale : ℤ) (bufferTransform : Transform) (releasePoint : Option DrmSyncPoint)
    (shmOnly : Bool) (releases : Releases) :
    ∃ delta,
      Gives releases (importBuffer smithay viewport buffer bufferScale bufferTransform
        releasePoint shmOnly releases).2 delta [buffer] releasePoint.toList ∧
      ∀ imported, (importBuffer smithay viewport buffer bufferScale bufferTransform releasePoint
        shmOnly releases).1 = .ok imported → Carries smithay delta buffer imported := by
  have hsignal := (Gives.refl releases).signal releasePoint
  unfold importBuffer
  cases hdmabuf : getDmabuf buffer with
  | some dmabuf =>
      dsimp only
      split_ifs
      · refine ⟨_, ((Gives.refl releases).release buffer).signal releasePoint, ?_⟩
        rintro imported ⟨⟩
      · cases himport : importDmabuf smithay viewport buffer dmabuf bufferScale bufferTransform
            releasePoint releases with
        | error error =>
            refine ⟨_, hsignal.release buffer, ?_⟩
            rintro imported ⟨⟩
        | ok result =>
            obtain ⟨release, hregister, hcontent, hsize, hopaque⟩ := importDmabuf_ok himport
            refine ⟨_, Releases.register_gives hregister, ?_⟩
            rintro imported ⟨⟩
            simp only [Carries, hdmabuf]
            exact ⟨release, List.mem_cons_self, hcontent, hsize, hopaque⟩
  | none =>
      cases hcopy : copyShmBuffer buffer with
      | error error =>
          refine ⟨_, hsignal.release buffer, ?_⟩
          rintro imported ⟨⟩
      | ok copied =>
          refine ⟨_, hsignal.release buffer, ?_⟩
          intro imported himport
          obtain ⟨hcontent, hwidth, hheight, hopaque⟩ := importShm_ok himport
          simp only [Carries, hdmabuf]
          exact ⟨copied, hcopy, hcontent, hwidth, hheight, hopaque⟩

end Import

theorem releaseWithoutSampling_gives (assignment : Option BufferAssignment)
    (releasePoint : Option DrmSyncPoint) (releases : Releases) :
    ∃ delta, Gives releases (releaseWithoutSampling assignment releasePoint releases) delta
      (attachedBuffer assignment).toList releasePoint.toList := by
  unfold releaseWithoutSampling
  cases attachedBuffer assignment with
  | none => exact ⟨_, (Gives.refl releases).signal releasePoint⟩
  | some buffer => exact ⟨_, ((Gives.refl releases).release buffer).signal releasePoint⟩

end SurfaceTree
