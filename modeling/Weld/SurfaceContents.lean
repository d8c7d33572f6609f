/-
**What a commit shows.**

A commit lists the layers of its surface: a layer gets a new buffer, keeps the one it has, or loses
it; a layer that is not listed loses its buffer as well.  A reader that skips a commit lets the next
one carry the buffers it has not seen.

Main definitions: `ClientSurfaceCommit.contents`, `ClientSurfaceCommit.Keeps`,
`ClientSurfaceCommit.geometry`.

Main results:

* `ClientSurfaceCommit.contents_carry` — a commit that carries another shows what both show.
-/

import Weld.ClientSurface

namespace Client

/-- The buffer each layer shows. -/
abbrev LayerContents := SurfaceLayerId → Option (ClientBufferMetadata × ClientBufferLease)

namespace ClientSurfaceCommit

/-- What the commit says about a layer. -/
def updates (commit : ClientSurfaceCommit) (layer : SurfaceLayerId) : List SurfaceBufferChange :=
  (commit.buffers.filter (·.layer == layer)).map (·.change)

/-- A replaced layer gets its buffer, a retained one keeps it, and a layer that is removed or omitted
loses it. -/
def contents (commit : ClientSurfaceCommit) (before : LayerContents) : LayerContents := fun layer =>
  match (commit.updates layer).head? with
  | some (.replaced metadata buffer) => some (metadata, buffer)
  | some (.retained _) => before layer
  | some .removed | none => none

/-- The commit lists the layer: once, and not as removed. -/
def Lists (commit : ClientSurfaceCommit) (layer : SurfaceLayerId) : Prop :=
  ∃ change, commit.updates layer = [change] ∧ change ≠ .removed

/-- The commit retains only layers that the previous one lists. -/
def Keeps (commit previous : ClientSurfaceCommit) : Prop :=
  ∀ update ∈ commit.buffers, update.change.isRetained = true → previous.Lists update.layer

/-- Everything but the buffers. -/
def geometry (commit : ClientSurfaceCommit) : ClientSurfaceCommit := { commit with buffers := [] }

variable (commit : ClientSurfaceCommit) (previous : ClientSurfaceCommit)

@[simp] theorem geometry_carry :
    (commit.carryUnobservedContentFrom previous).geometry = commit.geometry := rfl

/-! ### Carrying -/

/-- What a carried update becomes. -/
def carried (previous : ClientSurfaceCommit) (layer : SurfaceLayerId)
    (change : SurfaceBufferChange) : SurfaceBufferChange :=
  if change.isRetained then ((previous.updates layer).find? (·.isReplaced)).getD change else change

theorem find?_updates (layer : SurfaceLayerId) :
    (commit.updates layer).find? (·.isReplaced) =
      (commit.buffers.find? fun old => old.layer == layer && old.change.isReplaced).map
        (·.change) := by
  rw [updates, List.find?_map, List.find?_filter]
  congr 2
  funext old
  rw [Bool.eq_iff_iff]
  simp

theorem buffers_carry :
    (commit.carryUnobservedContentFrom previous).buffers =
      commit.buffers.map fun buffer =>
        { buffer with change := carried previous buffer.layer buffer.change } := by
  refine List.map_congr_left fun buffer _ => ?_
  unfold carried
  rw [find?_updates]
  split_ifs
  · cases previous.buffers.find? fun old =>
      old.layer == buffer.layer && old.change.isReplaced with
    | none | some => rfl
  · rfl

theorem updates_carry (layer : SurfaceLayerId) :
    (commit.carryUnobservedContentFrom previous).updates layer =
      (commit.updates layer).map (carried previous layer) := by
  unfold updates
  rw [buffers_carry, List.filter_map, List.map_map, List.map_map]
  refine List.map_congr_left fun buffer hbuffer => ?_
  have hlayer : buffer.layer = layer := by simpa using (List.mem_filter.mp hbuffer).2
  rw [← hlayer]
  rfl

variable {previous commit : ClientSurfaceCommit} {layer : SurfaceLayerId}

theorem carried_eq_removed
    {change : SurfaceBufferChange} : carried previous layer change = .removed ↔ change = .removed := by
  unfold carried
  split_ifs with hretained
  · have hne : change ≠ .removed := by
      rintro rfl
      cases hretained
    cases hfind : (previous.updates layer).find? (·.isReplaced) with
    | none => rfl
    | some found =>
        have hreplaced := List.find?_some hfind
        have hfound : found ≠ .removed := by
          rintro rfl
          cases hreplaced
        simp [hne, hfound]
  · rfl

/-- Carrying changes what is shown, not what is listed. -/
theorem lists_carry :
    (commit.carryUnobservedContentFrom previous).Lists layer ↔ commit.Lists layer := by
  unfold Lists
  rw [updates_carry]
  constructor
  · rintro ⟨change, hupdates, hchange⟩
    obtain ⟨original, horiginal, rfl⟩ := List.map_eq_singleton_iff.mp hupdates
    exact ⟨original, horiginal, fun h => hchange (carried_eq_removed.mpr h)⟩
  · rintro ⟨change, hupdates, hchange⟩
    exact ⟨carried previous layer change, by rw [hupdates, List.map_singleton],
      fun h => hchange (carried_eq_removed.mp h)⟩

/-- **A commit that carries another shows what both show.** -/
theorem contents_carry (h : commit.Keeps previous) (before : LayerContents) :
    (commit.carryUnobservedContentFrom previous).contents before =
      commit.contents (previous.contents before) := by
  funext layer
  unfold contents
  rw [updates_carry]
  cases hupdates : commit.updates layer with
  | nil => rfl
  | cons change more =>
      simp only [List.map_cons, List.head?_cons]
      cases change with
      | replaced | removed => rfl
      | retained metadata =>
          -- the previous commit lists the layer, with a new buffer or not
          have hmem : SurfaceBufferChange.retained metadata ∈ commit.updates layer := by
            rw [hupdates]
            exact List.mem_cons_self
          obtain ⟨update, hupdate, hchange⟩ := List.mem_map.mp hmem
          obtain ⟨hupdate, hlayer⟩ := List.mem_filter.mp hupdate
          have hlayer : update.layer = layer := by simpa using hlayer
          obtain ⟨listed, hlisted, hkept⟩ := h update hupdate (by rw [hchange]; rfl)
          rw [hlayer] at hlisted
          have hcarried : carried previous layer (.retained metadata) =
              ([listed].find? (·.isReplaced)).getD (.retained metadata) := by
            rw [← hlisted]
            rfl
          rw [hcarried, hlisted]
          cases listed with
          | replaced | retained => rfl
          | removed => exact absurd rfl hkept

/-- Seeing a commit again shows nothing new. -/
theorem contents_again (commit : ClientSurfaceCommit) (before : LayerContents) :
    commit.contents (commit.contents before) = commit.contents before := by
  funext layer
  unfold contents
  cases (commit.updates layer).head? with
  | none => rfl
  | some change => cases change <;> rfl

end ClientSurfaceCommit

end Client
