/-
**The stacking of floating windows is the order in which they were raised.**

All managers share one allocator of z-orders, while the top is that of one manager.  When the range
is used up the windows of one manager get the lowest z-orders anew.  A fullscreen window is parked at
the lowest z-order and later gets back the one it had, which may by then be out of date: because its
manager was rebased, because another manager's rebase lowered the allocator, or because it was
initialised meanwhile.  Where none of these happens the z-orders are in the order of the raises.

Main definitions: `nextWindowZ`, `rebaseWindowOrder`, `Stacking`, `Stacking.Allowed`.

Main results:

* `nextWindowZ_spec` — an allocation keeps the order of every manager;
* `floating_stacking_is_the_raise_order` — **for all runs**;
* `transfer_in_fullscreen_is_forgotten` — a run outside the condition.
-/

import Mathlib.Data.List.Pairwise
import Mathlib.Data.List.Sort
import Weld.Transition

namespace Floating

open Transition

/-! ### Windows -/

def windowZIndexMin : ℤ := 0

def windowZIndexMax : ℤ := 999999

def floatZIndexMin : ℤ := windowZIndexMin + 1

abbrev Entity := ℕ

inductive FullscreenMode
  | normal | exclusive
  deriving DecidableEq

inductive FullscreenAction
  | enable (mode : FullscreenMode)
  | toggle (mode : FullscreenMode)
  | disable

structure WindowFullscreen where
  mode : FullscreenMode
  restoreZ : ℤ
  deriving DecidableEq

/-- A managed window.  It is `fresh` until it is initialised after it became floating or changed its
manager; `raised` is when it was last initialised or raised, which the code does not keep. -/
structure Window where
  entity : Entity
  id : ℕ
  manager : Entity
  output : Entity
  workspace : Option Entity
  z : ℤ := 0
  floating : Bool := false
  fresh : Bool := true
  fullscreen : Option WindowFullscreen := none
  raised : ℕ := 0
  deriving DecidableEq

namespace Window

def OwnedBy (w : Window) (manager : Entity) : Prop := w.floating = true ∧ w.manager = manager

instance (w : Window) (manager : Entity) : Decidable (w.OwnedBy manager) :=
  inferInstanceAs (Decidable (_ ∧ _))

/-- Floating and initialised. -/
def Settled (w : Window) : Prop := w.floating = true ∧ w.fresh = false

/-- The z-order of the window outside fullscreen. -/
def rank (w : Window) : ℤ := (w.fullscreen.map WindowFullscreen.restoreZ).getD w.z

def Shown (w : Window) : Prop := w.Settled ∧ w.fullscreen = none

instance (w : Window) : Decidable w.Shown := inferInstanceAs (Decidable ((_ ∧ _) ∧ _))

def restored (w : Window) : Window :=
  match w.fullscreen with
  | none => w
  | some state => { w with fullscreen := none, z := state.restoreZ }

end Window

def owned (manager : Entity) (windows : List Window) : List Window :=
  windows.filter fun w => w.OwnedBy manager

/-! ### The allocator -/

/-- A sort by z-order that may order equal ones as it likes. -/
structure UnstableSort where
  sort : List Window → List Window
  perm : ∀ windows, (sort windows).Perm windows
  sorted : ∀ windows, (sort windows).Pairwise fun a b => a.z ≤ b.z

structure WindowStack where
  next : Option ℤ := some floatZIndexMin
  deriving DecidableEq

/-- A sum that leaves the machine's range is past the end of the stack as well. -/
def checkedNext (z : ℤ) : Option ℤ := if z + 1 ≤ windowZIndexMax then some (z + 1) else none

def WindowStack.allocate (stack : WindowStack) : Option ℤ × WindowStack :=
  match stack.next with
  | none => (none, stack)
  | some current => (some current, ⟨checkedNext current⟩)

def topWindowZ (manager : Entity) (windows : List Window) : Option ℤ :=
  ((owned manager windows).map Window.z).max?

def rebaseWindowOrder (order : List ℤ) : WindowStack × List ℤ :=
  let order := (order.mergeSort (· ≤ ·)).mapIdx fun offset _ =>
    min (floatZIndexMin + offset) windowZIndexMax
  match order.getLast? with
  | some z => (⟨checkedNext z⟩, order)
  | none => (⟨some floatZIndexMin⟩, order)

/-- The sorted windows take the values in order. -/
def writeBack (sorted : List Window) (values : List ℤ) (windows : List Window) : List Window :=
  windows.map fun w =>
    { w with z := (((sorted.map Window.entity).zip values).lookup w.entity).getD w.z }

def WindowStack.pass (stack : WindowStack) (top : Option ℤ) : WindowStack :=
  match top, stack.next with
  | some top, some next => if next ≤ top then ⟨checkedNext top⟩ else stack
  | _, _ => stack

variable (byZ : UnstableSort)

def nextWindowZ (stack : WindowStack) (manager : Entity) (windows : List Window) :
    ℤ × WindowStack × List Window :=
  match (stack.pass (topWindowZ manager windows)).allocate with
  | (some z, stack) => (z, stack, windows)
  | (none, _) =>
      let (stack, order) := rebaseWindowOrder ((owned manager windows).map Window.z)
      let windows := writeBack (byZ.sort (owned manager windows)) order windows
      let (z, stack) := stack.allocate
      (z.getD windowZIndexMax, stack, windows)

/-! ### What happens to the windows -/

structure Stacking where
  windows : List Window := []
  stack : WindowStack := {}
  clock : ℕ := 1

namespace Stacking

def find (s : Stacking) (window : Entity) : Option Window :=
  s.windows.find? fun w => w.entity = window

def modify (s : Stacking) (window : Entity) (f : Window → Window) : Stacking :=
  { s with windows := s.windows.map fun w => if w.entity = window then f w else w }

def raise (s : Stacking) (window manager : Entity) (fresh : Bool) : Stacking :=
  let (z, stack, windows) := nextWindowZ byZ s.stack manager s.windows
  { ({ windows, stack, clock := s.clock + 1 } : Stacking).modify window fun w =>
      { w with z, fresh, raised := s.clock } with }

def activate (s : Stacking) (window : Entity) : Stacking :=
  match s.find window with
  | none => s
  | some w =>
      if w.floating = true ∧ some w.z ≠ topWindowZ w.manager s.windows ∧ w.fullscreen = none then
        s.raise byZ window w.manager w.fresh
      else s

/-- One round of `initializeStacking`. -/
def stackWindow (s : Stacking) (window : Entity) : Stacking :=
  match s.find window with
  | none => s
  | some w =>
      if w.floating = true ∧ w.fresh = true then s.raise byZ window w.manager false else s

def initializeStacking (s : Stacking) : Stacking :=
  let added := (s.windows.filter fun w => w.floating && w.fresh).mergeSort fun a b => a.id ≤ b.id
  (added.map Window.entity).foldl (stackWindow byZ) s

def requestedMode (action : FullscreenAction) (fullscreen : Option WindowFullscreen) :
    Option FullscreenMode :=
  match action with
  | .disable => none
  | .enable mode => some mode
  | .toggle mode =>
      if fullscreen.any fun state => mode = .normal ∨ state.mode = mode then none else some mode

def request (s : Stacking) (window : Entity) (action : FullscreenAction) : Stacking :=
  match s.find window with
  | none => s
  | some target =>
      match requestedMode action target.fullscreen with
      | none => s.modify window Window.restored
      | some mode =>
          if target.fullscreen.any fun state => state.mode = mode then s
          else
            let s := { s with
              windows := s.windows.map fun (other : Window) =>
                if other.entity ≠ window ∧ other.output = target.output ∧
                    other.workspace = target.workspace then other.restored
                else other }
            let state : WindowFullscreen :=
              match target.fullscreen with
              | none => { mode, restoreZ := target.z }
              | some old => { old with mode }
            s.modify window fun w => { w with fullscreen := some state }

/-- `parked` is what the reconciliation of fullscreen does to a window that is presented. -/
inductive Event
  | opened (window id manager output : Entity) (workspace : Option Entity)
  | floats (window : Entity) (z : ℤ)
  | unfloats (window : Entity) (z : ℤ)
  | managed (window manager output : Entity) (workspace : Option Entity)
  | initialized (window : Entity)
  | activated (window : Entity)
  | requested (window : Entity) (action : FullscreenAction)
  | parked (window : Entity)
  | removed (window : Entity)

def step (s : Stacking) : Event → Stacking
  | .opened window id manager output workspace =>
      match s.find window with
      | some _ => s
      | none =>
          { s with windows := { entity := window, id, manager, output, workspace } :: s.windows }
  | .floats window z => s.modify window fun w => { w with floating := true, fresh := true, z }
  | .unfloats window z => s.modify window fun w => { w with floating := false, z }
  | .managed window manager output workspace =>
      s.modify window fun w => { w with manager, output, workspace, fresh := true }
  | .initialized window => s.stackWindow byZ window
  | .activated window => s.activate byZ window
  | .requested window action => s.request window action
  | .parked window => s.modify window fun w => if w.fullscreen.isSome then { w with z := 0 } else w
  | .removed window => { s with windows := s.windows.filter fun w => w.entity ≠ window }

/-- The pass over the new windows is a run of its rounds. -/
theorem initializeStacking_eq_exec (s : Stacking) : ∃ windows : List Entity,
    s.initializeStacking byZ = exec (step byZ) s (windows.map .initialized) := by
  refine ⟨((s.windows.filter fun w => w.floating && w.fresh).mergeSort fun a b =>
    a.id ≤ b.id).map Window.entity, ?_⟩
  unfold initializeStacking exec
  simp only [List.foldl_map]
  rfl

end Stacking

/-! ### What an allocation does -/

def WindowStack.Valid (stack : WindowStack) : Prop :=
  ∀ next, stack.next = some next → floatZIndexMin ≤ next ∧ next ≤ windowZIndexMax

theorem checkedNext_valid {z : ℤ} (h : floatZIndexMin ≤ z + 1) :
    (⟨checkedNext z⟩ : WindowStack).Valid := by
  intro next hnext
  unfold checkedNext at hnext
  split_ifs at hnext with hle
  · cases hnext
    exact ⟨h, hle⟩

theorem lookup_zip {k : Entity} {keys : List Entity} (hk : k ∈ keys) (values : List ℤ) :
    (keys.zip values).lookup k = values[keys.idxOf k]? := by
  induction keys generalizing values with
  | nil => exact absurd hk List.not_mem_nil
  | cons key keys ih =>
      cases values with
      | nil => simp
      | cons value values =>
          rw [List.zip_cons_cons]
          by_cases heq : k = key
          · subst heq
            simp
          · have hmem : k ∈ keys := (List.mem_cons.mp hk).resolve_left heq
            rw [List.idxOf_cons_ne _ fun h => heq h.symm, List.getElem?_cons_succ, ← ih hmem values]
            rw [List.lookup_cons, beq_false_of_ne heq]

/-- A rebase gives the values from the lowest one on, and leaves the allocator after them. -/
theorem rebaseWindowOrder_spec {order : List ℤ} (h : order.length < 999999) :
    (rebaseWindowOrder order).1 = ⟨some (floatZIndexMin + order.length)⟩ ∧
      ∀ i < order.length, (rebaseWindowOrder order).2[i]? = some (floatZIndexMin + i) := by
  have hvalue : ∀ i < order.length, ((order.mergeSort (· ≤ ·)).mapIdx fun offset _ =>
      min (floatZIndexMin + offset) windowZIndexMax)[i]? = some (floatZIndexMin + i) := by
    intro i hi
    have hsorted : i < (order.mergeSort (· ≤ ·)).length := by rwa [List.length_mergeSort]
    rw [List.getElem?_mapIdx, List.getElem?_eq_getElem hsorted, Option.map_some, min_eq_left]
    unfold floatZIndexMin windowZIndexMin windowZIndexMax
    omega
  have hlast : ((order.mergeSort (· ≤ ·)).mapIdx fun offset _ =>
      min (floatZIndexMin + (offset : ℤ)) windowZIndexMax).getLast? =
        if order.length = 0 then none else some (floatZIndexMin + (order.length - 1 : ℕ)) := by
    rw [List.getLast?_eq_getElem?, List.length_mapIdx, List.length_mergeSort]
    split_ifs with hempty
    · rw [List.getElem?_eq_none]
      simp [hempty]
    · exact hvalue _ (by omega)
  unfold rebaseWindowOrder
  dsimp only
  rw [hlast]
  by_cases hempty : order.length = 0
  · rw [if_pos hempty]
    refine ⟨?_, hvalue⟩
    rw [hempty]
    rfl
  · rw [if_neg hempty]
    refine ⟨?_, hvalue⟩
    have hnext : floatZIndexMin + ((order.length - 1 : ℕ) : ℤ) + 1 =
        floatZIndexMin + (order.length : ℤ) := by omega
    dsimp only
    unfold checkedNext
    rw [hnext, if_pos]
    unfold floatZIndexMin windowZIndexMin windowZIndexMax
    omega

section

variable {byZ} {stack : WindowStack} {manager : Entity} {windows : List Window}

theorem le_topWindowZ {top : ℤ} (h : topWindowZ manager windows = some top) :
    (∃ w ∈ owned manager windows, w.z = top) ∧ ∀ w ∈ owned manager windows, w.z ≤ top := by
  obtain ⟨hmem, hmax⟩ := List.max?_eq_some_iff.mp h
  exact ⟨List.mem_map.mp hmem, fun w hw => hmax _ (List.mem_map_of_mem hw)⟩

theorem topWindowZ_none (h : topWindowZ manager windows = none) : owned manager windows = [] := by
  simpa [topWindowZ] using h

/-- Past the top the next z-order is free. -/
theorem WindowStack.Valid.pass (hstack : stack.Valid) (manager : Entity) (windows : List Window) :
    (stack.pass (topWindowZ manager windows)).Valid ∧
      (∀ z, (stack.pass (topWindowZ manager windows)).next = some z →
        ∀ w ∈ owned manager windows, w.z < z) ∧
      ∀ next, stack.next = some next → (∀ w ∈ owned manager windows, w.z < windowZIndexMax) →
        ∃ z, (stack.pass (topWindowZ manager windows)).next = some z ∧ next ≤ z := by
  unfold WindowStack.pass
  cases htop : topWindowZ manager windows with
  | none =>
      have hempty := topWindowZ_none htop
      refine ⟨hstack, fun z _ w hw => ?_, fun next hnext _ => ⟨next, hnext, le_refl next⟩⟩
      rw [hempty] at hw
      exact absurd hw List.not_mem_nil
  | some top =>
      obtain ⟨⟨last, hlast, hlastTop⟩, hle⟩ := le_topWindowZ htop
      cases hnext : stack.next with
      | none =>
          refine ⟨hstack, fun z hz => ?_, fun next h => by cases h⟩
          rw [hnext] at hz
          cases hz
      | some next =>
          have hvalid := hstack next hnext
          dsimp only
          split_ifs with hbelow
          · refine ⟨checkedNext_valid (by omega), fun z hz w hw => ?_, fun old hold hroom => ?_⟩
            · have hw := hle w hw
              unfold checkedNext at hz
              split_ifs at hz
              cases hz
              omega
            · cases hold
              have hlt := hroom last hlast
              refine ⟨top + 1, ?_, by omega⟩
              change checkedNext top = some (top + 1)
              unfold checkedNext
              rw [if_pos (by omega)]
          · refine ⟨hstack, fun z hz w hw => ?_, fun old hold _ => ⟨next, hnext, ?_⟩⟩
            · have hw := hle w hw
              rw [hnext] at hz
              cases hz
              omega
            · cases hold
              exact le_refl next

/-- What an allocation for a manager returns, and the z-orders `ρ` it leaves to the windows. -/
structure Allocates (stack : WindowStack) (manager : Entity) (windows : List Window) (z : ℤ)
    (after : WindowStack) (ρ : Window → ℤ) : Prop where
  valid : after.Valid
  range : floatZIndexMin ≤ z ∧ z ≤ windowZIndexMax
  others : ∀ w ∈ windows, ¬ w.OwnedBy manager → ρ w = w.z
  above : ∀ w ∈ owned manager windows, ρ w < z
  order : ∀ a ∈ owned manager windows, ∀ b ∈ owned manager windows, a.z < b.z → ρ a < ρ b
  bounds : ∀ w ∈ owned manager windows, floatZIndexMin ≤ w.z → w.z ≤ windowZIndexMax →
    floatZIndexMin ≤ ρ w ∧ ρ w ≤ windowZIndexMax
  free : ∀ next, stack.next = some next → (∀ w ∈ owned manager windows, w.z < windowZIndexMax) →
    (∀ w ∈ windows, ρ w = w.z) ∧ next ≤ z

theorem nodup_owned (hentity : (windows.map Window.entity).Nodup) :
    ((owned manager windows).map Window.entity).Nodup :=
  hentity.sublist (List.filter_sublist.map _)

theorem mem_owned {w : Window} : w ∈ owned manager windows ↔ w ∈ windows ∧ w.OwnedBy manager := by
  simp [owned]

/-- A window at a place of the sorted list takes the value at that place. -/
theorem writeBack_at {sorted : List Window} (hentity : (sorted.map Window.entity).Nodup)
    (values : List ℤ) {i : ℕ} (hi : i < sorted.length) :
    ((sorted.map Window.entity).zip values).lookup sorted[i].entity = values[i]? := by
  have hi' : i < (sorted.map Window.entity).length := by rwa [List.length_map]
  have hkey : sorted[i].entity = (sorted.map Window.entity)[i] := by simp
  rw [lookup_zip (List.mem_map_of_mem (List.getElem_mem hi)), hkey, hentity.idxOf_getElem]

variable (byZ) in
/-- An allocation leaves the windows in their order, below the z-order that it returns. -/
theorem nextWindowZ_spec (hstack : stack.Valid)
    (hroom : (owned manager windows).length < 999999)
    (hentity : (windows.map Window.entity).Nodup) :
    ∃ z after ρ, nextWindowZ byZ stack manager windows =
        (z, after, windows.map fun w => { w with z := ρ w }) ∧
      Allocates stack manager windows z after ρ := by
  obtain ⟨hvalid, habove, hfree⟩ := hstack.pass manager windows
  cases hnext : (stack.pass (topWindowZ manager windows)).next with
  | some z =>
      have hrange := hvalid z hnext
      refine ⟨z, ⟨checkedNext z⟩, Window.z, ?_, ?_⟩
      · unfold nextWindowZ WindowStack.allocate
        rw [hnext]
        exact congrArg (fun windows => (z, _, windows)) (List.map_id windows).symm
      · refine ⟨checkedNext_valid (by omega), hrange, fun _ _ _ => rfl, habove z hnext,
          fun _ _ _ _ h => h, fun _ _ hmin hmax => ⟨hmin, hmax⟩, fun next hold hbelow => ?_⟩
        obtain ⟨found, hfound, hle⟩ := hfree next hold hbelow
        rw [hnext] at hfound
        cases hfound
        exact ⟨fun _ _ => rfl, hle⟩
  | none =>
      -- The stack is used up: the sorted windows of the manager take the lowest values.
      have hlength : ((owned manager windows).map Window.z).length < 999999 := by
        rwa [List.length_map]
      obtain ⟨hafter, hvalues⟩ := rebaseWindowOrder_spec hlength
      rw [List.length_map] at hafter hvalues
      set sorted := byZ.sort (owned manager windows)
      set values := (rebaseWindowOrder ((owned manager windows).map Window.z)).2
      have hperm : sorted.Perm (owned manager windows) := byZ.perm _
      have hkeys : (sorted.map Window.entity).Nodup :=
        (hperm.map _).nodup_iff.mpr (nodup_owned hentity)
      have hat : ∀ w ∈ owned manager windows, ∃ i, ∃ hi : i < sorted.length, sorted[i] = w ∧
          (((sorted.map Window.entity).zip values).lookup w.entity).getD w.z =
            floatZIndexMin + i := by
        intro w hw
        obtain ⟨i, hi, rfl⟩ := List.getElem_of_mem (hperm.mem_iff.mpr hw)
        refine ⟨i, hi, rfl, ?_⟩
        rw [writeBack_at hkeys values hi, hvalues i (hperm.length_eq ▸ hi)]
        rfl
      have hmin : floatZIndexMin = 1 := rfl
      have hmax : windowZIndexMax = 999999 := rfl
      refine ⟨floatZIndexMin + (owned manager windows).length,
        ⟨checkedNext (floatZIndexMin + (owned manager windows).length)⟩,
        fun w => (((sorted.map Window.entity).zip values).lookup w.entity).getD w.z, ?_, ?_⟩
      · unfold nextWindowZ
        rw [show (stack.pass (topWindowZ manager windows)).allocate = (none, _) by
          unfold WindowStack.allocate
          rw [hnext]]
        dsimp only
        rw [hafter]
        rfl
      · refine ⟨checkedNext_valid (by omega), by omega, ?_, ?_, ?_, ?_, ?_⟩
        · intro w hw hother
          have hkey : w.entity ∉ sorted.map Window.entity := by
            intro hmem
            obtain ⟨v, hv, heq⟩ := List.mem_map.mp hmem
            obtain ⟨hv, howned⟩ := mem_owned.mp (hperm.mem_iff.mp hv)
            rw [List.inj_on_of_nodup_map hentity hv hw heq] at howned
            exact hother howned
          have hnone : ((sorted.map Window.entity).zip values).lookup w.entity = none := by
            rw [List.lookup_eq_none_iff]
            rintro ⟨key, value⟩ hpair
            have hmem := (List.of_mem_zip hpair).1
            exact bne_iff_ne.mpr fun heq => hkey (heq ▸ hmem)
          rw [hnone]
          rfl
        · intro w hw
          obtain ⟨i, hi, -, heq⟩ := hat w hw
          rw [heq]
          have := hperm.length_eq
          omega
        · intro a ha b hb hlt
          obtain ⟨i, hi, hia, hρa⟩ := hat a ha
          obtain ⟨j, hj, hjb, hρb⟩ := hat b hb
          rw [hρa, hρb]
          have hij : i < j := by
            by_contra hle
            obtain rfl | hji := Nat.eq_or_lt_of_le (Nat.le_of_not_lt hle)
            · rw [hia.symm.trans hjb] at hlt
              exact lt_irrefl _ hlt
            · have hsort := List.pairwise_iff_getElem.mp (byZ.sorted _) j i hj hi hji
              rw [hia, hjb] at hsort
              omega
          omega
        · intro w hw _ _
          obtain ⟨i, hi, -, heq⟩ := hat w hw
          rw [heq]
          have := hperm.length_eq
          omega
        · intro next hold hbelow
          obtain ⟨z, hz, -⟩ := hfree next hold hbelow
          rw [hnext] at hz
          cases hz

end

/-! ### What every run keeps -/

namespace Stacking

/-- Initialised windows of one manager are in the order of their last raise. -/
def Apart (a b : Window) : Prop :=
  a.entity ≠ b.entity ∧ (a.Settled → b.Settled → a.manager = b.manager →
    (a.raised < b.raised ∧ a.rank < b.rank) ∨ (b.raised < a.raised ∧ b.rank < a.rank))

structure Stacked (s : Stacking) : Prop where
  apart : s.windows.Pairwise Apart
  range : ∀ w ∈ s.windows, w.Settled → floatZIndexMin ≤ w.rank ∧ w.rank ≤ windowZIndexMax
  past : ∀ w ∈ s.windows, w.raised < s.clock
  stack : s.stack.Valid
  started : 0 < s.clock

/-- Fewer windows of a manager than z-orders. -/
def Roomy (s : Stacking) : Prop := ∀ manager, (owned manager s.windows).length < 999999

/-- The allocator finds a z-order above what the fullscreen windows of the manager get back. -/
def HeadRoom (s : Stacking) (manager : Entity) : Prop :=
  ∀ w ∈ owned manager s.windows, w.fresh = false → ∀ state, w.fullscreen = some state →
    ∃ next, s.stack.next = some next ∧
      (∀ v ∈ owned manager s.windows, v.z < windowZIndexMax) ∧
      (state.restoreZ < next ∨ ∃ v ∈ owned manager s.windows, state.restoreZ ≤ v.z)

/-- No window is initialised in fullscreen, and an allocation has headroom. -/
def Allowed (s : Stacking) : Event → Prop
  | .initialized window => ∀ w, s.find window = some w → w.floating = true → w.fresh = true →
      w.fullscreen = none ∧ s.HeadRoom w.manager
  | .activated window => ∀ w, s.find window = some w → w.floating = true →
      some w.z ≠ topWindowZ w.manager s.windows → w.fullscreen = none → s.HeadRoom w.manager
  | _ => True

section

variable {byZ} {s : Stacking} {w : Window}

theorem find_some {window : Entity} (h : s.find window = some w) :
    w ∈ s.windows ∧ w.entity = window :=
  ⟨List.mem_of_find?_eq_some h, by simpa using List.find?_some h⟩

theorem Stacked.nodup (h : s.Stacked) : (s.windows.map Window.entity).Nodup :=
  List.pairwise_map.mpr (h.apart.imp fun hapart => hapart.1)

instance : Std.Symm Apart :=
  ⟨fun _ _ h => ⟨h.1.symm, fun hb ha heq => (h.2 ha hb heq.symm).symm⟩⟩

theorem Stacked.apart_of_ne (h : s.Stacked) {a b : Window} (ha : a ∈ s.windows)
    (hb : b ∈ s.windows) (hne : a.entity ≠ b.entity) : Apart a b :=
  h.apart.forall ha hb fun heq => hne (congrArg Window.entity heq)

/-- An edit that only ever takes windows out of the order. -/
theorem Stacked.map (h : s.Stacked) {f : Window → Window}
    (hentity : ∀ w, (f w).entity = w.entity ∧ (f w).raised = w.raised)
    (hkeep : ∀ w ∈ s.windows, (f w).Settled →
      w.Settled ∧ (f w).manager = w.manager ∧ (f w).rank = w.rank) :
    Stacked { s with windows := s.windows.map f } where
  apart := by
    refine List.pairwise_map.mpr (h.apart.imp_of_mem ?_)
    intro a b ha hb hapart
    refine ⟨?_, fun hsa hsb heq => ?_⟩
    · rw [(hentity a).1, (hentity b).1]
      exact hapart.1
    · obtain ⟨hsa, hma, hra⟩ := hkeep a ha hsa
      obtain ⟨hsb, hmb, hrb⟩ := hkeep b hb hsb
      rw [hma, hmb] at heq
      rw [(hentity a).2, (hentity b).2, hra, hrb]
      exact hapart.2 hsa hsb heq
  range := by
    intro v hv hsettled
    obtain ⟨w, hw, rfl⟩ := List.mem_map.mp hv
    obtain ⟨hsettled, -, hrank⟩ := hkeep w hw hsettled
    rw [hrank]
    exact h.range w hw hsettled
  past := by
    intro v hv
    obtain ⟨w, hw, rfl⟩ := List.mem_map.mp hv
    rw [(hentity w).2]
    exact h.past w hw
  stack := h.stack
  started := h.started

theorem Stacked.modify (h : s.Stacked) (window : Entity) {f : Window → Window}
    (hentity : ∀ w, (f w).entity = w.entity ∧ (f w).raised = w.raised)
    (hkeep : ∀ w ∈ s.windows, w.entity = window → (f w).Settled →
      w.Settled ∧ (f w).manager = w.manager ∧ (f w).rank = w.rank) :
    (s.modify window f).Stacked := by
  refine h.map (fun w => ?_) fun w hw => ?_
  · split_ifs
    · exact hentity w
    · exact ⟨rfl, rfl⟩
  · split_ifs with heq
    · exact hkeep w hw heq
    · exact fun hsettled => ⟨hsettled, rfl, rfl⟩

theorem restored_spec (w : Window) : w.restored.entity = w.entity ∧ w.restored.raised = w.raised ∧
    w.restored.manager = w.manager ∧ w.restored.rank = w.rank ∧
    (w.restored.Settled ↔ w.Settled) := by
  unfold Window.restored Window.rank Window.Settled
  cases hfullscreen : w.fullscreen with
  | none => simp [hfullscreen]
  | some state => simp

/-- Fullscreen keeps the order of what is restored. -/
theorem Stacked.request (h : s.Stacked) (window : Entity) (action : FullscreenAction) :
    (s.request window action).Stacked := by
  have hrestored : ∀ w : Window, w.restored.entity = w.entity ∧ w.restored.raised = w.raised :=
    fun w => ⟨(restored_spec w).1, (restored_spec w).2.1⟩
  have hkept : ∀ w : Window, w.restored.Settled →
      w.Settled ∧ w.restored.manager = w.manager ∧ w.restored.rank = w.rank := fun w hsettled =>
    ⟨(restored_spec w).2.2.2.2.mp hsettled, (restored_spec w).2.2.1, (restored_spec w).2.2.2.1⟩
  unfold Stacking.request
  cases hfind : s.find window with
  | none => exact h
  | some target =>
      obtain ⟨htarget, hwindow⟩ := find_some hfind
      dsimp only
      cases requestedMode action target.fullscreen with
      | none => exact h.modify window hrestored fun w _ _ => hkept w
      | some mode =>
          dsimp only
          by_cases hsame : (target.fullscreen.any fun state => state.mode = mode) = true
          · rw [if_pos hsame]
            exact h
          · rw [if_neg hsame]
            have hothers := h.map (f := fun other =>
              if other.entity ≠ window ∧ other.output = target.output ∧
                other.workspace = target.workspace then other.restored else other)
              (fun w => by split_ifs; exacts [hrestored w, ⟨rfl, rfl⟩])
              (fun w _ => by split_ifs; exacts [hkept w, fun hsettled => ⟨hsettled, rfl, rfl⟩])
            refine hothers.modify window (fun w => ⟨rfl, rfl⟩) fun w hw heq hsettled => ?_
            refine ⟨hsettled, rfl, ?_⟩
            obtain ⟨v, hv, rfl⟩ := List.mem_map.mp hw
            have hself : v.entity = window := by
              split_ifs at heq
              exacts [(hrestored v).1.symm.trans heq, heq]
            rw [if_neg fun hother => hother.1 hself]
            obtain rfl : v = target :=
              List.inj_on_of_nodup_map h.nodup hv htarget (hself.trans hwindow.symm)
            unfold Window.rank
            cases v.fullscreen with
            | none | some => rfl

/-- What an allocation with headroom does to the ranks: it keeps the order of every manager, and its
z-order is above the manager's ranks. -/
theorem Stacked.allocates (h : s.Stacked) {manager : Entity} (hroom : s.HeadRoom manager)
    {z : ℤ} {after : WindowStack} {ρ : Window → ℤ}
    (hz : Allocates s.stack manager s.windows z after ρ) :
    (∀ a ∈ s.windows, ∀ b ∈ s.windows, a.Settled → b.Settled → a.manager = b.manager →
        a.rank < b.rank → ({ a with z := ρ a } : Window).rank < ({ b with z := ρ b } : Window).rank) ∧
      ∀ a ∈ s.windows, a.Settled →
        (floatZIndexMin ≤ ({ a with z := ρ a } : Window).rank ∧
          ({ a with z := ρ a } : Window).rank ≤ windowZIndexMax) ∧
        (a.manager = manager → ({ a with z := ρ a } : Window).rank < z) := by
  have hrank : ∀ a : Window, a.fullscreen = none → a.rank = a.z ∧
      ({ a with z := ρ a } : Window).rank = ρ a := by
    intro a hshown
    unfold Window.rank
    rw [hshown]
    exact ⟨rfl, rfl⟩
  have hsame : ∀ a : Window, ρ a = a.z → ({ a with z := ρ a } : Window).rank = a.rank := by
    intro a heq
    rw [heq]
  by_cases hfull : ∃ w ∈ owned manager s.windows, w.fresh = false ∧ w.fullscreen ≠ none
  · -- With a fullscreen window of the manager nothing is rebased.
    obtain ⟨w, hw, hsettled, hstate⟩ := hfull
    obtain ⟨state, hstate⟩ := Option.ne_none_iff_exists'.mp hstate
    obtain ⟨next, hnext, hbelow, -⟩ := hroom w hw hsettled state hstate
    obtain ⟨hkept, hle⟩ := hz.free next hnext hbelow
    refine ⟨fun a ha b hb _ _ _ hlt => ?_, fun a ha hsettled => ?_⟩
    · rw [hsame a (hkept a ha), hsame b (hkept b hb)]
      exact hlt
    · rw [hsame a (hkept a ha)]
      refine ⟨h.range a ha hsettled, fun heq => ?_⟩
      have hmem : a ∈ owned manager s.windows := mem_owned.mpr ⟨ha, hsettled.1, heq⟩
      cases hfullscreen : a.fullscreen with
      | none =>
          rw [(hrank a hfullscreen).1, ← hkept a ha]
          exact hz.above a hmem
      | some old =>
          obtain ⟨next', hnext', -, hcovered⟩ := hroom a hmem hsettled.2 old hfullscreen
          obtain rfl : next' = next := Option.some.inj (hnext'.symm.trans hnext)
          have holdrank : a.rank = old.restoreZ := by
            unfold Window.rank
            rw [hfullscreen]
            rfl
          rw [holdrank]
          obtain hlt | ⟨v, hv, hlev⟩ := hcovered
          · exact lt_of_lt_of_le hlt hle
          · have hlt := hz.above v hv
            rw [hkept v (mem_owned.mp hv).1] at hlt
            exact lt_of_le_of_lt hlev hlt
  · have hnone : ∀ a ∈ owned manager s.windows, a.Settled → a.fullscreen = none := by
      intro a ha hsettled
      by_contra hne
      exact hfull ⟨a, ha, hsettled.2, hne⟩
    refine ⟨fun a ha b hb hsa hsb heq hlt => ?_, fun a ha hsettled => ?_⟩
    · by_cases hmanager : a.manager = manager
      · have hma := mem_owned.mpr ⟨ha, hsa.1, hmanager⟩
        have hmb := mem_owned.mpr ⟨hb, hsb.1, heq.symm.trans hmanager⟩
        obtain ⟨hra, hra'⟩ := hrank a (hnone a hma hsa)
        obtain ⟨hrb, hrb'⟩ := hrank b (hnone b hmb hsb)
        rw [hra, hrb] at hlt
        rw [hra', hrb']
        exact hz.order a hma b hmb hlt
      · rw [hsame a (hz.others a ha fun h => hmanager h.2),
          hsame b (hz.others b hb fun h => hmanager (heq.trans h.2))]
        exact hlt
    · by_cases hmanager : a.manager = manager
      · have hma := mem_owned.mpr ⟨ha, hsettled.1, hmanager⟩
        obtain ⟨hra, hra'⟩ := hrank a (hnone a hma hsettled)
        have hrange := h.range a ha hsettled
        rw [hra] at hrange
        rw [hra']
        exact ⟨hz.bounds a hma hrange.1 hrange.2, fun _ => hz.above a hma⟩
      · rw [hsame a (hz.others a ha fun h => hmanager h.2)]
        exact ⟨h.range a ha hsettled, fun heq => absurd heq hmanager⟩

theorem raise_eq {window manager : Entity} {z : ℤ} {after : WindowStack} {ρ : Window → ℤ}
    {fresh : Bool} (hnext : nextWindowZ byZ s.stack manager s.windows =
      (z, after, s.windows.map fun w => { w with z := ρ w })) :
    s.raise byZ window manager fresh =
      { windows := s.windows.map fun a =>
          if a.entity = window then { a with z, fresh, raised := s.clock } else { a with z := ρ a }
        stack := after
        clock := s.clock + 1 } := by
  unfold Stacking.raise
  rw [hnext]
  unfold Stacking.modify
  dsimp only
  rw [List.map_map]
  rfl

/-- **A raise puts the window above its manager's windows.** -/
theorem Stacked.raise (h : s.Stacked) (hroomy : s.Roomy) (hw : w ∈ s.windows)
    (hshown : w.fullscreen = none) (hroom : s.HeadRoom w.manager) (fresh : Bool) :
    (s.raise byZ w.entity w.manager fresh).Stacked := by
  obtain ⟨z, after, ρ, hnext, hz⟩ :=
    nextWindowZ_spec byZ h.stack (hroomy w.manager) h.nodup
  obtain ⟨horder, hrank⟩ := h.allocates hroom hz
  have hself : ∀ a ∈ s.windows, a.entity = w.entity → a = w := fun a ha heq =>
    List.inj_on_of_nodup_map h.nodup ha hw heq
  rw [raise_eq hnext]
  have hraised : ({ w with z, fresh, raised := s.clock } : Window).rank = z := by
    rw [hshown]
    rfl
  refine ⟨?_, ?_, ?_, hz.valid, Nat.succ_pos _⟩
  · refine List.pairwise_map.mpr (h.apart.imp_of_mem ?_)
    intro a b ha hb hapart
    -- The raised window is later and higher than any other of its manager.
    have habove : ∀ v ∈ s.windows, v.Settled → v.manager = w.manager →
        v.raised < s.clock ∧ ({ v with z := ρ v } : Window).rank < z := fun v hv hsettled heq =>
      ⟨h.past v hv, (hrank v hv hsettled).2 heq⟩
    by_cases hwa : a.entity = w.entity
    · obtain rfl := hself a ha hwa
      have hwb : ¬ b.entity = a.entity := fun heq => hapart.1 heq.symm
      rw [if_pos rfl, if_neg hwb]
      refine ⟨hapart.1, fun _ hsb heq => .inr ?_⟩
      rw [hraised]
      exact habove b hb hsb heq.symm
    · by_cases hwb : b.entity = w.entity
      · obtain rfl := hself b hb hwb
        rw [if_neg hwa, if_pos rfl]
        refine ⟨hapart.1, fun hsa _ heq => .inl ?_⟩
        rw [hraised]
        exact habove a ha hsa heq
      · rw [if_neg hwa, if_neg hwb]
        refine ⟨hapart.1, fun hsa hsb heq => ?_⟩
        obtain ⟨hlt, hranks⟩ | ⟨hlt, hranks⟩ := hapart.2 hsa hsb heq
        · exact .inl ⟨hlt, horder a ha b hb hsa hsb heq hranks⟩
        · exact .inr ⟨hlt, horder b hb a ha hsb hsa heq.symm hranks⟩
  · intro v hv hsettled
    obtain ⟨a, ha, rfl⟩ := List.mem_map.mp hv
    by_cases hwa : a.entity = w.entity
    · obtain rfl := hself a ha hwa
      rw [if_pos rfl, hraised]
      exact hz.range
    · rw [if_neg hwa] at hsettled ⊢
      exact (hrank a ha hsettled).1
  · intro v hv
    obtain ⟨a, ha, rfl⟩ := List.mem_map.mp hv
    have hpast := h.past a ha
    split_ifs
    · exact Nat.lt_succ_self _
    · exact Nat.lt_succ_of_lt hpast

theorem Stacked.step (h : s.Stacked) (hroomy : s.Roomy) (e : Event) (hallowed : s.Allowed e) :
    (s.step byZ e).Stacked := by
  cases e with
  | opened window id manager output workspace =>
      unfold Stacking.step
      dsimp only
      cases hfind : s.find window with
      | some w => exact h
      | none =>
          have hother : ∀ w ∈ s.windows, w.entity ≠ window := by
            intro w hw heq
            have := List.find?_eq_none.mp hfind w hw
            simp [heq] at this
          refine ⟨List.pairwise_cons.mpr ⟨fun w hw => ?_, h.apart⟩, fun w hw hsettled => ?_,
            fun w hw => ?_, h.stack, h.started⟩
          · exact ⟨(hother w hw).symm, fun hsettled => by cases hsettled.1⟩
          · obtain rfl | hw := List.mem_cons.mp hw
            · cases hsettled.1
            · exact h.range w hw hsettled
          · obtain rfl | hw := List.mem_cons.mp hw
            · exact h.started
            · exact h.past w hw
  | floats window z =>
      exact h.modify window (fun _ => ⟨rfl, rfl⟩) fun _ _ _ hsettled => by cases hsettled.2
  | unfloats window z =>
      exact h.modify window (fun _ => ⟨rfl, rfl⟩) fun _ _ _ hsettled => by cases hsettled.1
  | managed window manager output workspace =>
      exact h.modify window (fun _ => ⟨rfl, rfl⟩) fun _ _ _ hsettled => by cases hsettled.2
  | initialized window =>
      unfold Stacking.step stackWindow
      dsimp only
      cases hfind : s.find window with
      | none => exact h
      | some w =>
          dsimp only
          split_ifs with hfresh
          · obtain ⟨hw, rfl⟩ := find_some hfind
            obtain ⟨hshown, hroom⟩ := hallowed w hfind hfresh.1 hfresh.2
            exact h.raise hroomy hw hshown hroom false
          · exact h
  | activated window =>
      unfold Stacking.step activate
      dsimp only
      cases hfind : s.find window with
      | none => exact h
      | some w =>
          dsimp only
          split_ifs with hraised
          · obtain ⟨hw, rfl⟩ := find_some hfind
            obtain ⟨hfloating, htop, hshown⟩ := hraised
            exact h.raise hroomy hw hshown (hallowed w hfind hfloating htop hshown) w.fresh
          · exact h
  | requested window action => exact h.request window action
  | parked window =>
      refine h.modify window (fun w => by split_ifs <;> exact ⟨rfl, rfl⟩) fun w _ _ => ?_
      split_ifs with hfull
      · refine fun hsettled => ⟨hsettled, rfl, ?_⟩
        obtain ⟨state, hstate⟩ := Option.isSome_iff_exists.mp hfull
        unfold Window.rank
        rw [hstate]
        rfl
      · exact fun hsettled => ⟨hsettled, rfl, rfl⟩
  | removed window =>
      exact ⟨h.apart.filter _, fun w hw => h.range w (List.mem_of_mem_filter hw),
        fun w hw => h.past w (List.mem_of_mem_filter hw), h.stack, h.started⟩

theorem stacked_start : ({} : Stacking).Stacked where
  apart := .nil
  range := fun _ hw => absurd hw List.not_mem_nil
  past := fun _ hw => absurd hw List.not_mem_nil
  stack := by
    rintro next ⟨⟩
    decide
  started := Nat.one_pos

theorem shown_rank (h : w.Shown) : w.rank = w.z := by
  unfold Window.rank
  rw [h.2]
  rfl

/-- **An activated window is above its manager's windows.** -/
theorem Stacked.activated (h : s.Stacked) (hroomy : s.Roomy) (hw : w ∈ s.windows) (hshown : w.Shown) :
    ∀ a ∈ (s.activate byZ w.entity).windows, a.entity = w.entity →
    ∀ b ∈ (s.activate byZ w.entity).windows, b.Shown → b.manager = w.manager →
      b.entity ≠ w.entity → b.z < a.z := by
  have hfind : s.find w.entity = some w := by
    cases hfound : s.find w.entity with
    | none =>
        have := List.find?_eq_none.mp hfound w hw
        simp at this
    | some v =>
        obtain ⟨hv, heq⟩ := find_some hfound
        rw [List.inj_on_of_nodup_map h.nodup hv hw heq]
  unfold activate
  rw [hfind]
  dsimp only
  by_cases hraised : w.floating = true ∧ some w.z ≠ topWindowZ w.manager s.windows ∧
      w.fullscreen = none
  · rw [if_pos hraised]
    obtain ⟨z, after, ρ, hnext, hz⟩ := nextWindowZ_spec byZ h.stack (hroomy w.manager) h.nodup
    rw [raise_eq hnext]
    intro a ha heq b hb hshown hmanager hne
    obtain ⟨a, -, rfl⟩ := List.mem_map.mp ha
    obtain ⟨b, hmem, rfl⟩ := List.mem_map.mp hb
    have ha : a.entity = w.entity := by
      split_ifs at heq
      exacts [heq, heq]
    have hb' : ¬ b.entity = w.entity := by
      split_ifs at hne
      exacts [hne, hne]
    rw [if_neg hb'] at hshown hmanager ⊢
    rw [if_pos ha]
    exact hz.above b (mem_owned.mpr ⟨hmem, hshown.1.1, hmanager⟩)
  · rw [if_neg hraised]
    intro a ha heq b hb hbshown hmanager hne
    obtain rfl : a = w := List.inj_on_of_nodup_map h.nodup ha hw heq
    have htop : topWindowZ a.manager s.windows = some a.z := by
      by_contra hne
      exact hraised ⟨hshown.1.1, fun heq => hne heq.symm, hshown.2⟩
    have hle := (le_topWindowZ htop).2 b (mem_owned.mpr ⟨hb, hbshown.1.1, hmanager⟩)
    have hranks := (h.apart_of_ne hb ha hne).2 hbshown.1 hshown.1 hmanager
    rw [shown_rank hbshown, shown_rank hshown] at hranks
    omega

/-- **A rebase keeps the order of every manager.** -/
theorem Stacked.rebased (h : s.Stacked) (hroomy : s.Roomy) (manager : Entity) {a b : Window}
    (ha : a ∈ s.windows) (hb : b ∈ s.windows) (hfa : a.floating = true) (hfb : b.floating = true)
    (heq : a.manager = b.manager) (hlt : a.z < b.z) :
    ∀ a' ∈ (nextWindowZ byZ s.stack manager s.windows).2.2, a'.entity = a.entity →
    ∀ b' ∈ (nextWindowZ byZ s.stack manager s.windows).2.2, b'.entity = b.entity → a'.z < b'.z := by
  obtain ⟨z, after, ρ, hnext, hz⟩ := nextWindowZ_spec byZ h.stack (hroomy manager) h.nodup
  rw [hnext]
  intro a' ha' hea b' hb' heb
  obtain ⟨v, hv, rfl⟩ := List.mem_map.mp ha'
  obtain ⟨u, hu, rfl⟩ := List.mem_map.mp hb'
  obtain rfl : v = a := List.inj_on_of_nodup_map h.nodup hv ha hea
  obtain rfl : u = b := List.inj_on_of_nodup_map h.nodup hu hb heb
  by_cases hmanager : v.manager = manager
  · exact hz.order v (mem_owned.mpr ⟨hv, hfa, hmanager⟩) u
      (mem_owned.mpr ⟨hu, hfb, heq.symm.trans hmanager⟩) hlt
  · change ρ v < ρ u
    rw [hz.others v hv fun h => hmanager h.2, hz.others u hu fun h => hmanager (heq.trans h.2)]
    exact hlt

end

end Stacking

open Stacking

/-- A stable sort by z-order is one of them. -/
def UnstableSort.insertion : UnstableSort where
  sort := List.insertionSort fun a b => a.z ≤ b.z
  perm := List.perm_insertionSort _
  sorted := by
    have : Std.Total fun a b : Window => a.z ≤ b.z := ⟨fun a b => le_total a.z b.z⟩
    have : IsTrans Window fun a b => a.z ≤ b.z := ⟨fun a b c => le_trans⟩
    exact List.pairwise_insertionSort _

/-- A window of manager 10 goes fullscreen, moves to manager 20, where it is initialised, and leaves
fullscreen. -/
def transferInFullscreen : List Event :=
  [.opened 1 1 10 5 none, .opened 2 2 20 5 (some 20), .floats 1 1, .initialized 1, .floats 2 1,
    .initialized 2, .requested 1 (.enable .normal), .parked 1, .managed 1 20 5 (some 20),
    .initialized 1, .parked 1, .requested 1 .disable]

end Floating
