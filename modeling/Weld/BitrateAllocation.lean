/-
**Dividing a bitrate among encoder streams.**

`budget/allocation.rs` of `weld-hoist-encoded` divides the target of a pool twice: among the groups
of streams, and within each group among its streams.  Every stream gets at least its minimum.  A
stream that has a rate keeps it unless a change is worth a new encoder, so the ideal shares are only
approached: some streams give up what they have beyond their share until the others' worthwhile
increases fit.

Sums that Rust takes in 128 bits are natural numbers here; conversions back to 64 bits are of
quantities that do not exceed the target.

Main definitions: `EncoderBitrateLimits`, `AllocationGroup`, `AllocationInput`, `waterfill`,
`allocate`.

Main results:

* `allocate_isOk` — **where the minima fit, an allocation exists, gives every stream a rate
  within its limits, and stays within the target**.
-/

import Mathlib.Algebra.BigOperators.Fin
import Mathlib.Algebra.Order.BigOperators.Group.Finset
import Weld.Activity
import Weld.Waterfill

namespace Encoded

open Client Gamepad Hoist

/-! ### Limits and groups -/

/-- The rates an encoder accepts. -/
structure EncoderBitrateLimits where
  minimum : ℕ
  initial : ℕ
  maximum : ℕ
  positive : 0 < minimum
  minimum_le : minimum ≤ initial
  initial_le : initial ≤ maximum
  deriving DecidableEq

/-- The bitrate is one an encoder accepts. -/
def EncoderBitrateLimits.Valid (limits : EncoderBitrateLimits) (bitrate : ℕ) : Prop :=
  limits.minimum ≤ bitrate ∧ bitrate ≤ limits.maximum

instance (limits : EncoderBitrateLimits) (bitrate : ℕ) : Decidable (limits.Valid bitrate) :=
  inferInstanceAs (Decidable (_ ∧ _))

abbrev MediaStreamId := ℕ

/-- A stream of a port. -/
abbrev StreamKey := ℕ × MediaStreamId

/-- What shares in the bitrate of a port as one: a window, or what a presenter declared to belong
together. -/
inductive AllocationGroup
  | window (group : Group)
  | presentation (client : ClientId) (id : PresentationGroupId)
  deriving DecidableEq

def AllocationGroup.new (group : Group) (preference : Option SurfaceBitratePreference) :
    AllocationGroup :=
  match preference with
  | none => .window group
  | some preference => .presentation group.root.client preference.group

/-- The order of groups, as that of lists of numbers. -/
def AllocationGroup.order : AllocationGroup → List ℕ
  | .window group =>
      [0, group.session, group.root.client.source, group.root.client.localId, group.root.localId]
  | .presentation client id => [1, client.source, client.localId, id.raw]

/-- The reasons for which the shared budget refuses an operation. -/
inductive BudgetError
  | insufficient (target required : ℕ)
  | zeroPixels
  | areaOverflow
  | doesNotFit
  | outsideRange
  | zeroTarget
  | retired
  | portsExhausted
  | disconnected
  | owned
  | streamsRegistered
  deriving DecidableEq, Repr

structure AllocationInput where
  key : StreamKey
  group : ℕ × AllocationGroup
  pixels : ℕ
  areaWeight : ℕ
  limits : EncoderBitrateLimits
  current : Option ℕ
  weight : ℕ

def rateStep : ℕ := 64000

/-! ### Shares -/

structure Share where
  minimum : ℕ
  maximum : ℕ
  weight : ℕ
  deriving DecidableEq, Repr

/-- Reserve the minima, and fill up the shares with what remains. -/
def waterfill (target : ℕ) (shares : List Share) : Except BudgetError (List ℕ) :=
  if target < (shares.map (·.minimum)).sum then
    .error (.insufficient target (shares.map (·.minimum)).sum)
  else
    .ok ((Waterfill.fill (target - (shares.map (·.minimum)).sum)
      (shares.map fun share => ⟨share.minimum, share.maximum, share.weight⟩)).map (·.level))

/-- **Where the minima fit, filling succeeds**: every share gets a rate between its bounds, and all
together stay within the target. -/
theorem waterfill_isOk {target : ℕ} {shares : List Share}
    (hfits : (shares.map (·.minimum)).sum ≤ target)
    (hbounds : ∀ share ∈ shares, share.minimum ≤ share.maximum) :
    ∃ rates, waterfill target shares = .ok rates ∧ rates.sum ≤ target ∧
      List.Forall₂ (fun share rate => share.minimum ≤ rate ∧ rate ≤ share.maximum) shares rates := by
  let vessels := shares.map fun share => (⟨share.minimum, share.maximum, share.weight⟩ :
    Waterfill.Vessel)
  have hlevel : Waterfill.level vessels = (shares.map (·.minimum)).sum := by
    simp [vessels, Waterfill.level, Function.comp_def]
  refine ⟨(Waterfill.fill (target - (shares.map (·.minimum)).sum) vessels).map (·.level),
    by rw [waterfill, if_neg (Nat.not_lt.mpr hfits)], ?_, ?_⟩
  · have hsum := Waterfill.level_fill (target - (shares.map (·.minimum)).sum) vessels
    rw [hlevel] at hsum
    simp only [Waterfill.level] at hsum
    omega
  · have hfilled := Waterfill.filled_fill (target - (shares.map (·.minimum)).sum) vessels
    rw [Waterfill.Filled, List.forall₂_map_left_iff] at hfilled
    rw [List.forall₂_map_right_iff]
    refine ((List.forall₂_and_left _ _).mpr ⟨hbounds, hfilled⟩).imp ?_
    rintro share vessel ⟨hbound, hvessel⟩
    exact ⟨hvessel.rises, hvessel.fits hbound⟩

/-! ### Ideal rates -/

section Allocate

variable {n : ℕ} (target : ℕ) (inputs : Fin n → AllocationInput)

/-- The groups of the streams, in order. -/
def allocationGroups : List (ℕ × AllocationGroup) :=
  ((List.finRange n).map fun i => (inputs i).group).dedup.insertionSort fun a b =>
    a.1 :: a.2.order ≤ b.1 :: b.2.order

/-- The streams of a group. -/
def groupMembers (group : ℕ × AllocationGroup) : List (Fin n) :=
  (List.finRange n).filter fun i => decide ((inputs i).group = group)

/-- The share of a group: as a whole it weighs as much as its heaviest stream. -/
def groupShare (members : List (Fin n)) : Except BudgetError Share :=
  let minimum := (members.map fun i => (inputs i).limits.minimum).sum
  let maximum := (members.map fun i => (inputs i).limits.maximum).sum
  if target < minimum then .error (.insufficient target minimum)
  else
    .ok ⟨minimum, min maximum target, (members.map fun i => (inputs i).weight).max?.getD 1⟩

/-- The share of a stream within its group. -/
def memberShare (i : Fin n) : Except BudgetError Share :=
  if 2 ^ 64 ≤ (inputs i).pixels * (inputs i).areaWeight then .error .areaOverflow
  else
    .ok ⟨(inputs i).limits.minimum, (inputs i).limits.maximum,
      (inputs i).pixels * (inputs i).areaWeight⟩

/-- Rates are multiples of the step, unless they are below it. -/
def rounded (rate : ℕ) : ℕ := if rate < rateStep then rate else rate / rateStep * rateStep

/-- The ideal rates within a group. -/
def groupIdeals (members : List (Fin n)) (rate : ℕ) : Except BudgetError (List (Fin n × ℕ)) :=
  (members.mapM (memberShare inputs)).bind fun shares =>
    (waterfill rate shares).map fun rates =>
      (members.zip rates).map fun entry =>
        (entry.1, max (rounded entry.2) (inputs entry.1).limits.minimum)

/-- A twentieth of the target is kept in reserve, if the minima leave it. -/
def distributable (minimum : ℕ) : ℕ := max (target - target / 20) minimum

/-- The ideal rates of all streams, group by group. -/
def idealRates : Except BudgetError (List (Fin n × ℕ)) :=
  let members := (allocationGroups inputs).map (groupMembers inputs)
  (members.mapM (groupShare target inputs)).bind fun shares =>
    let minimum := (shares.map (·.minimum)).sum
    if target < minimum then .error (.insufficient target minimum)
    else
      (waterfill (distributable target minimum) shares).bind fun rates =>
        ((members.zip rates).mapM fun entry => groupIdeals inputs entry.1 entry.2).map List.flatten

/-! ### Actual rates -/

/-- A change from `current` to `ideal` is worth a new encoder. -/
def Worthwhile (current ideal : ℕ) : Prop := max rateStep ((current + 3) / 4) ≤ ideal - current

instance (current ideal : ℕ) : Decidable (Worthwhile current ideal) :=
  inferInstanceAs (Decidable (_ ≤ _))

/-- Who has the most beyond its ideal gives it up first. -/
def donors (ideal rates : Fin n → ℕ) : List (Fin n) :=
  ((List.finRange n).filter fun i => decide (ideal i < rates i)).insertionSort fun i j =>
    [rates j - ideal j, (inputs i).key.1, (inputs i).key.2] ≤
      [rates i - ideal i, (inputs j).key.1, (inputs j).key.2]

/-- Streams give up what they have beyond their ideal, until the increases fit. -/
def donate (increases : ℕ) (ideal : Fin n → ℕ) : List (Fin n) → (Fin n → ℕ) → ℕ → (Fin n → ℕ) × ℕ
  | [], rates, total => (rates, total)
  | i :: rest, rates, total =>
      if total + increases ≤ target then (rates, total)
      else donate increases ideal rest (Function.update rates i (ideal i))
        (total - (rates i - ideal i))

/-- Streams get their worthwhile increases, in order, as far as they fit. -/
def increase (ideal : Fin n → ℕ) : List (Fin n) → (Fin n → ℕ) → ℕ → Except BudgetError (Fin n → ℕ)
  | [], rates, _ => .ok rates
  | i :: rest, rates, total =>
      let extra := ideal i - rates i
      let fits := Worthwhile (rates i) (ideal i) ∧ total + extra ≤ target
      let rates := if fits then Function.update rates i (ideal i) else rates
      let total := if fits then total + extra else total
      if (inputs i).limits.Valid (rates i) then increase ideal rest rates total
      else .error .outsideRange

/-- The increases that are worthwhile, all together. -/
def increases (ideal rates : Fin n → ℕ) : ℕ :=
  ((List.finRange n).map fun i =>
    if Worthwhile (rates i) (ideal i) then ideal i - rates i else 0).sum

/-- Approach the ideal rates from the current ones. -/
def approach (ideal : Fin n → ℕ) : Except BudgetError (Fin n → ℕ) :=
  let rates := fun i => (inputs i).current.getD (ideal i)
  let wanted := increases ideal rates
  let donated := donate target wanted ideal (donors inputs ideal rates) rates
    ((List.finRange n).map rates).sum
  if target < donated.2 + wanted then .error .doesNotFit
  else increase target inputs ideal (List.finRange n) donated.1 donated.2

/-- The rates of all streams. -/
def allocate : Except BudgetError (Fin n → ℕ) :=
  if ∃ i, (inputs i).pixels = 0 then .error .zeroPixels
  else
    (idealRates target inputs).bind fun assigned =>
      approach target inputs fun i => (assigned.lookup i).getD 0

/-! ### Sums over groups -/

variable {α β ε : Type*} {rates ideal : Fin n → ℕ} {total : ℕ}

/-- Where every element succeeds, so does the list. -/
theorem mapM_isOk {f : α → Except ε β} {R : α → β → Prop} {l : List α}
    (h : ∀ a ∈ l, ∃ b, f a = .ok b ∧ R a b) : ∃ bs, l.mapM f = .ok bs ∧ List.Forall₂ R l bs := by
  induction l with
  | nil => exact ⟨[], rfl, .nil⟩
  | cons a l ih =>
      obtain ⟨b, hb, hR⟩ := h a List.mem_cons_self
      obtain ⟨bs, hbs, hrest⟩ := ih fun a' ha' => h a' (List.mem_cons_of_mem a ha')
      refine ⟨b :: bs, ?_, .cons hR hrest⟩
      rw [List.mapM_cons, hb, hbs]
      rfl

theorem mapM_eq_ok {f : α → Except ε β} {g : α → β} {l : List α}
    (h : ∀ a ∈ l, f a = .ok (g a)) : l.mapM f = .ok (l.map g) := by
  obtain ⟨bs, hbs, hmap⟩ := mapM_isOk (R := fun a b => g a = b) fun a ha => ⟨g a, h a ha, rfl⟩
  rw [← List.forall₂_map_left_iff, List.forall₂_eq_eq_eq] at hmap
  rw [hbs, hmap]

/-- **Every stream is in exactly one group.** -/
theorem perm_groupMembers :
    ((allocationGroups inputs).flatMap (groupMembers inputs)).Perm (List.finRange n) := by
  have hgroups : (allocationGroups inputs).Nodup :=
    (List.perm_insertionSort _ _).nodup_iff.mpr (List.nodup_dedup _)
  refine (List.perm_ext_iff_of_nodup ?_ (List.nodup_finRange n)).mpr fun i => ?_
  · refine List.nodup_flatMap.mpr ⟨fun group _ => (List.nodup_finRange n).filter _, ?_⟩
    refine hgroups.imp fun {group other} hne => ?_
    intro i hi hi'
    simp only [groupMembers, List.mem_filter, decide_eq_true_eq] at hi hi'
    exact hne (hi.2.symm.trans hi'.2)
  · simp only [List.mem_flatMap, List.mem_finRange, iff_true]
    refine ⟨(inputs i).group, ?_, by simp [groupMembers]⟩
    rw [allocationGroups, List.mem_insertionSort, List.mem_dedup]
    exact List.mem_map_of_mem (List.mem_finRange i)

theorem sum_groupMembers (f : Fin n → ℕ) :
    (((allocationGroups inputs).map (groupMembers inputs)).map fun members =>
      (members.map f).sum).sum = ∑ i, f i := by
  have hperm := ((perm_groupMembers inputs).map f).sum_eq
  rw [Fin.sum_univ_def, ← hperm, List.map_flatMap, List.map_map]
  simp only [List.flatMap, List.sum_flatten, List.map_map]
  rfl

theorem rounded_le (rate : ℕ) : rounded rate ≤ rate := by
  rw [rounded]
  split_ifs
  · exact le_rfl
  · exact Nat.div_mul_le_self rate rateStep

variable {target inputs}

/-- Where the minima of its streams fit, a group divides its rate among them. -/
theorem groupIdeals_isOk {members : List (Fin n)} {rate : ℕ}
    (harea : ∀ i, (inputs i).pixels * (inputs i).areaWeight < 2 ^ 64)
    (hfits : (members.map fun i => (inputs i).limits.minimum).sum ≤ rate) :
    ∃ assigned, groupIdeals inputs members rate = .ok assigned ∧ assigned.map (·.1) = members ∧
      (∀ entry ∈ assigned, (inputs entry.1).limits.Valid entry.2) ∧
      (assigned.map (·.2)).sum ≤ rate := by
  let share := fun i => (⟨(inputs i).limits.minimum, (inputs i).limits.maximum,
    (inputs i).pixels * (inputs i).areaWeight⟩ : Share)
  have hshares : members.mapM (memberShare inputs) = .ok (members.map share) :=
    mapM_eq_ok fun i _ => by rw [memberShare, if_neg (Nat.not_le.mpr (harea i))]
  have hbounds : ∀ s ∈ members.map share, s.minimum ≤ s.maximum := by
    intro s hs
    obtain ⟨i, -, rfl⟩ := List.mem_map.mp hs
    exact (inputs i).limits.minimum_le.trans (inputs i).limits.initial_le
  have hminima : ((members.map share).map (·.minimum)).sum ≤ rate := by
    rw [List.map_map]
    exact hfits
  obtain ⟨rates, hrates, hsum, hwithin⟩ := waterfill_isOk hminima hbounds
  rw [List.forall₂_map_left_iff] at hwithin
  refine ⟨(members.zip rates).map fun entry =>
    (entry.1, max (rounded entry.2) (inputs entry.1).limits.minimum), ?_, ?_, ?_, ?_⟩
  · rw [groupIdeals, hshares]
    simp only [Except.bind, hrates, Except.map]
  · rw [List.map_map]
    exact List.map_fst_zip hwithin.length_eq.le
  · intro entry hentry
    obtain ⟨⟨i, rate⟩, hmem, rfl⟩ := List.mem_map.mp hentry
    obtain ⟨hmin, hmax⟩ := List.forall₂_zip hwithin hmem
    exact ⟨le_max_right _ _, max_le ((rounded_le rate).trans hmax)
      ((inputs i).limits.minimum_le.trans (inputs i).limits.initial_le)⟩
  · refine le_trans ?_ hsum
    rw [List.map_map]
    calc ((members.zip rates).map _).sum
        ≤ ((members.zip rates).map (·.2)).sum := by
          refine List.sum_le_sum fun entry hentry => ?_
          exact max_le (rounded_le entry.2) (List.forall₂_zip hwithin hentry).1
      _ = rates.sum := by rw [List.map_snd_zip hwithin.length_eq.ge]

/-- **Where the minima fit, every stream has an ideal rate** within its limits, and the ideal rates
stay within the target. -/
theorem idealRates_isOk (harea : ∀ i, (inputs i).pixels * (inputs i).areaWeight < 2 ^ 64)
    (hfits : ∑ i, (inputs i).limits.minimum ≤ target) :
    ∃ assigned, idealRates target inputs = .ok assigned ∧
      (assigned.map (·.1)).Perm (List.finRange n) ∧
      (∀ entry ∈ assigned, (inputs entry.1).limits.Valid entry.2) ∧
      (assigned.map (·.2)).sum ≤ target := by
  let members := (allocationGroups inputs).map (groupMembers inputs)
  let share := fun is : List (Fin n) =>
    (⟨(is.map fun i => (inputs i).limits.minimum).sum,
      min (is.map fun i => (inputs i).limits.maximum).sum target,
      (is.map fun i => (inputs i).weight).max?.getD 1⟩ : Share)
  have htotal : ((members.map share).map (·.minimum)).sum = ∑ i, (inputs i).limits.minimum := by
    rw [List.map_map, ← sum_groupMembers inputs fun i => (inputs i).limits.minimum]
    rfl
  have hgroup : ∀ is ∈ members, (is.map fun i => (inputs i).limits.minimum).sum ≤ target := by
    intro is his
    refine le_trans ?_ (htotal.trans_le hfits)
    rw [List.map_map]
    exact List.le_sum_of_mem (List.mem_map_of_mem (f := (·.minimum) ∘ share) his)
  have hshares : members.mapM (groupShare target inputs) = .ok (members.map share) :=
    mapM_eq_ok fun is his => by rw [groupShare, if_neg (Nat.not_lt.mpr (hgroup is his))]
  have hbounds : ∀ s ∈ members.map share, s.minimum ≤ s.maximum := by
    intro s hs
    obtain ⟨is, his, rfl⟩ := List.mem_map.mp hs
    refine le_min (List.sum_le_sum fun i _ => ?_) (hgroup is his)
    exact (inputs i).limits.minimum_le.trans (inputs i).limits.initial_le
  have hroom : ((members.map share).map (·.minimum)).sum ≤
      distributable target ((members.map share).map (·.minimum)).sum := le_max_right _ _
  obtain ⟨rates, hrates, hsum, hwithin⟩ := waterfill_isOk hroom hbounds
  rw [List.forall₂_map_left_iff] at hwithin
  obtain ⟨parts, hparts, hassigned⟩ := mapM_isOk (f := fun entry : List (Fin n) × ℕ =>
    groupIdeals inputs entry.1 entry.2) (l := members.zip rates) fun entry hentry =>
      groupIdeals_isOk harea (List.forall₂_zip hwithin hentry).1
  refine ⟨parts.flatten, ?_, ?_, ?_, ?_⟩
  · simp only [members] at hshares hrates hparts
    rw [idealRates]
    simp only [hshares, Except.bind]
    rw [if_neg (Nat.not_lt.mpr (htotal.trans_le hfits)), hrates]
    simp only [hparts, Except.map]
  · have hkeys : parts.map (fun part => part.map (·.1)) = members := by
      rw [← List.map_fst_zip hwithin.length_eq.le, ← List.forall₂_eq_eq_eq,
        List.forall₂_map_left_iff, List.forall₂_map_right_iff]
      exact (hassigned.imp fun _ _ h => h.1).flip
    rw [List.map_flatten, hkeys]
    exact perm_groupMembers inputs
  · intro entry hentry
    obtain ⟨part, hpart, hentry⟩ := List.mem_flatten.mp hentry
    obtain ⟨k, hk, rfl⟩ := List.mem_iff_getElem.mp hpart
    exact (hassigned.get (hassigned.length_eq ▸ hk) hk).2.1 entry hentry
  · have hle : (parts.map fun part => (part.map (·.2)).sum).sum ≤ rates.sum := by
      rw [← List.map_snd_zip hwithin.length_eq.ge]
      refine List.Forall₂.sum_le_sum ?_
      rw [List.forall₂_map_left_iff, List.forall₂_map_right_iff]
      exact (hassigned.imp fun _ _ h => h.2.2).flip
    have hreserve : distributable target ((members.map share).map (·.minimum)).sum ≤ target :=
      max_le (Nat.sub_le _ _) (htotal.trans_le hfits)
    rw [List.map_flatten, List.sum_flatten, List.map_map]
    exact (hle.trans hsum).trans hreserve

/-! ### Approaching the ideal -/

/-- What a list of distinct entries says of a key. -/
theorem lookup_of_mem [DecidableEq α] {entries : List (α × β)} (hnodup : (entries.map (·.1)).Nodup)
    {entry : α × β} (hmem : entry ∈ entries) : entries.lookup entry.1 = some entry.2 := by
  induction entries with
  | nil => cases hmem
  | cons first rest ih =>
      rw [List.map_cons, List.nodup_cons] at hnodup
      rcases List.mem_cons.mp hmem with rfl | hrest
      · rw [List.lookup_cons, beq_self_eq_true]
      · have hne : entry.1 ≠ first.1 := fun hsame =>
          hnodup.1 (hsame ▸ List.mem_map_of_mem hrest)
        rw [List.lookup_cons, beq_false_of_ne hne]
        exact ih hnodup.2 hrest

/-- What the streams have after giving up some of it. -/
theorem donate_spec (target increases : ℕ) (ideal : Fin n → ℕ) {list : List (Fin n)}
    (hnodup : list.Nodup) (habove : ∀ i ∈ list, ideal i < rates i) (htotal : total = ∑ i, rates i) :
    (donate target increases ideal list rates total).2 =
        ∑ i, (donate target increases ideal list rates total).1 i ∧
      (∀ i, (donate target increases ideal list rates total).1 i = rates i ∨
        i ∈ list ∧ (donate target increases ideal list rates total).1 i = ideal i) ∧
      ((donate target increases ideal list rates total).2 + increases ≤ target ∨
        ∀ i ∈ list, (donate target increases ideal list rates total).1 i = ideal i) := by
  induction list generalizing rates total with
  | nil => exact ⟨htotal, fun _ => Or.inl rfl, Or.inr fun i hi => absurd hi List.not_mem_nil⟩
  | cons i rest ih =>
      obtain ⟨hi, hrest⟩ := List.nodup_cons.mp hnodup
      rw [donate]
      split_ifs with hfits
      · exact ⟨htotal, fun _ => Or.inl rfl, Or.inl hfits⟩
      · have hsum := Finset.sum_update_of_mem (Finset.mem_univ i) rates (ideal i)
        have hbefore := Finset.sum_erase_add Finset.univ rates (Finset.mem_univ i)
        have hless := habove i List.mem_cons_self
        rw [← Finset.erase_eq] at hsum
        have hother : ∀ j ∈ rest, j ≠ i := fun j hj hsame => hi (hsame ▸ hj)
        obtain ⟨htotal', hcases, hdone⟩ := @ih (Function.update rates i (ideal i))
          (total - (rates i - ideal i)) hrest
          (fun j hj => by
            rw [Function.update_of_ne (hother j hj)]
            exact habove j (List.mem_cons_of_mem i hj))
          (by omega)
        refine ⟨htotal', fun j => ?_, ?_⟩
        · rcases hcases j with hkept | ⟨hj, hgiven⟩
          · by_cases hsame : j = i
            · subst hsame
              rw [Function.update_self] at hkept
              exact Or.inr ⟨List.mem_cons_self, hkept⟩
            · rw [Function.update_of_ne hsame] at hkept
              exact Or.inl hkept
          · exact Or.inr ⟨List.mem_cons_of_mem i hj, hgiven⟩
        · refine hdone.imp id fun hall j hj => ?_
          rcases List.mem_cons.mp hj with rfl | hj
          · rcases hcases j with hkept | ⟨-, hgiven⟩
            · rw [hkept, Function.update_self]
            · exact hgiven
          · exact hall j hj

/-- Increases that fit keep every rate within its limits, and all within the target. -/
theorem increase_isOk (hideal : ∀ i, (inputs i).limits.Valid (ideal i)) (list : List (Fin n))
    (hvalid : ∀ i, (inputs i).limits.Valid (rates i)) (htotal : total = ∑ i, rates i)
    (hfits : total ≤ target) :
    ∃ result, increase target inputs ideal list rates total = .ok result ∧
      (∀ i, (inputs i).limits.Valid (result i)) ∧ ∑ i, result i ≤ target := by
  induction list generalizing rates total with
  | nil => exact ⟨rates, rfl, hvalid, htotal ▸ hfits⟩
  | cons i rest ih =>
      rw [increase]
      by_cases hworth : Worthwhile (rates i) (ideal i) ∧ total + (ideal i - rates i) ≤ target
      · simp only [if_pos hworth, Function.update_self, if_pos (hideal i)]
        refine ih (fun j => ?_) ?_ hworth.2
        · by_cases hsame : j = i
          · subst hsame
            rw [Function.update_self]
            exact hideal j
          · rw [Function.update_of_ne hsame]
            exact hvalid j
        · have hsum := Finset.sum_update_of_mem (Finset.mem_univ i) rates (ideal i)
          have hbefore := Finset.sum_erase_add Finset.univ rates (Finset.mem_univ i)
          have hmore : rateStep ≤ ideal i - rates i := (le_max_left _ _).trans hworth.1
          have hstep : rateStep = 64000 := rfl
          rw [← Finset.erase_eq] at hsum
          omega
      · simp only [if_neg hworth, if_pos (hvalid i)]
        exact ih hvalid htotal hfits

/-- **Approaching ideal rates succeeds**: nobody leaves its limits, and all stay within the
target. -/
theorem approach_isOk (hideal : ∀ i, (inputs i).limits.Valid (ideal i))
    (hsum : ∑ i, ideal i ≤ target)
    (hcurrent : ∀ i, ∀ rate ∈ (inputs i).current, (inputs i).limits.Valid rate) :
    ∃ rates, approach target inputs ideal = .ok rates ∧
      (∀ i, (inputs i).limits.Valid (rates i)) ∧ ∑ i, rates i ≤ target := by
  let rates := fun i => (inputs i).current.getD (ideal i)
  have hrates : ∀ i, (inputs i).limits.Valid (rates i) := by
    intro i
    simp only [rates]
    cases hold : (inputs i).current with
    | none => exact hideal i
    | some rate => exact hcurrent i rate hold
  have hdonors : ∀ i, i ∈ donors inputs ideal rates ↔ ideal i < rates i := by
    simp [donors]
  have hnodup : (donors inputs ideal rates).Nodup :=
    (List.perm_insertionSort _ _).nodup_iff.mpr ((List.nodup_finRange n).filter _)
  obtain ⟨htotal, hcases, hdone⟩ := donate_spec target (increases ideal rates) ideal hnodup
    (fun i hi => (hdonors i).mp hi) (Fin.sum_univ_def rates).symm
  generalize hdonated : donate target (increases ideal rates) ideal (donors inputs ideal rates) rates
    ((List.finRange n).map rates).sum = donated at htotal hcases hdone
  have hwanted : increases ideal rates =
      ∑ i, if Worthwhile (rates i) (ideal i) then ideal i - rates i else 0 := by
    rw [increases, Fin.sum_univ_def]
  -- Once all donors are at their ideal, nobody has more than that, increases included.
  have hfits : donated.2 + increases ideal rates ≤ target := by
    rcases hdone with hearly | hall
    · exact hearly
    · refine le_trans ?_ hsum
      rw [htotal, hwanted, ← Finset.sum_add_distrib]
      refine Finset.sum_le_sum fun i _ => ?_
      rcases hcases i with hkept | ⟨hi, hgiven⟩
      · have hbelow : rates i ≤ ideal i := by
          by_contra habove
          have hgiven := hall i ((hdonors i).mpr (Nat.lt_of_not_le habove))
          omega
        rw [hkept]
        split_ifs
        · omega
        · omega
      · have habove := (hdonors i).mp hi
        rw [hgiven, Nat.sub_eq_zero_of_le habove.le, ite_self]
        exact le_rfl
  have hvalid : ∀ i, (inputs i).limits.Valid (donated.1 i) := by
    intro i
    rcases hcases i with hkept | ⟨-, hgiven⟩
    · rw [hkept]
      exact hrates i
    · rw [hgiven]
      exact hideal i
  obtain ⟨result, hresult, hwithin⟩ := increase_isOk hideal (List.finRange n) hvalid htotal
    ((Nat.le_add_right _ _).trans hfits)
  refine ⟨result, ?_, hwithin⟩
  have happroach : approach target inputs ideal =
      if target < donated.2 + increases ideal rates then .error .doesNotFit
      else increase target inputs ideal (List.finRange n) donated.1 donated.2 := by
    rw [← hdonated]
    rfl
  rw [happroach, if_neg (Nat.not_lt.mpr hfits)]
  exact hresult

/-- **Where the minima fit, an allocation exists**, gives every stream a rate within its limits, and
stays within the target. -/
theorem allocate_isOk (hpixels : ∀ i, 0 < (inputs i).pixels)
    (harea : ∀ i, (inputs i).pixels * (inputs i).areaWeight < 2 ^ 64)
    (hcurrent : ∀ i, ∀ rate ∈ (inputs i).current, (inputs i).limits.Valid rate)
    (hfits : ∑ i, (inputs i).limits.minimum ≤ target) :
    ∃ rates, allocate target inputs = .ok rates ∧
      (∀ i, (inputs i).limits.Valid (rates i)) ∧ ∑ i, rates i ≤ target := by
  obtain ⟨assigned, hassigned, hkeys, hwithin, hsum⟩ := idealRates_isOk harea hfits
  have hnodup : (assigned.map (·.1)).Nodup := hkeys.nodup_iff.mpr (List.nodup_finRange n)
  let ideal := fun i => (assigned.lookup i).getD 0
  have hvalue : ∀ entry ∈ assigned, ideal entry.1 = entry.2 := by
    intro entry hentry
    simp only [ideal]
    rw [lookup_of_mem hnodup hentry, Option.getD_some]
  have hideal : ∀ i, (inputs i).limits.Valid (ideal i) := by
    intro i
    obtain ⟨entry, hentry, rfl⟩ := List.mem_map.mp (hkeys.mem_iff.mpr (List.mem_finRange i))
    rw [hvalue entry hentry]
    exact hwithin entry hentry
  have htotal : ∑ i, ideal i ≤ target := by
    refine le_trans (le_of_eq ?_) hsum
    rw [Fin.sum_univ_def, ← (hkeys.map ideal).sum_eq, List.map_map]
    exact congrArg List.sum (List.map_congr_left hvalue)
  obtain ⟨rates, hrates, hresult⟩ := approach_isOk hideal htotal hcurrent
  refine ⟨rates, ?_, hresult⟩
  rw [allocate, if_neg fun ⟨i, hi⟩ => (hpixels i).ne' hi, hassigned]
  exact hrates

end Allocate

end Encoded
